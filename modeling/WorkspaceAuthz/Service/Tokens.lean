import WorkspaceAuthz.Go.Base64
import WorkspaceAuthz.Service.Authorization
import WorkspaceAuthz.Service.Consistency

/-! # Consistency tokens

A write returns a token that names its shard and the sequence number that it has
found there. A reader who brings a token is served if the shard has got as far.
Nothing is assumed of JSON and base64 but that decoding undoes encoding.
-/
namespace WorkspaceAuthz.Service
open Go Authz Interleaving

structure Token where
  project : GoString
  tenant : GoString
  seq : ℤ
deriving DecidableEq

/-- The bytes are those of some text. -/
def ValidUTF8 (s : GoString) : Prop := ∃ text : String, str text = s

/-- What `encoding/json` makes of tokens, and `base64.RawURLEncoding` of bytes. -/
structure TokenCodec where
  marshal : Token → GoString
  unmarshal : GoString → Option Token
  encodeToString : GoString → GoString
  decodeString : GoString → Option GoString
  unmarshal_marshal : ∀ tok, ValidUTF8 tok.project → ValidUTF8 tok.tenant →
    unmarshal (marshal tok) = some tok
  decode_encodeToString : ∀ raw, decodeString (encodeToString raw) = some raw

namespace TokenCodec

def version : GoString := "ct1."

variable (codec : TokenCodec)

def encode (project tenant : GoString) (seq : ℤ) : GoString :=
  version ++ codec.encodeToString (codec.marshal ⟨project, tenant, seq⟩)

/-- The error is the text of `ErrMalformed` with what is wrong. -/
def decode (s : GoString) : Except GoString Token :=
  if version.isPrefixOf s then
    match codec.decodeString (s.drop version.length) with
    | none => .error "malformed consistency token: bad base64"
    | some raw =>
      match codec.unmarshal raw with
      | none => .error "malformed consistency token: bad payload"
      | some tok =>
        if tok.seq < 0 then .error "malformed consistency token: negative sequence" else .ok tok
  else .error "malformed consistency token: bad prefix"

variable {codec} {project tenant : GoString} {seq : ℤ}

theorem decode_encode (hproject : ValidUTF8 project) (htenant : ValidUTF8 tenant)
    (hseq : 0 ≤ seq) : codec.decode (codec.encode project tenant seq) =
      .ok ⟨project, tenant, seq⟩ := by
  simp [decode, encode, codec.decode_encodeToString,
    codec.unmarshal_marshal ⟨project, tenant, seq⟩ hproject htenant, hseq]

theorem encode_ne_nil : codec.encode project tenant seq ≠ [] := by
  have hversion : version ≠ [] := by decide
  simp [encode, hversion]

end TokenCodec

section Requests

variable (codec : TokenCodec) (p : Principal)

def writeTuplesToken (ops : List TupleOp) : ServiceM GoString := do
  let seq ← writeTuples p ops
  return codec.encode p.projectID p.tenantID seq

def ensureConsistency (token : GoString) : ServiceM Unit := do
  if token = [] then return ()
  else
    let tok ← checked (match codec.decode token with
      | .ok tok => .ok tok
      | .error malformed => .error ⟨.invalidArgument, malformed, []⟩)
    if tok.project ≠ p.projectID ∨ tok.tenant ≠ p.tenantID then
      throw ⟨.invalidArgument, "consistency token is for a different project/tenant", []⟩
    let current ← call (.consistencyToken p.projectID p.tenantID)
    if current < tok.seq then
      throw ⟨.failedPrecondition, "store has not reached the requested consistency sequence", []⟩

end Requests

/-! ## Tokens that were returned -/

/-- Any calls, and no more is relied upon than is said. -/
def anyCalls (relies : (c : Call) → Reply c → Prop) : Protocol Call Reply where
  issues _ _ := True
  relies _ := relies

/-- The number that is returned was read from the shard. -/
def ReturnsRead (p : Principal) (x : ServiceM ℤ) : Prop :=
  ∀ trace, x.run.Keeps (anyCalls fun _ _ => True) (fun t r => ∀ seq, r = .ok seq →
    ⟨.consistencyToken p.projectID p.tenantID, .ok seq⟩ ∈ t) trace

section Writes

variable {p : Principal}

theorem returnsRead_bind {α : Type} {x : ServiceM α} {f : α → ServiceM ℤ}
    (hf : ∀ a, ReturnsRead p (f a)) : ReturnsRead p (x >>= f) :=
  fun _ => keeps_sequence_of_forall (fun _ _ => trivial) (fun _ _ => nofun) hf

theorem returnsRead_consistencyToken :
    ReturnsRead p (call (.consistencyToken p.projectID p.tenantID)) := by
  intro trace
  refine ⟨trivial, fun r _ seq hr => ?_⟩
  rw [hr]
  exact List.mem_cons_self

theorem returnsRead_writeTuples (ops : List TupleOp) : ReturnsRead p (writeTuples p ops) := by
  have hread {inserts deletes : List Tuple} : ReturnsRead p (do
      call (.writeTuples p.projectID p.tenantID inserts deletes)
      call (.consistencyToken p.projectID p.tenantID)) :=
    returnsRead_bind fun _ => returnsRead_consistencyToken
  refine returnsRead_bind fun _ => returnsRead_bind fun _ trace => keeps_ite (fun _ => ?_) fun _ =>
    hread trace
  exact returnsRead_bind (fun _ => returnsRead_bind fun _ => hread) trace

end Writes

/-! ## Clients -/

/-- The program of a client, be it a write that returns a token or anything else. -/
abbrev Client := Prog Call Reply (Except ServiceError (Option GoString))

def Client.write (codec : TokenCodec) (p : Principal) (ops : List TupleOp) : Client :=
  ExceptT.run (do
    let token ← writeTuplesToken codec p ops
    return some token)

def Client.ensure (codec : TokenCodec) (p : Principal) (token : GoString) : Client :=
  ExceptT.run (do
    ensureConsistency codec p token
    return none)

theorem keeps_write (codec : TokenCodec) (p : Principal) (ops : List TupleOp)
    (trace : CallTrace) :
    (Client.write codec p ops).Keeps (anyCalls fun _ _ => True)
      (fun t r => ∀ token, r = .ok (some token) → ∃ seq,
        ⟨.consistencyToken p.projectID p.tenantID, .ok seq⟩ ∈ t ∧
          token = codec.encode p.projectID p.tenantID seq) trace := by
  rw [Client.write, writeTuplesToken, keeps_sequence, keeps_sequence]
  refine (returnsRead_writeTuples ops trace).mono fun t r hr => ?_
  cases r with
  | error e => exact fun _ => nofun
  | ok seq =>
    intro token htoken
    cases htoken
    exact ⟨seq, hr seq rfl, rfl⟩

/-- The shard has got as far as to a number. -/
def reached (p : Principal) (seq : ℤ) : (c : Call) → Reply c → Prop
  | .consistencyToken projectID tenantID, r =>
    projectID = p.projectID → tenantID = p.tenantID → ∃ current, r = .ok current ∧ seq ≤ current
  | _, _ => True

theorem keeps_ensure {codec : TokenCodec} {p p' : Principal} {seq : ℤ}
    (hproject : ValidUTF8 p.projectID) (htenant : ValidUTF8 p.tenantID) (hseq : 0 ≤ seq)
    (trace : CallTrace) :
    (Client.ensure codec p' (codec.encode p.projectID p.tenantID seq)).Keeps
      (anyCalls (reached p seq))
      (fun _ r => (p'.projectID = p.projectID ∧ p'.tenantID = p.tenantID → r = .ok none) ∧
        (¬ (p'.projectID = p.projectID ∧ p'.tenantID = p.tenantID) →
          ∃ e, r = .error e ∧ e.kind = .invalidArgument)) trace := by
  rw [Client.ensure, ensureConsistency, if_neg TokenCodec.encode_ne_nil,
    TokenCodec.decode_encode hproject htenant hseq]
  rw [keeps_sequence, keeps_sequence, keeps_settled]
  by_cases hshard : p'.projectID = p.projectID ∧ p'.tenantID = p.tenantID
  · have hsame : ¬ (p.projectID ≠ p'.projectID ∨ p.tenantID ≠ p'.tenantID) := by
      simp [hshard.1, hshard.2]
    simp only [hsame, if_false]
    refine keeps_attempt_then trivial (fun e he => ?_) fun current hcurrent => ?_
    · obtain ⟨current, hr, -⟩ := he hshard.1 hshard.2
      cases hr
    · obtain ⟨current', hr, hle⟩ := hcurrent hshard.1 hshard.2
      cases hr
      rw [if_neg (not_lt.mpr hle)]
      exact ⟨fun _ => rfl, fun h => absurd hshard h⟩
  · have hother : p.projectID ≠ p'.projectID ∨ p.tenantID ≠ p'.tenantID := by
      rw [← not_and_or]
      exact fun h => hshard ⟨h.1.symm, h.2.symm⟩
    simp only [hother, if_true]
    exact ⟨fun h => absurd h hshard, fun _ => ⟨_, rfl, rfl⟩⟩

/-! ## Runs -/

/-- Every number that anyone has read from a shard is one that the shard has got to. -/
def NumbersReached {ι : Type} (s : Store) (ts : List (ι × CallTrace)) : Prop :=
  (∀ sk, 0 ≤ s.seq sk) ∧ ∀ t ∈ ts, ∀ projectID tenantID seq,
    ⟨.consistencyToken projectID tenantID, .ok seq⟩ ∈ t.2 →
      0 ≤ seq ∧ seq ≤ s.consistencyToken projectID tenantID

theorem numbersReached_exec {ι : Type} (env : Env) {s : Store} {i : ι} {trace : CallTrace}
    {before after : List (ι × CallTrace)} {c : Call}
    (h : NumbersReached s (before ++ (i, trace) :: after)) :
    NumbersReached (exec env c s).2 (before ++ (i, ⟨c, (exec env c s).1⟩ :: trace) :: after) := by
  refine ⟨fun sk => (h.1 sk).trans (seq_exec_le env s sk c), ?_⟩
  have hold {x : ι × CallTrace} (hx : x ∈ before ++ (i, trace) :: after) {projectID tenantID seq}
      (hmem : ⟨.consistencyToken projectID tenantID, .ok seq⟩ ∈ x.2) :
      0 ≤ seq ∧ seq ≤ (exec env c s).2.consistencyToken projectID tenantID := by
    obtain ⟨hnonneg, hle⟩ := h.2 x hx projectID tenantID seq hmem
    exact ⟨hnonneg, hle.trans (seq_exec_le env s _ c)⟩
  apply forall_mem_of_step
  · intro projectID tenantID seq hmem
    rcases List.mem_cons.mp hmem with heq | hmem
    · cases heq
      exact ⟨h.1 _, le_rfl⟩
    · exact hold (x := (i, trace)) (by simp) hmem
  · intro x hx projectID tenantID seq hmem
    exact hold (mem_of_mem_others hx) hmem

section Tokens

variable {codec : TokenCodec} {p : Principal} {ops : List TupleOp}
  {c c' : Config Store Call Reply (Except ServiceError (Option GoString))}

theorem numbersReached_empty {ι : Type} {ts : List (ι × CallTrace)} (h : ∀ t ∈ ts, t.2 = []) :
    NumbersReached Store.empty ts := by
  refine ⟨fun sk => by simp [Store.seq, Store.empty], fun t ht projectID tenantID seq hmem => ?_⟩
  rw [h t ht] at hmem
  cases hmem

/-- The shard has got to the number in a token that a write has returned. -/
theorem reached_of_returned {clients : List Client} {n : ℕ}
    (hn : clients[n]? = some (Client.write codec p ops))
    (h : Reaches exec (fun _ _ _ _ => True) (.start .empty clients) c) {token : GoString}
    (htoken : c.result? n = some (.ok (some token))) :
    ∃ seq, token = codec.encode p.projectID p.tenantID seq ∧ 0 ≤ seq ∧
      seq ≤ c.state.consistencyToken p.projectID p.tenantID := by
  let Q (client : Client) (t : CallTrace) (r : Except ServiceError (Option GoString)) : Prop :=
    client = Client.write codec p ops → ∀ token, r = .ok (some token) → ∃ seq,
      ⟨.consistencyToken p.projectID p.tenantID, .ok seq⟩ ∈ t ∧
        token = codec.encode p.projectID p.tenantID seq
  have hstart : (Config.start Store.empty (clients.map id)).Upholds
      (fun _ => anyCalls fun _ _ => True) Q NumbersReached clients := by
    apply Config.upholds_start
    · exact fun ts => numbersReached_empty
    · intro client _
      by_cases hclient : client = Client.write codec p ops
      · rw [hclient]
        exact (keeps_write codec p ops []).mono fun t r hr _ => hr
      · exact Prog.keeps_of_forall (fun _ _ => trivial) (fun _ _ hwrite => absurd hwrite hclient) _
  rw [List.map_id] at hstart
  have hend := h.upholds (fun env s before i trace after call hinv _ _ =>
    ⟨trivial, numbersReached_exec env hinv⟩) hstart
  obtain ⟨t, ht, hwrite⟩ := hend.of_result hn htoken
  obtain ⟨seq, hread, htoken⟩ := hwrite rfl token rfl
  obtain ⟨hnonneg, hle⟩ := hend.inv.2 _ ht _ _ _ hread
  exact ⟨seq, htoken, hnonneg, hle⟩

theorem reached_exec (env : Env) {s : Store} {seq : ℤ}
    (h : seq ≤ s.consistencyToken p.projectID p.tenantID) (c : Call) :
    reached p seq c (exec env c s).1 := by
  cases c with
  | consistencyToken projectID tenantID =>
    rintro rfl rfl
    exact ⟨_, rfl, h⟩
  | _ => trivial

end Tokens

/-- A token that was returned by a write is good for its shard from then on, whatever else
happens, and for no other shard. -/
theorem returned_tokens_stay_valid (codec : TokenCodec) (p : Principal)
    (hproject : ValidUTF8 p.projectID) (htenant : ValidUTF8 p.tenantID) (ops : List TupleOp)
    (clients : List Client) (n : ℕ) (hn : clients[n]? = some (Client.write codec p ops))
    (c : Config Store Call Reply (Except ServiceError (Option GoString)))
    (h : Reaches exec (fun _ _ _ _ => True) (.start .empty clients) c) (token : GoString)
    (htoken : c.result? n = some (.ok (some token))) (p' : Principal) (others : List Client)
    (c' : Config Store Call Reply (Except ServiceError (Option GoString)))
    (h' : Reaches exec (fun _ _ _ _ => True) (c.spawn (Client.ensure codec p' token :: others)) c')
    (r : Except ServiceError (Option GoString)) (hr : c'.result? c.processes.length = some r) :
    (p'.projectID = p.projectID ∧ p'.tenantID = p.tenantID → r = .ok none) ∧
      (¬ (p'.projectID = p.projectID ∧ p'.tenantID = p.tenantID) →
        ∃ e, r = .error e ∧ e.kind = .invalidArgument) := by
  obtain ⟨seq, rfl, hnonneg, hle⟩ := reached_of_returned hn h htoken
  have hstep : ∀ env s (t : CallTrace) call, seq ≤ s.consistencyToken p.projectID p.tenantID →
      (anyCalls (reached p seq)).relies t call (exec env call s).1 ∧
        seq ≤ (exec env call s).2.consistencyToken p.projectID p.tenantID :=
    fun env s _ call hs => ⟨reached_exec env hs call, hs.trans (seq_exec_le env s _ call)⟩
  exact (h'.result_of_spawn hstep hle (keeps_ensure hproject htenant hnonneg []) hr :)

/-! ## A token across a later write -/

namespace JsonTokens

def quotationMark : UInt8 := ascii '\x22'

def backslash : UInt8 := ascii '\x5c'

/-- What `json.Marshal` also escapes (control characters, line separators, '<', '>' and '&')
is left as it is. -/
def escape (c : UInt8) : GoString :=
  if c = quotationMark ∨ c = backslash then [backslash, c] else [c]

/-- The text up to the closing quotation mark, and what follows; a backslash may be before it. -/
def unquote : Bool → GoString → Option (GoString × GoString)
  | _, [] => none
  | true, c :: rest => (unquote false rest).map fun p => (c :: p.1, p.2)
  | false, c :: rest =>
    if c = quotationMark then some ([], rest)
    else if c = backslash then unquote true rest
    else (unquote false rest).map fun p => (c :: p.1, p.2)

theorem unquote_escape (s rest : GoString) :
    unquote false (s.flatMap escape ++ quotationMark :: rest) = some (s, rest) := by
  have hne : backslash ≠ quotationMark := by decide
  induction s with
  | nil => simp [unquote]
  | cons c s ih =>
    rw [List.flatMap_cons, List.append_assoc, escape]
    split_ifs with hescaped
    · simp [unquote, hne, ih]
    · rw [not_or] at hescaped
      simp [unquote, hescaped, ih]

def cutPrefix (b start : GoString) : Option GoString :=
  if start.isPrefixOf b then some (b.drop start.length) else none

theorem cutPrefix_append (start b : GoString) : cutPrefix (start ++ b) start = some b := by
  simp [cutPrefix]

def formatInt (n : ℤ) : GoString := (if n < 0 then [ascii '-'] else []) ++ itoa n.natAbs

def parseInt : GoString → ℤ
  | [] => 0
  | c :: digits => if c = ascii '-' then -atoi digits else atoi (c :: digits)

theorem parseInt_formatInt (n : ℤ) : parseInt (formatInt n) = n := by
  unfold formatInt
  split_ifs with hneg
  · simp only [List.singleton_append, parseInt, if_true, atoi_itoa]
    omega
  · have hminus := notMem_itoa (d := '-') (.inl (by decide)) (by decide) n.natAbs
    have hvalue := atoi_itoa n.natAbs
    rw [List.nil_append]
    cases hdigits : itoa n.natAbs with
    | nil =>
      rw [hdigits] at hvalue
      simp only [parseInt]
      change 0 = n.natAbs at hvalue
      omega
    | cons c digits =>
      rw [hdigits] at hminus hvalue
      have hc : c ≠ ascii '-' := fun hc => hminus (hc ▸ List.mem_cons_self)
      rw [parseInt, if_neg hc, hvalue]
      omega

theorem takeWhile_formatInt (n : ℤ) :
    (formatInt n ++ str "\x7d").takeWhile (· ≠ ascii '\x7d') = formatInt n := by
  have hnone : ∀ c ∈ formatInt n, decide (c ≠ ascii '\x7d') = true := by
    intro c hc
    apply decide_eq_true
    rintro rfl
    rcases List.mem_append.mp hc with hsign | hdigit
    · split_ifs at hsign
      · exact absurd hsign (by decide)
      · cases hsign
    · exact notMem_itoa (.inr (by decide)) (by decide) _ hdigit
  rw [List.takeWhile_append_of_pos hnone]
  exact List.append_nil _

def marshal (tok : Token) : GoString :=
  str "\x7b\"p\":\"" ++ (tok.project.flatMap escape ++ quotationMark :: (str ",\"t\":\"" ++
    (tok.tenant.flatMap escape ++ quotationMark :: (str ",\"s\":" ++
      (formatInt tok.seq ++ str "\x7d")))))

def unmarshal (b : GoString) : Option Token := do
  let b ← cutPrefix b "\x7b\"p\":\""
  let (project, b) ← unquote false b
  let b ← cutPrefix b ",\"t\":\""
  let (tenant, b) ← unquote false b
  let b ← cutPrefix b ",\"s\":"
  return ⟨project, tenant, parseInt (b.takeWhile (· ≠ ascii '\x7d'))⟩

theorem unmarshal_marshal (tok : Token) : unmarshal (marshal tok) = some tok := by
  simp only [unmarshal, marshal, cutPrefix_append, unquote_escape, takeWhile_formatInt,
    parseInt_formatInt, Option.bind_eq_bind, Option.bind_some]
  rfl

/-- The text of a token is the one of `encoding/json` where nothing else has to be escaped. -/
def codec : TokenCodec where
  marshal
  unmarshal
  encodeToString := Base64.encodeToString
  decodeString := Base64.decodeString
  unmarshal_marshal tok _ _ := unmarshal_marshal tok
  decode_encodeToString := Base64.decodeString_encodeToString

example : codec.encode "p" "t" 1 = str "ct1.eyJwIjoicCIsInQiOiJ0IiwicyI6MX0" := by decide +kernel

def ann : Principal := ⟨"ann", "p", "t"⟩

def grant (userID : GoString) : List TupleOp :=
  [⟨false, userTuple "document" "plan" "viewer" userID⟩]

def clients : List Client :=
  [Client.write codec ann (grant "bob"), Client.write codec ann (grant "carol")]

def written : Config Store Call Reply (Except ServiceError (Option GoString)) :=
  (Config.start Store.empty clients).run exec (steps 4 0)

def token : GoString := codec.encode "p" "t" 1

/-- The second write comes between, then the token is looked at. -/
def ensured (p : Principal) : Config Store Call Reply (Except ServiceError (Option GoString)) :=
  (written.spawn [Client.ensure codec p token]).run exec (steps 4 1 ++ steps 1 2)

end JsonTokens

open JsonTokens in
theorem token_valid_after_write :
    (ensured ann).result? 2 = some (.ok none) ∧
      ∃ e, (ensured ⟨"ann", "p", "u"⟩).result? 2 = some (.error e) ∧ e.kind = .invalidArgument := by
  have hreach := reaches_run exec (Config.start Store.empty clients) (steps 4 0)
    (Config.admitsAll_true exec _ _)
  have hvalid (p : Principal) (r : Except ServiceError (Option GoString))
      (hr : (ensured p).result? 2 = some r) :=
    returned_tokens_stay_valid codec ann ⟨"p", rfl⟩ ⟨"t", rfl⟩ (grant "bob") clients 0 rfl written
      hreach token (by decide +kernel) p [] (ensured p)
      (reaches_run exec _ _ (Config.admitsAll_true exec _ _)) r hr
  constructor
  · obtain ⟨r, hr⟩ : ∃ r, (ensured ann).result? 2 = some r :=
      Option.isSome_iff_exists.mp (by decide +kernel)
    rw [hr, (hvalid ann r hr).1 ⟨rfl, rfl⟩]
  · obtain ⟨r, hr⟩ : ∃ r, (ensured ⟨"ann", "p", "u"⟩).result? 2 = some r :=
      Option.isSome_iff_exists.mp (by decide +kernel)
    obtain ⟨e, rfl, he⟩ := (hvalid _ r hr).2 (by decide)
    exact ⟨e, hr, he⟩

end WorkspaceAuthz.Service
