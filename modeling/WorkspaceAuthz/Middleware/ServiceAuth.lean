import WorkspaceAuthz.Go.Strings

/-! # Service authentication

What a request passes before it gets to a service. Preflights of browsers are answered
first. Then the calling service is told from its bearer token, which may pin it to a
project; where no tokens are configured everyone is let in.
-/
namespace WorkspaceAuthz.Middleware
open Go

/-- What is read of a request; the names of headers are in their canonical form. -/
structure Request where
  method : GoString
  path : GoString
  headers : List (GoString × GoString) := []
  remoteAddr : GoString := []
  body : GoString := []

/-- `Header.Get`: the first value, or nothing. -/
def Request.header (r : Request) (name : GoString) : GoString :=
  ((r.headers.find? (·.1 = name)).map Prod.snd).getD []

/-- The calling service, which is anonymous if nothing is known about it. -/
structure CallerIdentity where
  name : GoString := []
  projectID : GoString := []
deriving DecidableEq

structure ServiceCredential where
  token : GoString
  name : GoString
  projectID : GoString := []
deriving DecidableEq

inductive Outcome (α : Type) where
  | text (status : ℕ) (text : String)
  | noContent
  | redirect (path : GoString)
  | served (a : α)

structure Answer (α : Type) where
  headers : List (GoString × GoString) := []
  outcome : Outcome α

/-- Handlers get the caller with the context of the request. -/
abbrev Handler (α : Type) := CallerIdentity → Request → Answer α

variable {α : Type}

/-! ## Tokens -/

def lowerASCII (c : UInt8) : UInt8 := if ascii 'A' ≤ c ∧ c ≤ ascii 'Z' then c + 32 else c

/-- No character beyond ASCII folds to a letter of `Bearer`, so that `strings.EqualFold` compares
bytes here. -/
def bearerToken (header : GoString) : GoString :=
  if 7 < header.length ∧ (header.take 7).map lowerASCII = "bearer " then
    trimSpace (header.drop 7)
  else []

/-- Every credential is compared, and the last one that matches counts. -/
def matchCredential (presented : GoString) (creds : List ServiceCredential) :
    Option CallerIdentity :=
  if presented = [] then none
  else creds.foldl (fun found c => if presented = c.token then some ⟨c.name, c.projectID⟩
    else found) none

def tokenMatches (presented : GoString) (tokens : List GoString) : Bool :=
  if presented = [] then false
  else tokens.foldl (fun ok t => if presented = t then true else ok) false

def nonEmpty (tokens : List GoString) : List GoString := tokens.filter (trimSpace · ≠ [])

/-! ## The chain -/

def isInfraPath (p : GoString) : Bool :=
  p = "/healthz" || p = "/readyz" || (str "/metrics").isPrefixOf p

def serviceAuth (tokens : List GoString) (creds : List ServiceCredential) (next : Handler α) :
    Handler α := fun caller r =>
  let tokens := nonEmpty tokens
  if (tokens = [] ∧ creds = []) ∨ isInfraPath r.path ∨ r.method = "OPTIONS" then next caller r
  else
    let presented := bearerToken (r.header "Authorization")
    match matchCredential presented creds with
    | some c => next c r
    | none =>
      if tokenMatches presented tokens then next {} r
      else { outcome := .text 401 "invalid service credentials" }

def cors (allowedOrigins : List GoString) (next : Handler α) : Handler α := fun caller r =>
  let allowAll := allowedOrigins.any (· = "*")
  let origin := r.header "Origin"
  let headers : List (GoString × GoString) :=
    if origin ≠ [] ∧ (allowAll ∨ origin ∈ allowedOrigins) then
      (if allowAll then [(str "Access-Control-Allow-Origin", str "*")]
        else [(str "Access-Control-Allow-Origin", origin), (str "Vary", str "Origin")]) ++
      [(str "Access-Control-Allow-Methods", str "POST, GET, OPTIONS"),
        (str "Access-Control-Allow-Headers",
          str "Content-Type, Connect-Protocol-Version, Authorization"),
        (str "Access-Control-Max-Age", str "86400")]
    else []
  if r.method = "OPTIONS" then ⟨headers, .noContent⟩
  else
    let answer := next caller r
    { answer with headers := headers ++ answer.headers }

/-- The first of the list runs outermost. -/
def chain (h : Handler α) (mws : List (Handler α → Handler α)) : Handler α :=
  mws.foldr (fun mw h => mw h) h

/-- Probes are answered outside of the services. -/
def health : Handler α := fun _ _ => ⟨[(str "Content-Type", str "text/plain")], .text 200 "ok"⟩

/-! ## Routes -/

/-- A pattern that ends in a slash stands for all that is below it. -/
def matchesPattern (pattern path : GoString) : Bool :=
  if pattern.getLast? = some (ascii '/') then pattern.isPrefixOf path else pattern = path

/-- `http.ServeMux`, for patterns of which no path matches two; paths that are not in their
canonical form are redirected to it. -/
def serveMux (clean : GoString → GoString) (handlers : List (GoString × Handler α)) : Handler α :=
  fun caller r =>
    if r.method ≠ "CONNECT" ∧ clean r.path ≠ r.path then { outcome := .redirect (clean r.path) }
    else match handlers.find? fun h => matchesPattern h.1 r.path with
      | some (_, h) => h caller r
      | none => { outcome := .text 404 "404 page not found" }

/-! ## Who is let in -/

/-- The identity under which a request is let in: none is asked for, or the token is the one of a
credential, the last of those with this token, or it is on the list of tokens and no credential
has it. -/
inductive Admitted (tokens : List GoString) (creds : List ServiceCredential) (r : Request) :
    CallerIdentity → Prop
  | unguarded (htokens : ∀ t ∈ tokens, trimSpace t = []) (hcreds : creds = []) :
      Admitted tokens creds r {}
  | credential {before after : List ServiceCredential} {c : ServiceCredential}
      (hcreds : creds = before ++ c :: after) (htoken : c.token ≠ [])
      (hpresented : bearerToken (r.header "Authorization") = c.token)
      (hlast : ∀ c' ∈ after, c'.token ≠ c.token) : Admitted tokens creds r ⟨c.name, c.projectID⟩
  | token {t : GoString} (ht : t ∈ tokens) (htoken : trimSpace t ≠ [])
      (hpresented : bearerToken (r.header "Authorization") = t)
      (hcreds : ∀ c ∈ creds, c.token ≠ t) : Admitted tokens creds r {}

theorem foldl_last_eq_find {β : Type} (p : α → Bool) (f : α → β) (l : List α) :
    l.foldl (fun found a => if p a then some (f a) else found) none =
      (l.reverse.find? p).map f := by
  induction l using List.reverseRecOn with
  | nil => rfl
  | append_singleton l a ih =>
    rw [List.foldl_append, ih]
    by_cases h : p a <;> simp [h]

theorem matchCredential_eq {presented : GoString} (creds : List ServiceCredential)
    (hpresented : presented ≠ []) : matchCredential presented creds =
      (creds.reverse.find? fun c => c.token = presented).map fun c => ⟨c.name, c.projectID⟩ := by
  rw [← foldl_last_eq_find, matchCredential, if_neg hpresented]
  simp only [decide_eq_true_eq, eq_comm (a := presented)]

theorem matchCredential_eq_none {presented : GoString} {creds : List ServiceCredential}
    (hpresented : presented ≠ []) :
    matchCredential presented creds = none ↔ ∀ c ∈ creds, c.token ≠ presented := by
  simp [matchCredential_eq creds hpresented]

theorem matchCredential_eq_some {presented : GoString} {creds : List ServiceCredential}
    {id : CallerIdentity} (hpresented : presented ≠ []) :
    matchCredential presented creds = some id ↔ ∃ before c after, creds = before ++ c :: after ∧
      c.token = presented ∧ (∀ c' ∈ after, c'.token ≠ presented) ∧ ⟨c.name, c.projectID⟩ = id := by
  rw [matchCredential_eq creds hpresented, Option.map_eq_some_iff]
  constructor
  · rintro ⟨c, hc, hid⟩
    obtain ⟨htoken, after, before, heq, hlast⟩ := List.find?_eq_some_iff_append.mp hc
    refine ⟨before.reverse, c, after.reverse, ?_, by simpa using htoken, ?_, hid⟩
    · simpa using congrArg List.reverse heq
    · intro c' hc'
      simpa using hlast c' (List.mem_reverse.mp hc')
  · rintro ⟨before, c, after, rfl, htoken, hlast, hid⟩
    refine ⟨c, List.find?_eq_some_iff_append.mpr ⟨by simp [htoken], after.reverse, before.reverse,
      by simp, fun c' hc' => ?_⟩, hid⟩
    simpa using hlast c' (List.mem_reverse.mp hc')

theorem tokenMatches_iff {presented : GoString} {tokens : List GoString} :
    tokenMatches presented tokens = true ↔ presented ≠ [] ∧ presented ∈ tokens := by
  unfold tokenMatches
  by_cases h : presented = []
  · simp [h]
  · rw [if_neg h]
    induction tokens using List.reverseRecOn with
    | nil => simp
    | append_singleton tokens t ih =>
      rw [List.foldl_append]
      by_cases ht : presented = t <;> simp_all

section Admission

variable {tokens : List GoString} {creds : List ServiceCredential} {r : Request}

/-- Whom the check takes the caller for. -/
def identity (tokens : List GoString) (creds : List ServiceCredential) (r : Request) :
    Option CallerIdentity :=
  if nonEmpty tokens = [] ∧ creds = [] then some {}
  else
    let presented := bearerToken (r.header "Authorization")
    (matchCredential presented creds).or
      (if tokenMatches presented (nonEmpty tokens) then some {} else none)

theorem serviceAuth_eq (next : Handler α) (hpath : isInfraPath r.path = false)
    (hmethod : r.method ≠ "OPTIONS") : serviceAuth tokens creds next {} r =
      match identity tokens creds r with
      | some id => next id r
      | none => { outcome := .text 401 "invalid service credentials" } := by
  unfold serviceAuth identity
  by_cases hopen : nonEmpty tokens = [] ∧ creds = []
  · simp [hopen]
  · simp only [hopen, hpath, hmethod, Bool.false_eq_true, or_self, if_false]
    cases matchCredential (bearerToken (r.header "Authorization")) creds with
    | some c => rfl
    | none => by_cases h : tokenMatches (bearerToken (r.header "Authorization")) (nonEmpty tokens)
        <;> simp [h]

theorem nonEmpty_eq_nil : nonEmpty tokens = [] ↔ ∀ t ∈ tokens, trimSpace t = [] := by
  simp [nonEmpty]

theorem mem_nonEmpty {t : GoString} : t ∈ nonEmpty tokens ↔ t ∈ tokens ∧ trimSpace t ≠ [] := by
  simp [nonEmpty]

theorem identity_of_guarded (h : ¬ (nonEmpty tokens = [] ∧ creds = [])) {id : CallerIdentity} :
    identity tokens creds r = some id ↔
      let presented := bearerToken (r.header "Authorization")
      matchCredential presented creds = some id ∨ matchCredential presented creds = none ∧
        tokenMatches presented (nonEmpty tokens) = true ∧ {} = id := by
  simp only [identity, if_neg h]
  cases matchCredential (bearerToken (r.header "Authorization")) creds with
  | some c => simp
  | none => simp

theorem identity_eq_some_iff {id : CallerIdentity} :
    identity tokens creds r = some id ↔ Admitted tokens creds r id := by
  have hnil : trimSpace [] = [] := by decide
  have hnone : matchCredential [] creds = none := if_pos rfl
  by_cases hopen : nonEmpty tokens = [] ∧ creds = []
  · have hid : identity tokens creds r = some {} := if_pos hopen
    rw [hid]
    constructor
    · rintro ⟨⟩
      exact .unguarded (nonEmpty_eq_nil.mp hopen.1) hopen.2
    · intro h
      cases h with
      | unguarded => rfl
      | credential hcreds => simp [hcreds] at hopen
      | token => rfl
  · rw [identity_of_guarded hopen]
    constructor
    · rintro (hmatch | ⟨hmatch, htoken, rfl⟩)
      · have hpresented : bearerToken (r.header "Authorization") ≠ [] := by
          intro h
          rw [h, hnone] at hmatch
          cases hmatch
        obtain ⟨before, c, after, hcreds, htoken, hlast, rfl⟩ :=
          (matchCredential_eq_some hpresented).mp hmatch
        rw [← htoken] at hpresented hlast
        exact .credential hcreds hpresented htoken.symm hlast
      · obtain ⟨hpresented, hmem⟩ := tokenMatches_iff.mp htoken
        obtain ⟨hmem, htrim⟩ := mem_nonEmpty.mp hmem
        exact .token hmem htrim rfl ((matchCredential_eq_none hpresented).mp hmatch)
    · intro h
      cases h with
      | unguarded htokens hcreds => exact absurd ⟨nonEmpty_eq_nil.mpr htokens, hcreds⟩ hopen
      | @credential before after c hcreds htoken hpresented hlast =>
        rw [hpresented]
        exact .inl ((matchCredential_eq_some htoken).mpr
          ⟨before, c, after, hcreds, rfl, hlast, rfl⟩)
      | @token t ht htoken hpresented hcreds =>
        have hne : t ≠ [] := by
          rintro rfl
          exact htoken hnil
        rw [hpresented]
        exact .inr ⟨(matchCredential_eq_none hne).mpr hcreds,
          tokenMatches_iff.mpr ⟨hne, mem_nonEmpty.mpr ⟨ht, htoken⟩⟩, rfl⟩

end Admission

end WorkspaceAuthz.Middleware
