import WorkspaceAuthz.Authz.Model
import WorkspaceAuthz.Go.MapLoops

/-! # Model documents

The form in which a project's model is configured. A rewrite in memory stands for
direct tuples if no field is set and otherwise for the first operator that is; in a
document exactly one field is set, a list of children that is empty included. The
two conversions undo each other on what the grammar admits, and to read a document
succeeds on nothing else.
-/
namespace WorkspaceAuthz.Authz
open Go

structure TupleToUsersetDoc where
  tupleset : GoString
  computed : GoString
deriving DecidableEq, Repr

/-- One rewrite of a document; a slice is absent if it is nil, not if it is empty, and
`exclusion` holds Include and Exclude. -/
structure RewriteDoc where
  this : Bool := false
  computed : GoString := []
  tupleToUserset : Option TupleToUsersetDoc := none
  union : Option (List RewriteDoc) := none
  intersection : Option (List RewriteDoc) := none
  exclusion : Option (RewriteDoc × RewriteDoc) := none

abbrev ModelDoc := GoMap (GoMap RewriteDoc)

/-- An error: the format of its text, and the arguments in their order. -/
structure DocError where
  format : GoString
  args : List GoString := []
deriving DecidableEq, Repr

/-- `fmt.Errorf` with `%w` at the end. -/
def DocError.wrap (e : DocError) (format : GoString) (args : List GoString) : DocError :=
  ⟨format ++ e.format, args ++ e.args⟩

namespace RewriteDoc

def operators (rd : RewriteDoc) : ℕ :=
  (if rd.this then 1 else 0) + (if rd.computed ≠ [] then 1 else 0) +
    (if rd.tupleToUserset.isSome then 1 else 0) + (if rd.union.isSome then 1 else 0) +
    (if rd.intersection.isSome then 1 else 0) + (if rd.exclusion.isSome then 1 else 0)

mutual

def toRewrite : RewriteDoc → Except DocError Rewrite
  | ⟨this, computed, tupleToUserset, union, intersection, exclusion⟩ =>
    let set := operators ⟨this, computed, tupleToUserset, union, intersection, exclusion⟩
    if set ≠ 1 then .error ⟨"rewrite must set exactly one operator, got %d", [itoa set]⟩
    else if this then .ok .this
    else if computed ≠ [] then .ok { computed := computed }
    else match tupleToUserset, union, intersection, exclusion with
      | some ttu, _, _, _ =>
        if ttu.tupleset = [] ∨ ttu.computed = [] then
          .error ⟨"tupleToUserset requires tupleset and computed", []⟩
        else .ok { tuplesetRelation := ttu.tupleset, computedRelation := ttu.computed }
      | none, some docs, _, _ => match toRewrites 0 docs with
        | .error e => .error e
        | .ok [] => .error ⟨"union requires at least one child", []⟩
        | .ok children => .ok { union := children }
      | none, none, some docs, _ => match toRewrites 0 docs with
        | .error e => .error e
        | .ok [] => .error ⟨"intersection requires at least one child", []⟩
        | .ok children => .ok { intersection := children }
      | none, none, none, some (inc, exc) => match toRewrite inc with
        | .error e => .error (e.wrap "exclusion.include: " [])
        | .ok inc => match toRewrite exc with
          | .error e => .error (e.wrap "exclusion.exclude: " [])
          | .ok exc => .ok { exclusion := some (inc, exc) }
      | none, none, none, none => .ok .this

def toRewrites (i : ℕ) : List RewriteDoc → Except DocError (List Rewrite)
  | [] => .ok []
  | d :: docs => match toRewrite d with
    | .error e => .error (e.wrap "child %d: " [itoa i])
    | .ok rw => match toRewrites (i + 1) docs with
      | .error e => .error e
      | .ok rws => .ok (rw :: rws)

end

end RewriteDoc

namespace Rewrite

mutual

def fromRewrite : Rewrite → RewriteDoc
  | ⟨c :: cs, _, _, _, _, _⟩ => { union := some (fromRewrites (c :: cs)) }
  | ⟨[], c :: cs, _, _, _, _⟩ => { intersection := some (fromRewrites (c :: cs)) }
  | ⟨[], [], some (inc, exc), _, _, _⟩ =>
    { exclusion := some (fromRewrite inc, fromRewrite exc) }
  | ⟨[], [], none, computed, tuplesetRelation, computedRelation⟩ =>
    if computed ≠ [] then { computed := computed }
    else if tuplesetRelation ≠ [] then
      { tupleToUserset := some ⟨tuplesetRelation, computedRelation⟩ }
    else { this := true }

def fromRewrites : List Rewrite → List RewriteDoc
  | [] => []
  | rw :: rws => fromRewrite rw :: fromRewrites rws

end

end Rewrite

def relationModel (ns rel : GoString) (rd : RewriteDoc) : Except DocError Rewrite :=
  if rel = [] then .error ⟨"authz: namespace %q has an empty relation name", [ns]⟩
  else match rd.toRewrite with
    | .error e => .error (e.wrap "authz: %s#%s: " [ns, rel])
    | .ok rw => .ok rw

def namespaceModel (order : MapOrder) (ns : GoString) (rels : GoMap RewriteDoc) :
    Except DocError Namespace :=
  if ns = [] then .error ⟨"authz: model has an empty namespace name", []⟩
  else GoMap.convert order (relationModel ns) rels

/-- `ToModel`; the loops go through the maps in some order. -/
def ModelDoc.toModel (order : MapOrder) (d : ModelDoc) : Except DocError Model :=
  GoMap.convert order (namespaceModel order) d

def fromModel (m : Model) : ModelDoc :=
  m.mapValues fun _ rels => rels.mapValues fun _ rw => rw.fromRewrite

/-! ## The grammar -/

/-- Exactly one operator is set, with what it requires, at every level. -/
inductive RewriteDoc.WellFormed : RewriteDoc → Prop
  | this : WellFormed { this := true }
  | computed {relation : GoString} (h : relation ≠ []) : WellFormed { computed := relation }
  | tupleToUserset {tupleset computed : GoString} (htupleset : tupleset ≠ [])
      (hcomputed : computed ≠ []) : WellFormed { tupleToUserset := some ⟨tupleset, computed⟩ }
  | union {docs : List RewriteDoc} (hne : docs ≠ []) (h : ∀ d ∈ docs, WellFormed d) :
      WellFormed { union := some docs }
  | intersection {docs : List RewriteDoc} (hne : docs ≠ []) (h : ∀ d ∈ docs, WellFormed d) :
      WellFormed { intersection := some docs }
  | exclusion {inc exc : RewriteDoc} (hinc : WellFormed inc) (hexc : WellFormed exc) :
      WellFormed { exclusion := some (inc, exc) }

/-- The zero rewrite, or exactly one operator, at every level. -/
inductive Rewrite.WellFormed : Rewrite → Prop
  | this : WellFormed {}
  | computed {relation : GoString} (h : relation ≠ []) : WellFormed { computed := relation }
  | tupleToUserset {tupleset computed : GoString} (htupleset : tupleset ≠ [])
      (hcomputed : computed ≠ []) :
      WellFormed { tuplesetRelation := tupleset, computedRelation := computed }
  | union {children : List Rewrite} (hne : children ≠ []) (h : ∀ c ∈ children, WellFormed c) :
      WellFormed { union := children }
  | intersection {children : List Rewrite} (hne : children ≠ [])
      (h : ∀ c ∈ children, WellFormed c) : WellFormed { intersection := children }
  | exclusion {inc exc : Rewrite} (hinc : WellFormed inc) (hexc : WellFormed exc) :
      WellFormed { exclusion := some (inc, exc) }

namespace RewriteDoc

section Induction

variable {P : RewriteDoc → Prop}
  (parts : ∀ d : RewriteDoc, (∀ docs, d.union = some docs → ∀ c ∈ docs, P c) →
    (∀ docs, d.intersection = some docs → ∀ c ∈ docs, P c) →
    (∀ inc exc, d.exclusion = some (inc, exc) → P inc ∧ P exc) → P d)

include parts

/-- Induction along the children of all operators that are set. -/
theorem byParts (d : RewriteDoc) : P d := by
  refine parts d (fun docs h c hc => byParts c) (fun docs h c hc => byParts c)
    fun inc exc h => ⟨byParts inc, byParts exc⟩
termination_by sizeOf d
decreasing_by
  all_goals
    obtain ⟨_, _, _, union, intersection, exclusion⟩ := d
    simp only at h
    subst h
    simp only [mk.sizeOf_spec, Option.some.sizeOf_spec, Prod.mk.sizeOf_spec]
  · have := List.sizeOf_lt_of_mem hc
    omega
  · have := List.sizeOf_lt_of_mem hc
    omega
  · omega
  · omega

end Induction

theorem eq_one_of_ite_add {p : Prop} [Decidable p] {k : ℕ} (h : (if p then 1 else 0) + k = 1) :
    (p ∧ k = 0) ∨ (¬ p ∧ k = 1) := by
  split_ifs at h with hp
  · exact .inl ⟨hp, by omega⟩
  · exact .inr ⟨hp, by omega⟩

theorem operators_eq_one {d : RewriteDoc} (h : d.operators = 1) :
    d = { this := true } ∨ (∃ r ≠ [], d = { computed := r }) ∨
    (∃ ttu, d = { tupleToUserset := some ttu }) ∨ (∃ docs, d = { union := some docs }) ∨
    (∃ docs, d = { intersection := some docs }) ∨
    (∃ inc exc, d = { exclusion := some (inc, exc) }) := by
  obtain ⟨this, computed, ttu, union, intersection, exclusion⟩ := d
  simp only [operators, Nat.add_assoc] at h
  -- The first operator that is set leaves nothing to those after it.
  rcases eq_one_of_ite_add h with ⟨hset, h⟩ | ⟨hthis, h⟩
  · simp_all
  rcases eq_one_of_ite_add h with ⟨hset, h⟩ | ⟨hcomputed, h⟩
  · simp_all
  rcases eq_one_of_ite_add h with ⟨hset, h⟩ | ⟨httu, h⟩
  · obtain ⟨ttu, rfl⟩ := Option.isSome_iff_exists.mp hset
    simp_all
  rcases eq_one_of_ite_add h with ⟨hset, h⟩ | ⟨hunion, h⟩
  · obtain ⟨docs, rfl⟩ := Option.isSome_iff_exists.mp hset
    simp_all
  rcases eq_one_of_ite_add h with ⟨hset, h⟩ | ⟨hintersection, h⟩
  · obtain ⟨docs, rfl⟩ := Option.isSome_iff_exists.mp hset
    simp_all
  · have hset : exclusion.isSome := by
      by_contra hset
      rw [if_neg hset] at h
      cases h
    obtain ⟨⟨inc, exc⟩, rfl⟩ := Option.isSome_iff_exists.mp hset
    simp_all

theorem toRewrite_eq (d : RewriteDoc) : d.toRewrite =
    if d.operators ≠ 1 then
      .error ⟨"rewrite must set exactly one operator, got %d", [itoa d.operators]⟩
    else if d.this then .ok .this
    else if d.computed ≠ [] then .ok { computed := d.computed }
    else match d.tupleToUserset, d.union, d.intersection, d.exclusion with
      | some ttu, _, _, _ =>
        if ttu.tupleset = [] ∨ ttu.computed = [] then
          .error ⟨"tupleToUserset requires tupleset and computed", []⟩
        else .ok { tuplesetRelation := ttu.tupleset, computedRelation := ttu.computed }
      | none, some docs, _, _ => match toRewrites 0 docs with
        | .error e => .error e
        | .ok [] => .error ⟨"union requires at least one child", []⟩
        | .ok children => .ok { union := children }
      | none, none, some docs, _ => match toRewrites 0 docs with
        | .error e => .error e
        | .ok [] => .error ⟨"intersection requires at least one child", []⟩
        | .ok children => .ok { intersection := children }
      | none, none, none, some (inc, exc) => match toRewrite inc with
        | .error e => .error (e.wrap "exclusion.include: " [])
        | .ok inc => match toRewrite exc with
          | .error e => .error (e.wrap "exclusion.exclude: " [])
          | .ok exc => .ok { exclusion := some (inc, exc) }
      | none, none, none, none => .ok .this := by
  cases d
  rw [toRewrite.eq_def]

theorem operators_of_toRewrite {d : RewriteDoc} {rw : Rewrite} (h : d.toRewrite = .ok rw) :
    d.operators = 1 := by
  by_contra hset
  rw [toRewrite_eq, if_pos hset] at h
  cases h

/-! When `toRewrite` succeeds, operator by operator. -/

section Operators

variable {docs : List RewriteDoc} {inc exc : RewriteDoc} {rw : Rewrite}

theorem toRewrite_this : toRewrite { this := true } = .ok .this := by
  rw [toRewrite_eq]
  rfl

theorem toRewrite_computed {r : GoString} (h : r ≠ []) :
    toRewrite { computed := r } = .ok { computed := r } := by
  rw [toRewrite_eq]
  simp [operators, h]

theorem toRewrite_tupleToUserset_ok_iff {tupleset computed : GoString} :
    toRewrite { tupleToUserset := some ⟨tupleset, computed⟩ } = .ok rw ↔
      (tupleset ≠ [] ∧ computed ≠ []) ∧
        rw = { tuplesetRelation := tupleset, computedRelation := computed } := by
  have heq : toRewrite { tupleToUserset := some ⟨tupleset, computed⟩ } =
      if tupleset = [] ∨ computed = [] then
        .error ⟨"tupleToUserset requires tupleset and computed", []⟩
      else .ok { tuplesetRelation := tupleset, computedRelation := computed } := toRewrite_eq _
  rw [heq, ← not_or]
  split_ifs with h
  · simp [h]
  · simp [h, eq_comm]

theorem children_ok_iff {x : Except DocError (List Rewrite)} {e : DocError}
    {f : List Rewrite → Rewrite} :
    (match x with
      | .error e => .error e
      | .ok [] => .error e
      | .ok children => .ok (f children) : Except DocError Rewrite) = .ok rw ↔
    ∃ children ≠ [], x = .ok children ∧ rw = f children := by
  cases x with
  | error e => simp
  | ok children => cases children <;> simp [eq_comm]

theorem toRewrite_union_ok_iff : toRewrite { union := some docs } = .ok rw ↔
    ∃ children ≠ [], toRewrites 0 docs = .ok children ∧ rw = { union := children } := by
  rw [toRewrite_eq]
  exact children_ok_iff

theorem toRewrite_intersection_ok_iff : toRewrite { intersection := some docs } = .ok rw ↔
    ∃ children ≠ [], toRewrites 0 docs = .ok children ∧ rw = { intersection := children } := by
  rw [toRewrite_eq]
  exact children_ok_iff

theorem toRewrite_exclusion_ok_iff : toRewrite { exclusion := some (inc, exc) } = .ok rw ↔
    ∃ i e, toRewrite inc = .ok i ∧ toRewrite exc = .ok e ∧ rw = { exclusion := some (i, e) } := by
  have heq : toRewrite { exclusion := some (inc, exc) } = match toRewrite inc with
      | .error e => .error (e.wrap "exclusion.include: " [])
      | .ok inc => match toRewrite exc with
        | .error e => .error (e.wrap "exclusion.exclude: " [])
        | .ok exc => .ok { exclusion := some (inc, exc) } := toRewrite_eq _
  rw [heq]
  cases toRewrite inc with
  | error e => simp
  | ok i => cases toRewrite exc <;> simp [eq_comm]

theorem toRewrites_ok_iff {i : ℕ} {rws : List Rewrite} :
    toRewrites i docs = .ok rws ↔ List.Forall₂ (fun d rw => toRewrite d = .ok rw) docs rws := by
  induction docs generalizing i rws with
  | nil => simp [toRewrites, eq_comm]
  | cons d docs ih =>
    rw [toRewrites, List.forall₂_cons_left_iff]
    simp only [← ih (i := i + 1)]
    cases toRewrite d with
    | error e => simp
    | ok rw =>
      cases toRewrites (i + 1) docs with
      | error e => simp
      | ok rws' => simp [eq_comm]

theorem forall_of_toRewrites {i : ℕ} {rws : List Rewrite} {P : RewriteDoc → Prop}
    (h : toRewrites i docs = .ok rws) (hP : ∀ d ∈ docs, ∀ rw, toRewrite d = .ok rw → P d) :
    ∀ d ∈ docs, P d := by
  intro d hd
  obtain ⟨n, hn, rfl⟩ := List.getElem_of_mem hd
  have hrws := toRewrites_ok_iff.mp h
  exact hP _ hd _ (hrws.get hn (hrws.length_eq ▸ hn))

theorem ne_nil_of_toRewrites {i : ℕ} {rws : List Rewrite} (h : toRewrites i docs = .ok rws) :
    docs = [] ↔ rws = [] := by
  rw [← List.length_eq_zero_iff, ← List.length_eq_zero_iff, (toRewrites_ok_iff.mp h).length_eq]

end Operators

theorem wellFormed_of_toRewrite (d : RewriteDoc) :
    ∀ rw, d.toRewrite = .ok rw → d.WellFormed := by
  induction d using byParts with
  | parts d hunion hintersection hexclusion =>
    intro rw h
    obtain rfl | ⟨r, hr, rfl⟩ | ⟨ttu, rfl⟩ | ⟨docs, rfl⟩ | ⟨docs, rfl⟩ | ⟨inc, exc, rfl⟩ :=
      operators_eq_one (operators_of_toRewrite h)
    · exact .this
    · exact .computed hr
    · obtain ⟨⟨htupleset, hcomputed⟩, -⟩ := toRewrite_tupleToUserset_ok_iff.mp h
      exact .tupleToUserset htupleset hcomputed
    · obtain ⟨children, hne, hdocs, -⟩ := toRewrite_union_ok_iff.mp h
      exact .union (mt (ne_nil_of_toRewrites hdocs).mp hne)
        (forall_of_toRewrites hdocs (hunion docs rfl))
    · obtain ⟨children, hne, hdocs, -⟩ := toRewrite_intersection_ok_iff.mp h
      exact .intersection (mt (ne_nil_of_toRewrites hdocs).mp hne)
        (forall_of_toRewrites hdocs (hintersection docs rfl))
    · obtain ⟨i, e, hi, he, -⟩ := toRewrite_exclusion_ok_iff.mp h
      obtain ⟨hinc, hexc⟩ := hexclusion inc exc rfl
      exact .exclusion (hinc i hi) (hexc e he)

end RewriteDoc

theorem Rewrite.fromRewrites_eq_map (rws : List Rewrite) :
    fromRewrites rws = rws.map fromRewrite := by
  induction rws with
  | nil => rfl
  | cons rw rws ih => rw [fromRewrites, ih, List.map_cons]

/-- What a rewrite with one operator is written as. -/
theorem Rewrite.fromRewrite_eq (rw : Rewrite) : rw.fromRewrite =
    match rw.union, rw.intersection, rw.exclusion with
    | c :: cs, _, _ => { union := some ((c :: cs).map fromRewrite) }
    | [], c :: cs, _ => { intersection := some ((c :: cs).map fromRewrite) }
    | [], [], some (inc, exc) => { exclusion := some (fromRewrite inc, fromRewrite exc) }
    | [], [], none =>
      if rw.computed ≠ [] then { computed := rw.computed }
      else if rw.tuplesetRelation ≠ [] then
        { tupleToUserset := some ⟨rw.tuplesetRelation, rw.computedRelation⟩ }
      else { this := true } := by
  obtain ⟨_ | ⟨c, cs⟩, _ | ⟨c', cs'⟩, _ | ⟨inc, exc⟩, _, _, _⟩ := rw <;>
    simp only [fromRewrite, fromRewrites_eq_map]

theorem Rewrite.fromRewrite_computed {r : GoString} (h : r ≠ []) :
    fromRewrite { computed := r } = { computed := r } := by
  rw [fromRewrite_eq]
  exact if_pos h

theorem Rewrite.fromRewrite_tupleToUserset {t c : GoString} (h : t ≠ []) :
    fromRewrite { tuplesetRelation := t, computedRelation := c } =
      { tupleToUserset := some ⟨t, c⟩ } := by
  rw [fromRewrite_eq]
  exact if_pos h

theorem Rewrite.fromRewrite_union {rws : List Rewrite} (h : rws ≠ []) :
    fromRewrite { union := rws } = { union := some (rws.map fromRewrite) } := by
  cases rws with
  | nil => exact absurd rfl h
  | cons rw rws => exact fromRewrite_eq _

theorem Rewrite.fromRewrite_intersection {rws : List Rewrite} (h : rws ≠ []) :
    fromRewrite { intersection := rws } = { intersection := some (rws.map fromRewrite) } := by
  cases rws with
  | nil => exact absurd rfl h
  | cons rw rws => exact fromRewrite_eq _

theorem Rewrite.fromRewrite_exclusion {inc exc : Rewrite} :
    fromRewrite { exclusion := some (inc, exc) } =
      { exclusion := some (inc.fromRewrite, exc.fromRewrite) } :=
  fromRewrite_eq _

theorem RewriteDoc.exists_toRewrites {docs : List RewriteDoc}
    (h : ∀ d ∈ docs, ∃ rw, d.toRewrite = .ok rw ∧ rw.fromRewrite = d) :
    ∃ rws, toRewrites 0 docs = .ok rws ∧ rws.map Rewrite.fromRewrite = docs := by
  simp only [toRewrites_ok_iff]
  induction docs with
  | nil => exact ⟨[], .nil, rfl⟩
  | cons d docs ih =>
    obtain ⟨rw, hrw, hback⟩ := h d List.mem_cons_self
    obtain ⟨rws, hrws, hbacks⟩ := ih fun d' hd' => h d' (List.mem_cons_of_mem d hd')
    exact ⟨rw :: rws, .cons hrw hrws, by rw [List.map_cons, hback, hbacks]⟩

/-- What is well formed is accepted, and comes back. -/
theorem RewriteDoc.WellFormed.exists_toRewrite {d : RewriteDoc} (h : d.WellFormed) :
    ∃ rw, d.toRewrite = .ok rw ∧ rw.fromRewrite = d := by
  induction h with
  | this => exact ⟨.this, toRewrite_this, Rewrite.fromRewrite_eq _⟩
  | computed h => exact ⟨_, toRewrite_computed h, Rewrite.fromRewrite_computed h⟩
  | tupleToUserset htupleset hcomputed =>
    exact ⟨_, toRewrite_tupleToUserset_ok_iff.mpr ⟨⟨htupleset, hcomputed⟩, rfl⟩,
      Rewrite.fromRewrite_tupleToUserset htupleset⟩
  | @union docs hne _ ih =>
    obtain ⟨rws, hrws, hback⟩ := exists_toRewrites ih
    have hne' : rws ≠ [] := mt (ne_nil_of_toRewrites hrws).mpr hne
    exact ⟨_, toRewrite_union_ok_iff.mpr ⟨rws, hne', hrws, rfl⟩,
      by rw [Rewrite.fromRewrite_union hne', hback]⟩
  | @intersection docs hne _ ih =>
    obtain ⟨rws, hrws, hback⟩ := exists_toRewrites ih
    have hne' : rws ≠ [] := mt (ne_nil_of_toRewrites hrws).mpr hne
    exact ⟨_, toRewrite_intersection_ok_iff.mpr ⟨rws, hne', hrws, rfl⟩,
      by rw [Rewrite.fromRewrite_intersection hne', hback]⟩
  | exclusion _ _ ihinc ihexc =>
    obtain ⟨i, hi, hinc⟩ := ihinc
    obtain ⟨e, he, hexc⟩ := ihexc
    exact ⟨_, toRewrite_exclusion_ok_iff.mpr ⟨i, e, hi, he, rfl⟩,
      by rw [Rewrite.fromRewrite_exclusion, hinc, hexc]⟩

theorem RewriteDoc.fromRewrite_of_toRewrite {d : RewriteDoc} {rw : Rewrite}
    (h : d.toRewrite = .ok rw) : rw.fromRewrite = d := by
  obtain ⟨rw', h', hback⟩ := (wellFormed_of_toRewrite d rw h).exists_toRewrite
  rw [h] at h'
  cases h'
  exact hback

theorem Rewrite.WellFormed.toRewrite_fromRewrite {rw : Rewrite} (h : rw.WellFormed) :
    rw.fromRewrite.toRewrite = .ok rw := by
  have hchildren {children : List Rewrite}
      (ih : ∀ c ∈ children, c.fromRewrite.toRewrite = .ok c) :
      RewriteDoc.toRewrites 0 (children.map fromRewrite) = .ok children := by
    rw [RewriteDoc.toRewrites_ok_iff, List.forall₂_map_left_iff, List.forall₂_same]
    exact ih
  induction h with
  | this =>
    rw [fromRewrite_eq]
    exact RewriteDoc.toRewrite_this
  | computed h =>
    rw [fromRewrite_computed h]
    exact RewriteDoc.toRewrite_computed h
  | tupleToUserset htupleset hcomputed =>
    rw [fromRewrite_tupleToUserset htupleset]
    exact RewriteDoc.toRewrite_tupleToUserset_ok_iff.mpr ⟨⟨htupleset, hcomputed⟩, rfl⟩
  | union hne _ ih =>
    rw [fromRewrite_union hne]
    exact RewriteDoc.toRewrite_union_ok_iff.mpr ⟨_, hne, hchildren ih, rfl⟩
  | intersection hne _ ih =>
    rw [fromRewrite_intersection hne]
    exact RewriteDoc.toRewrite_intersection_ok_iff.mpr ⟨_, hne, hchildren ih, rfl⟩
  | exclusion _ _ ihinc ihexc =>
    rw [fromRewrite_exclusion]
    exact RewriteDoc.toRewrite_exclusion_ok_iff.mpr ⟨_, _, ihinc, ihexc, rfl⟩

/-! ## Models -/

/-- All names are non-empty and all rewrites well formed. -/
def ModelDoc.WellFormed (d : ModelDoc) : Prop :=
  ∀ ns rels, d.get ns = some rels → ns ≠ [] ∧
    ∀ rel rd, rels.get rel = some rd → rel ≠ [] ∧ rd.WellFormed

def Model.WellFormed (m : Model) : Prop :=
  ∀ ns rels, m.get ns = some rels → ns ≠ [] ∧
    ∀ rel rw, rels.get rel = some rw → rel ≠ [] ∧ rw.WellFormed

section Models

variable {order : MapOrder}

theorem relationModel_ok_iff {ns rel : GoString} {rd : RewriteDoc} {rw : Rewrite} :
    relationModel ns rel rd = .ok rw ↔ rel ≠ [] ∧ rd.toRewrite = .ok rw := by
  unfold relationModel
  split_ifs with h
  · simp [h]
  · cases rd.toRewrite <;> simp [h]

theorem namespaceModel_ok_iff {ns : GoString} {rels : GoMap RewriteDoc} {nm : Namespace} :
    namespaceModel order ns rels = .ok nm ↔
      ns ≠ [] ∧ GoMap.convert order (relationModel ns) rels = .ok nm := by
  unfold namespaceModel
  split_ifs with h
  · simp [h]
  · simp [h]

/-- A document is accepted exactly if it is well formed. -/
theorem ModelDoc.exists_toModel_iff {d : ModelDoc} :
    (∃ m, d.toModel order = .ok m) ↔ d.WellFormed := by
  simp only [toModel, GoMap.exists_convert_iff, namespaceModel_ok_iff, exists_and_left,
    relationModel_ok_iff]
  refine forall₃_congr fun ns rels _ => and_congr_right fun _ => forall₃_congr fun rel rd _ =>
    and_congr_right fun _ => ⟨?_, ?_⟩
  · rintro ⟨rw, h⟩
    exact rd.wellFormed_of_toRewrite rw h
  · intro h
    obtain ⟨rw, hrw, -⟩ := h.exists_toRewrite
    exact ⟨rw, hrw⟩

theorem fromModel_of_toModel {d : ModelDoc} {m : Model} (h : d.toModel order = .ok m) :
    fromModel m = d := by
  apply GoMap.mapValues_of_convert h
  intro ns rels nm _ hnm
  apply GoMap.mapValues_of_convert (namespaceModel_ok_iff.mp hnm).2
  intro rel rd rw _ hrw
  exact RewriteDoc.fromRewrite_of_toRewrite (relationModel_ok_iff.mp hrw).2

theorem toModel_fromModel {m : Model} (h : m.WellFormed) :
    (fromModel m).toModel order = .ok m := by
  apply GoMap.convert_mapValues
  intro ns nm hnm
  obtain ⟨hns, hnm⟩ := h ns nm hnm
  refine namespaceModel_ok_iff.mpr ⟨hns, GoMap.convert_mapValues fun rel rw hrw => ?_⟩
  obtain ⟨hrel, hrw⟩ := hnm rel rw hrw
  exact relationModel_ok_iff.mpr ⟨hrel, hrw.toRewrite_fromRewrite⟩

/-- Documents and models are converted into each other without loss, and exactly the
documents of the grammar are accepted. -/
theorem model_documents_round_trip (order : MapOrder) :
    (∀ d : ModelDoc, (∃ m, d.toModel order = .ok m) ↔ d.WellFormed) ∧
    (∀ (d : ModelDoc) (m : Model), d.toModel order = .ok m → fromModel m = d) ∧
    (∀ m : Model, m.WellFormed → (fromModel m).toModel order = .ok m) :=
  ⟨fun _ => ModelDoc.exists_toModel_iff, fun _ _ => fromModel_of_toModel,
    fun _ => toModel_fromModel⟩

end Models

namespace DefaultModel

theorem union_this_computed {r : GoString} (h : r ≠ []) :
    Rewrite.WellFormed { union := [.this, { computed := r }] } := by
  refine .union (by simp) ?_
  simp only [List.forall_mem_cons, List.not_mem_nil, false_imp_iff, implies_true, and_true]
  exact ⟨.this, .computed h⟩

theorem union_inherited {r t c : GoString} (hr : r ≠ []) (ht : t ≠ []) (hc : c ≠ []) :
    Rewrite.WellFormed { union := [.this, { computed := r },
      { tuplesetRelation := t, computedRelation := c }] } := by
  refine .union (by simp) ?_
  simp only [List.forall_mem_cons, List.not_mem_nil, false_imp_iff, implies_true, and_true]
  exact ⟨.this, .computed hr, .tupleToUserset ht hc⟩

theorem wellFormed : defaultModel.WellFormed := by
  intro ns rels h
  simp only [defaultModel, GoMap.get_ofList_cons, GoMap.get_ofList_nil] at h
  split_ifs at h with hworkspace hgroup hresource
  · cases h
    refine ⟨by rw [hworkspace]; decide, fun rel rw hrw => ?_⟩
    simp only [GoMap.get_ofList_cons, GoMap.get_ofList_nil] at hrw
    split_ifs at hrw with h₁ h₂ h₃ h₄ h₅ h₆
    · cases hrw
      exact ⟨by rw [h₁]; decide, .this⟩
    · cases hrw
      exact ⟨by rw [h₂]; decide, union_this_computed (by decide)⟩
    · cases hrw
      exact ⟨by rw [h₃]; decide, union_this_computed (by decide)⟩
    · cases hrw
      exact ⟨by rw [h₄]; decide, union_this_computed (by decide)⟩
    · cases hrw
      exact ⟨by rw [h₅]; decide, .computed (by decide)⟩
    · cases hrw
      exact ⟨by rw [h₆]; decide, .computed (by decide)⟩
  · cases h
    refine ⟨by rw [hgroup]; decide, fun rel rw hrw => ?_⟩
    simp only [GoMap.get_ofList_cons, GoMap.get_ofList_nil] at hrw
    split_ifs at hrw with h₁
    cases hrw
    exact ⟨by rw [h₁]; decide, .this⟩
  · cases h
    refine ⟨by rw [hresource]; decide, fun rel rw hrw => ?_⟩
    simp only [GoMap.get_ofList_cons, GoMap.get_ofList_nil] at hrw
    split_ifs at hrw with h₁ h₂ h₃ h₄
    · cases hrw
      exact ⟨by rw [h₁]; decide, .this⟩
    · cases hrw
      exact ⟨by rw [h₂]; decide, .this⟩
    · cases hrw
      exact ⟨by rw [h₃]; decide, union_inherited (by decide) (by decide) (by decide)⟩
    · cases hrw
      exact ⟨by rw [h₄]; decide, union_inherited (by decide) (by decide) (by decide)⟩

end DefaultModel

theorem default_model_round_trip :
    (fromModel defaultModel).toModel .ascending = .ok defaultModel :=
  (model_documents_round_trip .ascending).2.2 defaultModel DefaultModel.wellFormed

end WorkspaceAuthz.Authz
