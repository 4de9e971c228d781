import WorkspaceAuthz.Authz.Model

/-! # Conditions on grants

The pinned conditions and their evaluation. An unknown condition, and one whose
input is missing or of the wrong type, does not hold. Every condition needs its
key of the request context, so removing keys never makes one hold.
-/
namespace WorkspaceAuthz.Authz
open Go

inductive ConditionError where
  | missing (key : GoString)
  | notBool (key : GoString)
  | notNumber (key : GoString)
  | notString (key : GoString)
  | notStrings (key : GoString)
  | notAnIP
  | invalidCIDR (cidr : GoString)
  | invalidUntil (until_ : GoString)
  | invalidNow (now : GoString)

abbrev ConditionFunc := Context → Context → Except ConditionError Bool

def boolField (m : Context) (k : GoString) : Except ConditionError Bool :=
  match m.get k with
  | none => .error (.missing k)
  | some (.bool b) => .ok b
  | some _ => .error (.notBool k)

def numField (m : Context) (k : GoString) : Except ConditionError Float :=
  match m.get k with
  | none => .error (.missing k)
  | some (.float64 x) => .ok x
  | some (.int n) => .ok n.toFloat
  | some (.int64 n) => .ok n.toFloat
  | some _ => .error (.notNumber k)

def strField (m : Context) (k : GoString) : Except ConditionError GoString :=
  match m.get k with
  | none => .error (.missing k)
  | some (.string s) => .ok s
  | some _ => .error (.notString k)

/-- The strings of a `[]any`, if it holds nothing else. -/
def allStrings (k : GoString) : List Value → Except ConditionError (List GoString)
  | [] => .ok []
  | .string s :: vs => (s :: ·) <$> allStrings k vs
  | _ :: _ => .error (.notStrings k)

def strSliceField (m : Context) (k : GoString) : Except ConditionError (List GoString) :=
  match m.get k with
  | none => .error (.missing k)
  | some (.strings ss) => .ok ss
  | some (.array vs) => allStrings k vs
  | some _ => .error (.notStrings k)

def condConsentGranted : ConditionFunc := fun _ ctx => boolField ctx "consent"

def condAgeAtLeast : ConditionFunc := fun params ctx => do
  let min ← numField params "min_age"
  let age ← numField ctx "age"
  return age ≥ min

/-- The loop over the networks stops at the first that contains the address. -/
def ipInCIDRs (ip : IP) : List GoString → Except ConditionError Bool
  | [] => .ok false
  | c :: cidrs =>
    match parseCIDR c with
    | none => .error (.invalidCIDR c)
    | some network => if network.contains ip then .ok true else ipInCIDRs ip cidrs

def condIPInCIDRs : ConditionFunc := fun params ctx => do
  let ipStr ← strField ctx "ip"
  match parseIP ipStr with
  | none => throw .notAnIP
  | some ip => ipInCIDRs ip (← strSliceField params "cidrs")

def condNotAfter : ConditionFunc := fun params ctx => do
  let untilStr ← strField params "until"
  match parseRFC3339 untilStr with
  | none => throw (.invalidUntil untilStr)
  | some until_ =>
    let nowStr ← strField ctx "now"
    match parseRFC3339 nowStr with
    | none => throw (.invalidNow nowStr)
    | some now => return !Time.after now until_

def condScopeIn : ConditionFunc := fun params ctx => do
  let scope ← strField ctx "scope"
  let allowed ← strSliceField params "allowed"
  return allowed.contains scope

def conditionRegistry : GoMap ConditionFunc := .ofList [
  ("consent_granted", condConsentGranted),
  ("age_at_least", condAgeAtLeast),
  ("ip_in_cidrs", condIPInCIDRs),
  ("not_after", condNotAfter),
  ("scope_in", condScopeIn)]

def knownCondition (name : GoString) : Bool := (conditionRegistry.get name).isSome

/-- Whether a grant with this condition applies. -/
def evalCondition (c : Option Condition) (ctx : Context) : Bool :=
  match c with
  | none => true
  | some c =>
    if c.name = [] then true
    else match conditionRegistry.get c.name with
      | none => false
      | some fn => match fn c.params ctx with
        | .ok ok => ok
        | .error _ => false

@[simp] theorem evalCondition_none (ctx : Context) : evalCondition none ctx = true := rfl

/-! ## Smaller contexts -/

/-- A condition that reports a value does so also with more keys present. -/
def ConditionFunc.Persists (fn : ConditionFunc) : Prop :=
  ∀ params {ctx' ctx : Context}, GoMap.Trims ctx' ctx → ∀ ok, fn params ctx' = .ok ok →
    fn params ctx = .ok ok

section Trims

variable {m' m : Context} {k : GoString}

theorem boolField_trims (h : GoMap.Trims m' m) {b : Bool} (hb : boolField m' k = .ok b) :
    boolField m k = .ok b := by
  rcases h k with hk | hk
  · simp [boolField, hk] at hb
  · simpa [boolField, hk] using hb

theorem numField_trims (h : GoMap.Trims m' m) {x : Float} (hx : numField m' k = .ok x) :
    numField m k = .ok x := by
  rcases h k with hk | hk
  · simp [numField, hk] at hx
  · simpa [numField, hk] using hx

theorem strField_trims (h : GoMap.Trims m' m) {s : GoString} (hs : strField m' k = .ok s) :
    strField m k = .ok s := by
  rcases h k with hk | hk
  · simp [strField, hk] at hs
  · simpa [strField, hk] using hs

end Trims

theorem bind_persists {α : Type} {x x' : Except ConditionError α}
    {f : α → Except ConditionError Bool} (hx : ∀ a, x' = .ok a → x = .ok a) {ok : Bool}
    (h : x' >>= f = .ok ok) : x >>= f = .ok ok := by
  cases hx' : x' with
  | error e =>
    rw [hx'] at h
    cases h
  | ok a =>
    rw [hx'] at h
    rw [hx a hx']
    exact h

theorem condConsentGranted_persists : ConditionFunc.Persists condConsentGranted :=
  fun _ _ _ h _ => boolField_trims h

theorem condAgeAtLeast_persists : ConditionFunc.Persists condAgeAtLeast := by
  intro params ctx' ctx h ok hok
  unfold condAgeAtLeast at hok ⊢
  cases hmin : numField params "min_age" with
  | error e => simp [hmin, bind, Except.bind] at hok
  | ok min =>
    rw [hmin] at hok
    exact bind_persists (fun _ => numField_trims h) hok

theorem condIPInCIDRs_persists : ConditionFunc.Persists condIPInCIDRs := by
  intro params ctx' ctx h ok hok
  exact bind_persists (fun _ => strField_trims h) hok

theorem condNotAfter_persists : ConditionFunc.Persists condNotAfter := by
  intro params ctx' ctx h ok hok
  unfold condNotAfter at hok ⊢
  cases hs : strField params "until" with
  | error e => simp [hs, bind, Except.bind] at hok
  | ok s =>
    cases hp : parseRFC3339 s with
    | none => simp [hs, hp, bind, Except.bind] at hok
    | some t =>
      simp only [hs, hp, bind, Except.bind] at hok ⊢
      exact bind_persists (fun _ => strField_trims h) hok

theorem condScopeIn_persists : ConditionFunc.Persists condScopeIn := by
  intro params ctx' ctx h ok hok
  exact bind_persists (fun _ => strField_trims h) hok

theorem conditionRegistry_persists {name : GoString} {fn : ConditionFunc}
    (h : conditionRegistry.get name = some fn) : fn.Persists := by
  simp only [conditionRegistry, GoMap.get_ofList_cons, GoMap.get_ofList_nil] at h
  split_ifs at h <;> cases h
  · exact condConsentGranted_persists
  · exact condAgeAtLeast_persists
  · exact condIPInCIDRs_persists
  · exact condNotAfter_persists
  · exact condScopeIn_persists

/-- Removing keys from the request context never makes a condition hold. -/
theorem evalCondition_trims {ctx' ctx : Context} (h : GoMap.Trims ctx' ctx) (c : Option Condition)
    (hc : evalCondition c ctx' = true) : evalCondition c ctx = true := by
  cases c with
  | none => rfl
  | some c =>
    unfold evalCondition at hc ⊢
    by_cases hname : c.name = []
    · simp [hname]
    · cases hfn : conditionRegistry.get c.name with
      | none => simp [hname, hfn] at hc
      | some fn =>
        cases hok : fn c.params ctx' with
        | error e => simp [hname, hfn, hok] at hc
        | ok ok =>
          have := conditionRegistry_persists hfn c.params h ok hok
          simp only [hname, hfn, hok, this] at hc ⊢
          exact hc

end WorkspaceAuthz.Authz
