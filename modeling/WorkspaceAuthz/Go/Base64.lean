import Mathlib.Data.List.GetD
import WorkspaceAuthz.Go.Data

/-! # Base64

The encoding `RawURLEncoding` of `encoding/base64`: three bytes are four characters,
without padding. Line breaks are skipped in decoding, and the bits that are left over
in a last character are not looked at.
-/
namespace WorkspaceAuthz.Go.Base64

def alphabet : GoString := "ABCDEFGHIJKLMNOPQRSTUVWXYZabcdefghijklmnopqrstuvwxyz0123456789-_"

def encodeDigit (n : ℕ) : UInt8 := alphabet.getD n 0

def decodeDigit (c : UInt8) : Option ℕ := alphabet.idxOf? c

def encodeToString : GoString → GoString
  | a :: b :: c :: rest =>
    let v := a.toNat * 65536 + b.toNat * 256 + c.toNat
    encodeDigit (v / 262144) :: encodeDigit (v / 4096 % 64) :: encodeDigit (v / 64 % 64) ::
      encodeDigit (v % 64) :: encodeToString rest
  | [a, b] =>
    let v := a.toNat * 65536 + b.toNat * 256
    [encodeDigit (v / 262144), encodeDigit (v / 4096 % 64), encodeDigit (v / 64 % 64)]
  | [a] =>
    let v := a.toNat * 65536
    [encodeDigit (v / 262144), encodeDigit (v / 4096 % 64)]
  | [] => []

def decodeDigits : GoString → Option GoString
  | w :: x :: y :: z :: rest => do
    let v := (← decodeDigit w) * 262144 + (← decodeDigit x) * 4096 + (← decodeDigit y) * 64 +
      (← decodeDigit z)
    return .ofNat (v / 65536) :: .ofNat (v / 256) :: .ofNat v :: (← decodeDigits rest)
  | [w, x, y] => do
    let v := (← decodeDigit w) * 262144 + (← decodeDigit x) * 4096 + (← decodeDigit y) * 64
    return [.ofNat (v / 65536), .ofNat (v / 256)]
  | [w, x] => do
    let v := (← decodeDigit w) * 262144 + (← decodeDigit x) * 4096
    return [.ofNat (v / 65536)]
  | [_] => none
  | [] => some []

def decodeString (s : GoString) : Option GoString :=
  decodeDigits (s.filter fun c => c ≠ ascii '\r' ∧ c ≠ ascii '\n')

theorem decodeDigit_encodeDigit {n : ℕ} (h : n < 64) : decodeDigit (encodeDigit n) = some n := by
  have hall : ∀ i : Fin 64, decodeDigit (encodeDigit i) = some i.val := by decide
  exact hall ⟨n, h⟩

theorem encodeDigit_ne (n : ℕ) : encodeDigit n ≠ ascii '\r' ∧ encodeDigit n ≠ ascii '\n' := by
  have hall : ∀ i : Fin 64, encodeDigit i ≠ ascii '\r' ∧ encodeDigit i ≠ ascii '\n' := by decide
  by_cases h : n < 64
  · exact hall ⟨n, h⟩
  · have hlen : alphabet.length ≤ n := not_lt.mp h
    rw [encodeDigit, List.getD_eq_default _ _ hlen]
    decide

theorem ofNat_eq {n : ℕ} {a : UInt8} (h : n % 256 = a.toNat) : UInt8.ofNat n = a := by
  apply UInt8.toNat_inj.mp
  rw [UInt8.toNat_ofNat', h]

theorem decodeDigits_encodeToString (s : GoString) : decodeDigits (encodeToString s) = some s := by
  fun_induction encodeToString s with
  | case1 a b c rest v ih =>
    have hv : v = a.toNat * 65536 + b.toNat * 256 + c.toNat := rfl
    clear_value v
    have ha := a.toNat_lt
    have hb := b.toNat_lt
    have hc := c.toNat_lt
    rw [decodeDigits, decodeDigit_encodeDigit (by omega), decodeDigit_encodeDigit (by omega),
      decodeDigit_encodeDigit (by omega), decodeDigit_encodeDigit (by omega), ih]
    have hsum : v / 262144 * 262144 + v / 4096 % 64 * 4096 + v / 64 % 64 * 64 + v % 64 = v := by
      omega
    change some (_ :: _ :: _ :: rest) = _
    rw [hsum, ofNat_eq (a := a) (by omega), ofNat_eq (a := b) (by omega),
      ofNat_eq (a := c) (by omega)]
  | case2 a b v =>
    have hv : v = a.toNat * 65536 + b.toNat * 256 := rfl
    clear_value v
    have ha := a.toNat_lt
    have hb := b.toNat_lt
    rw [decodeDigits, decodeDigit_encodeDigit (by omega), decodeDigit_encodeDigit (by omega),
      decodeDigit_encodeDigit (by omega)]
    have hsum : v / 262144 * 262144 + v / 4096 % 64 * 4096 + v / 64 % 64 * 64 = v := by omega
    change some [_, _] = _
    rw [hsum, ofNat_eq (a := a) (by omega), ofNat_eq (a := b) (by omega)]
  | case3 a v =>
    have hv : v = a.toNat * 65536 := rfl
    clear_value v
    have ha := a.toNat_lt
    rw [decodeDigits, decodeDigit_encodeDigit (by omega), decodeDigit_encodeDigit (by omega)]
    have hsum : v / 262144 * 262144 + v / 4096 % 64 * 4096 = v := by omega
    change some [_] = _
    rw [hsum, ofNat_eq (a := a) (by omega)]
  | case4 => rfl

theorem ne_of_mem_encodeToString {s : GoString} {c : UInt8} (h : c ∈ encodeToString s) :
    c ≠ ascii '\r' ∧ c ≠ ascii '\n' := by
  fun_induction encodeToString s with
  | case1 a b d rest v ih =>
    simp only [List.mem_cons] at h
    rcases h with rfl | rfl | rfl | rfl | h
    on_goal 5 => exact ih h
    all_goals exact encodeDigit_ne _
  | case2 a b v =>
    simp only [List.mem_cons, List.not_mem_nil, or_false] at h
    rcases h with rfl | rfl | rfl <;> exact encodeDigit_ne _
  | case3 a v =>
    simp only [List.mem_cons, List.not_mem_nil, or_false] at h
    rcases h with rfl | rfl <;> exact encodeDigit_ne _
  | case4 => cases h

theorem decodeString_encodeToString (s : GoString) :
    decodeString (encodeToString s) = some s := by
  rw [decodeString, List.filter_eq_self.mpr, decodeDigits_encodeToString]
  exact fun c hc => decide_eq_true (ne_of_mem_encodeToString hc)

end WorkspaceAuthz.Go.Base64
