import WorkspaceAuthz.Go.Data

/-! # Trimming and lower-case letters

`strings.TrimSpace`, `strings.Trim` and what is left of a text in lower-case
letters and digits. Characters are recognised by their encodings in UTF-8.
-/
namespace WorkspaceAuthz.Go

/-- Cut off what stands at the front, as long as something in `cut` does. -/
def trimFront (cut : List GoString) : ℕ → GoString → GoString
  | 0, s => s
  | fuel + 1, s =>
    match cut.find? (·.isPrefixOf s) with
    | some c => trimFront cut fuel (s.drop c.length)
    | none => s

/-- Every cut is at least one byte long, so there are no more cuts than bytes. -/
def trimBoth (cut : List GoString) (s : GoString) : GoString :=
  let s := trimFront cut s.length s
  (trimFront (cut.map List.reverse) s.length s.reverse).reverse

/-- The white space of Unicode: U+0009 to U+000D, U+0020, U+0085, U+00A0, U+1680, U+2000 to
U+200A, U+2028, U+2029, U+202F, U+205F and U+3000. -/
def spaces : List GoString :=
  [[0x09], [0x0A], [0x0B], [0x0C], [0x0D], [0x20], [0xC2, 0x85], [0xC2, 0xA0], [0xE1, 0x9A, 0x80],
    [0xE2, 0x80, 0x80], [0xE2, 0x80, 0x81], [0xE2, 0x80, 0x82], [0xE2, 0x80, 0x83],
    [0xE2, 0x80, 0x84], [0xE2, 0x80, 0x85], [0xE2, 0x80, 0x86], [0xE2, 0x80, 0x87],
    [0xE2, 0x80, 0x88], [0xE2, 0x80, 0x89], [0xE2, 0x80, 0x8A], [0xE2, 0x80, 0xA8],
    [0xE2, 0x80, 0xA9], [0xE2, 0x80, 0xAF], [0xE2, 0x81, 0x9F], [0xE3, 0x80, 0x80]]

def trimSpace (s : GoString) : GoString := trimBoth spaces s

def trimDash (s : GoString) : GoString := trimBoth [str "-"] s

/-- The letters `a` to `z` and digits of a text in lower case, with `none` for everything
else. Two characters beyond ASCII have such a letter as their lower case: U+0130 and U+212A. -/
def lowerAlnum : GoString → List (Option UInt8)
  | 0xC4 :: 0xB0 :: rest => some (ascii 'i') :: lowerAlnum rest
  | 0xE2 :: 0x84 :: 0xAA :: rest => some (ascii 'k') :: lowerAlnum rest
  | b :: rest =>
    (if ascii 'A' ≤ b ∧ b ≤ ascii 'Z' then some (b + 32)
      else if (ascii 'a' ≤ b ∧ b ≤ ascii 'z') ∨ (ascii '0' ≤ b ∧ b ≤ ascii '9') then some b
      else none) :: lowerAlnum rest
  | [] => []

/-- One dash for every run of `none`. -/
def dashRuns : List (Option UInt8) → GoString
  | none :: none :: rest => dashRuns (none :: rest)
  | none :: rest => ascii '-' :: dashRuns rest
  | some b :: rest => b :: dashRuns rest
  | [] => []

end WorkspaceAuthz.Go
