import Mathlib.Data.Rat.Defs
import WorkspaceAuthz.Go.Net

/-! # Timestamps

`time.Parse` with the layout `2006-01-02T15:04:05Z07:00`. An instant is counted
in nanoseconds from the Unix epoch, so that `After` is the order of integers.
-/
namespace WorkspaceAuthz.Go

abbrev Time := ℤ

/-- A number of two digits; of one digit too unless the layout fixes the width. -/
def getnum (fixed : Bool) : GoString → Option (ℕ × GoString)
  | c :: d :: rest =>
    if !isDigit c then none
    else if isDigit d then some (digitsValue 10 [c, d], rest)
    else if fixed then none
    else some (digitsValue 10 [c], d :: rest)
  | [c] => if isDigit c && !fixed then some (digitsValue 10 [c], []) else none
  | [] => none

def skipByte (c : UInt8) : GoString → Option GoString
  | d :: rest => if d = c then some rest else none
  | [] => none

/-- A fraction of a second, which the layout lacks and the input may have. -/
def fraction : GoString → ℕ × GoString
  | p :: d :: rest =>
    if (p = ascii '.' ∨ p = ascii ',') ∧ isDigit d then
      let digits := ((d :: rest).takeWhile isDigit).take 9
      (digitsValue 10 digits * 10 ^ (9 - digits.length), (d :: rest).dropWhile isDigit)
    else (0, p :: d :: rest)
  | s => (0, s)

/-- The zone offset in seconds. Offsets of 24 hours and 60 minutes are accepted. -/
def zoneOffset : GoString → Option (ℤ × GoString)
  | [] => none
  | c :: rest =>
    if c = ascii 'Z' then some (0, rest)
    else match rest with
    | h :: h' :: colon :: m :: m' :: rest => do
      let (hr, _) ← getnum true [h, h']
      let (mm, _) ← getnum true [m, m']
      if colon ≠ ascii ':' ∨ 24 < hr ∨ 60 < mm then none
      else if c = ascii '+' then some ((hr * 60 + mm) * 60, rest)
      else if c = ascii '-' then some (-((hr * 60 + mm) * 60), rest)
      else none
    | _ => none

def isLeap (year : ℕ) : Bool := year % 4 = 0 && (year % 100 ≠ 0 || year % 400 = 0)

def daysIn (month year : ℕ) : ℕ :=
  if month = 2 then (if isLeap year then 29 else 28)
  else if month = 4 ∨ month = 6 ∨ month = 9 ∨ month = 11 then 30
  else 31

/-- Days from the Unix epoch to a date of the proleptic Gregorian calendar. -/
def epochDay (year month day : ℕ) : ℤ :=
  -- Years are counted from March, so that the leap day comes last.
  let y : ℤ := if month ≤ 2 then year - 1 else year
  let fromMarch : ℤ := if month ≤ 2 then month + 9 else month - 3
  y * 365 + y / 4 - y / 100 + y / 400 + (153 * fromMarch + 2) / 5 + (day - 1) - 719468

def parseRFC3339 (s : GoString) : Option Time := do
  let yyyy := s.take 4
  if yyyy.length < 4 ∨ yyyy.all isDigit = false then none
  let year := digitsValue 10 yyyy
  let (month, s) ← getnum true (← skipByte (ascii '-') (s.drop 4))
  let (day, s) ← getnum true (← skipByte (ascii '-') s)
  let (hour, s) ← getnum false (← skipByte (ascii 'T') s)
  let (min, s) ← getnum true (← skipByte (ascii ':') s)
  let (sec, s) ← getnum true (← skipByte (ascii ':') s)
  let (nsec, s) := fraction s
  let (offset, rest) ← zoneOffset s
  if rest ≠ [] ∨ month = 0 ∨ 12 < month ∨ day = 0 ∨ daysIn month year < day ∨ 24 ≤ hour ∨
      60 ≤ min ∨ 60 ≤ sec then none
  else
    let seconds := epochDay year month day * 86400 + hour * 3600 + min * 60 + sec - offset
    some (seconds * 1000000000 + nsec)

def Time.after (t u : Time) : Bool := u < t

abbrev Duration := ℤ

/-- The year 1, which `time.Time` is before it is set. -/
def Time.zero : Time := -62135596800 * 1000000000

/-- `t.Sub(u)`; a difference that is too long for 64 bits is cut to the longest duration. -/
def Time.sub (t u : Time) : Duration := max (-2 ^ 63) (min (2 ^ 63 - 1) (t - u))

def Duration.minute : Duration := 60 * 1000000000

def Duration.seconds (d : Duration) : ℚ := (d : ℚ) / 1000000000

example : parseRFC3339 "1970-01-02T00:00:00.5+01:00" = some 82800500000000 := by decide

end WorkspaceAuthz.Go
