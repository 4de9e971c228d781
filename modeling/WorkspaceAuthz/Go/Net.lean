import WorkspaceAuthz.Go.Data

/-! # IP addresses and networks

`net.ParseIP`, `net.ParseCIDR` and `IPNet.Contains`. An address is its bytes, 4
or 16 of them; a textual zone is never accepted.
-/
namespace WorkspaceAuthz.Go

abbrev IP := List UInt8

structure IPNet where
  ip : IP
  mask : List UInt8
deriving DecidableEq, Repr

def isDigit (c : UInt8) : Bool := ascii '0' ≤ c && c ≤ ascii '9'

def isHex (c : UInt8) : Bool :=
  isDigit c || (ascii 'a' ≤ c && c ≤ ascii 'f') || (ascii 'A' ≤ c && c ≤ ascii 'F')

def hexValue (c : UInt8) : ℕ :=
  if isDigit c then (c - ascii '0').toNat
  else if ascii 'a' ≤ c then (c - ascii 'a').toNat + 10
  else (c - ascii 'A').toNat + 10

/-- The number that a run of digits denotes in a base. -/
def digitsValue (base : ℕ) (digits : GoString) : ℕ :=
  digits.foldl (fun acc c => acc * base + hexValue c) 0

/-- One decimal field of a dotted address: no leading zero, at most 255. -/
def parseOctet (s : GoString) : Option UInt8 :=
  if s = [] ∨ s.all isDigit = false ∨ (s.head? = some (ascii '0') ∧ s.length ≠ 1) ∨
      255 < digitsValue 10 s then none
  else some (UInt8.ofNat (digitsValue 10 s))

def parseIPv4 (s : GoString) : Option IP :=
  match s.splitOn (ascii '.') with
  | [a, b, c, d] => [a, b, c, d].mapM parseOctet
  | _ => none

/-- The colon-separated groups of an IPv6 address, at most as many as there is
room for. Returns the unread text, the bytes and the position of the ellipsis. -/
def parseGroups : ℕ → GoString → IP → Option ℕ → Option (GoString × IP × Option ℕ)
  | 0, s, ip, ellipsis => some (s, ip, ellipsis)
  | room + 1, s, ip, ellipsis =>
    let digits := s.takeWhile isHex
    let chunk := digitsValue 16 digits
    let ip' := ip ++ [UInt8.ofNat (chunk / 256), UInt8.ofNat chunk]
    if digits = [] ∨ 4 < digits.length then none
    else match s.dropWhile isHex with
    | [] => some ([], ip', ellipsis)
    | c :: rest =>
      if c = ascii '.' then
        -- A trailing dotted address fills the last four bytes.
        if (ellipsis = none ∧ ip.length ≠ 12) ∨ 16 < ip.length + 4 then none
        else (parseIPv4 s).map fun v4 => ([], ip ++ v4, ellipsis)
      else if c ≠ ascii ':' then none
      else match rest with
      | [] => none
      | c' :: rest' =>
        if c' = ascii ':' then
          if ellipsis.isSome then none
          else if rest' = [] then some ([], ip', some ip'.length)
          else parseGroups room rest' ip' (some ip'.length)
        else parseGroups room rest ip' ellipsis

/-- Fill the ellipsis of a partly read address. -/
def fillEllipsis : GoString × IP × Option ℕ → Option IP
  | ([], ip, some pos) =>
    if ip.length < 16 then
      some (ip.take pos ++ List.replicate (16 - ip.length) 0 ++ ip.drop pos)
    else none
  | ([], ip, none) => if ip.length < 16 then none else some ip
  | (_ :: _, _, _) => none

def parseIPv6 (s : GoString) : Option IP :=
  if ascii '%' ∈ s then none
  else match s with
  | c :: c' :: rest =>
    if c = ascii ':' ∧ c' = ascii ':' then
      if rest = [] then some (List.replicate 16 0)
      else parseGroups 8 rest [] (some 0) >>= fillEllipsis
    else parseGroups 8 s [] none >>= fillEllipsis
  | _ => parseGroups 8 s [] none >>= fillEllipsis

/-- `netip.ParseAddr` without a zone: the first of the separators decides. -/
def parseAddr (s : GoString) : Option IP :=
  match s.find? fun c => c = ascii '.' ∨ c = ascii ':' ∨ c = ascii '%' with
  | some c =>
    if c = ascii '.' then parseIPv4 s
    else if c = ascii ':' then parseIPv6 s
    else none
  | none => none

def v4InV6Prefix : IP := [0, 0, 0, 0, 0, 0, 0, 0, 0, 0, 255, 255]

/-- `IP.To4` where it applies: the four bytes of an IPv4 address in either form. -/
def shorten (ip : IP) : IP :=
  if ip.length = 16 ∧ ip.take 12 = v4InV6Prefix then ip.drop 12 else ip

/-- `net.ParseIP`, which returns sixteen bytes. -/
def parseIP (s : GoString) : Option IP :=
  (parseAddr s).map fun ip => if ip.length = 4 then v4InV6Prefix ++ ip else ip

/-- A mask of `ones` leading ones in `len` bytes. -/
def cidrMask (ones len : ℕ) : List UInt8 :=
  (List.range len).map fun i => UInt8.ofNat (256 - 2 ^ (8 - min 8 (ones - 8 * i)))

/-- `net.ParseCIDR`, without the address it also returns. -/
def parseCIDR (s : GoString) : Option IPNet :=
  let addr := s.takeWhile (· ≠ ascii '/')
  match s.dropWhile (· ≠ ascii '/') with
  | [] => none
  | _ :: ones => do
    let ip ← parseAddr addr
    if ones = [] ∨ ones.all isDigit = false ∨ 8 * ip.length < digitsValue 10 ones then none
    else
      let mask := cidrMask (digitsValue 10 ones) ip.length
      some ⟨List.zipWith (· &&& ·) ip mask, mask⟩

def IPNet.contains (n : IPNet) (ip : IP) : Bool :=
  let nn := shorten n.ip
  let mask := if nn.length < n.mask.length then n.mask.drop 12 else n.mask
  let ip := shorten ip
  ip.length = nn.length &&
    List.zipWith (· &&& ·) nn mask = List.zipWith (· &&& ·) ip mask

example : ((parseCIDR "10.1.0.0/16").bind fun n => (parseIP "10.1.2.3").map n.contains) =
    some true := by decide

end WorkspaceAuthz.Go
