import Mathlib.Data.BitVec

/-!
# `IpAddr` and its text form

`std::net::IpAddr` and the parser behind `str::parse::<IpAddr>`. A reader takes a prefix of the text
and returns the rest; the readers of the standard library restore their position when they fail, so
that a failed reader is `none`.
-/

namespace BaseSkeleton.RateLimit

/-- `std::net::IpAddr`. -/
inductive IpAddr where
  | v4 (bits : BitVec 32)
  | v6 (bits : BitVec 128)
  deriving DecidableEq

namespace IpAddr

/-- `Ipv4Addr::new`. -/
def ofOctets (a b c d : Nat) : BitVec 32 :=
  .ofNat 32 (((a * 256 + b) * 256 + c) * 256 + d)

/-- `Ipv6Addr::from` for eight groups. -/
def ofGroups (groups : List Nat) : BitVec 128 :=
  .ofNat 128 (groups.foldl (fun bits group => bits * 65536 + group) 0)

/-- `IpAddr::V4(Ipv4Addr::LOCALHOST)`. -/
def localhost : IpAddr := .v4 (ofOctets 127 0 0 1)

/-! ## Readers

Each takes as much of the text as its form allows. `from_str` wants nothing to be left. -/

/-- What a reader has read, and the rest of the text. -/
abbrev Reader (α : Type) := List Char → Option (α × List Char)

/-- `char::to_digit`. -/
def toDigit (radix : Nat) (c : Char) : Option Nat :=
  let digit :=
    if '0' ≤ c ∧ c ≤ '9' then c.toNat - '0'.toNat
    else if 'a' ≤ c ∧ c ≤ 'z' then c.toNat - 'a'.toNat + 10
    else if 'A' ≤ c ∧ c ≤ 'Z' then c.toNat - 'A'.toNat + 10
    else radix
  if digit < radix then some digit else none

/-- `read_number`: all digits that follow, which must be at least one and at most `maxDigits`, and
whose value must be below `bound`. -/
def readNumber (radix maxDigits bound : Nat) (allowZeroPrefix : Bool) : Reader Nat := fun s =>
  let digits := s.takeWhile fun c => (toDigit radix c).isSome
  let value := digits.foldl (fun value c => value * radix + (toDigit radix c).getD 0) 0
  if maxDigits < digits.length then none
  else if digits.length = 0 then none
  -- octal notation is not allowed
  else if allowZeroPrefix = false ∧ s.head? = some '0' ∧ 1 < digits.length then none
  else if value < bound then some (value, s.drop digits.length)
  else none

/-- `read_separator`: every item but the first follows a separator. -/
def readSeparator {α : Type} (sep : Char) (index : Nat) (inner : Reader α) : Reader α := fun s =>
  if index = 0 then inner s
  else
    match s with
    | [] => none
    | c :: s => if c = sep then inner s else none

def readOctet (index : Nat) : Reader Nat :=
  readSeparator '.' index (readNumber 10 3 256 false)

/-- `read_ipv4_addr`. -/
def readIpv4Addr : Reader (BitVec 32) := fun s => do
  let (a, s) ← readOctet 0 s
  let (b, s) ← readOctet 1 s
  let (c, s) ← readOctet 2 s
  let (d, s) ← readOctet 3 s
  some (ofOctets a b c d, s)

/-- `read_groups`: at most `left` groups from group `index` on, whether an embedded IPv4 address
ended them, and the rest of the text. -/
def readGroups : Nat → Nat → List Char → List Nat × Bool × List Char
  | 0, _, s => ([], false, s)
  | left + 1, index, s =>
    -- an embedded IPv4 address takes two groups
    match if 0 < left then readSeparator ':' index readIpv4Addr s else none with
    | some (bits, s) => ([bits.toNat / 65536, bits.toNat % 65536], true, s)
    | none =>
      match readSeparator ':' index (readNumber 16 4 65536 true) s with
      | some (group, s) =>
        match readGroups left (index + 1) s with
        | (groups, embedded, s) => (group :: groups, embedded, s)
      | none => ([], false, s)

/-- `read_ipv6_addr`. -/
def readIpv6Addr : Reader (BitVec 128) := fun s =>
  match readGroups 8 0 s with
  | (head, headIpv4, s) =>
    if head.length = 8 then some (ofGroups head, s)
    -- no embedded IPv4 address before `::`
    else if headIpv4 then none
    else
      match s with
      | ':' :: ':' :: s =>
        -- `::` stands for at least one group
        match readGroups (8 - (head.length + 1)) 0 s with
        | (tail, _, s) =>
          some (ofGroups (head ++ List.replicate (8 - tail.length - head.length) 0 ++ tail), s)
      | _ => none

/-- `read_ip_addr`. -/
def readIpAddr : Reader IpAddr := fun s =>
  match readIpv4Addr s with
  | some (bits, s) => some (.v4 bits, s)
  | none => (readIpv6Addr s).map fun (bits, s) => (.v6 bits, s)

/-- `IpAddr::from_str`: the whole text is one address. -/
def fromStr (s : String) : Option IpAddr :=
  match readIpAddr s.toList with
  | some (ip, []) => some ip
  | _ => none

example : fromStr "203.0.113.7" = some (.v4 (ofOctets 203 0 113 7)) := by decide

example : fromStr "203.0.113.07" = none := by decide

example : fromStr "::ffff:10.1.2.3" = some (.v6 0xffff0a010203) := by decide

end IpAddr

end BaseSkeleton.RateLimit
