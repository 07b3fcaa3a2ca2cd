/-!
# Hosts and addresses

`hostPart` takes the host from a text such as `example.com:8080`. A host in brackets ends with its
bracket, and a text with two colons or more and no bracket is an address with nothing after it.

An internet address is read with `Address.ofText?` and written with `Address.text`. Version 4
addresses are four decimal bytes. Version 6 addresses are eight groups of hexadecimal digits,
written in the recommended form: no leading zeros, lower case, the first longest run of two or more
zero groups as `::`, and an address that maps a version 4 one with its last four bytes in decimal.
-/

namespace HttpGateway

/-! ## Hosts -/

/-- The text up to and including the first occurrence of a character, if there is one. -/
def throughFirst? (c : Char) : List Char → Option (List Char)
  | [] => none
  | d :: ds => if d = c then some [d] else (throughFirst? c ds).map (d :: ·)

def hostPart (text : String) : String :=
  match text.toList with
  | '[' :: cs =>
    match throughFirst? ']' cs with
    | some name => String.ofList ('[' :: name)
    | none => text
  | cs => if cs.count ':' = 1 then String.ofList (cs.takeWhile (· != ':')) else text

/-! ## Addresses -/

inductive Address where
  | v4 (a b c d : UInt8)
  | v6 (g₀ g₁ g₂ g₃ g₄ g₅ g₆ g₇ : UInt16)
deriving DecidableEq

namespace Address

/-! ### Writing -/

def dotted (a b c d : UInt8) : String :=
  ".".intercalate ([a, b, c, d].map (toString ·.toNat))

def groupText (group : UInt16) : String := String.ofList (Nat.toDigits 16 group.toNat)

def groupsText (groups : List UInt16) : String := ":".intercalate (groups.map groupText)

def zeroRun (groups : List UInt16) : Nat := (groups.takeWhile (· == 0)).length

/-- The start and the length of the first longest run of zero groups; `start` groups come before the
given ones. -/
def longestZeroRun (start : Nat) : List UInt16 → Nat × Nat
  | [] => (start, 0)
  | group :: groups =>
    let here := zeroRun (group :: groups)
    let later := longestZeroRun (start + 1) groups
    if later.2 > here then later else (start, here)

def compressed (groups : List UInt16) : String :=
  let (start, length) := longestZeroRun 0 groups
  if length ≥ 2 then
    groupsText (groups.take start) ++ "::" ++ groupsText (groups.drop (start + length))
  else groupsText groups

/-- The high and the low byte of a group. -/
def groupBytes (group : UInt16) : UInt8 × UInt8 := ((group >>> 8).toUInt8, group.toUInt8)

def text : Address → String
  | v4 a b c d => dotted a b c d
  | v6 0 0 0 0 0 0xFFFF high low =>
    let (a, b) := groupBytes high
    let (c, d) := groupBytes low
    "::ffff:" ++ dotted a b c d
  | v6 g₀ g₁ g₂ g₃ g₄ g₅ g₆ g₇ => compressed [g₀, g₁, g₂, g₃, g₄, g₅, g₆, g₇]

/-! ### Reading -/

def hexDigit? (c : Char) : Option Nat :=
  if c.isDigit then some (c.toNat - '0'.toNat)
  else if 'a' ≤ c && c ≤ 'f' then some (c.toNat - 'a'.toNat + 10)
  else if 'A' ≤ c && c ≤ 'F' then some (c.toNat - 'A'.toNat + 10)
  else none

/-- The value of digits in a base, the most significant first. -/
def digitsValue (base : Nat) (digits : List Nat) : Nat :=
  digits.foldl (fun value digit => base * value + digit) 0

/-- A decimal byte: one to three digits, no needless zero in front. -/
def byte? (cs : List Char) : Option UInt8 := do
  guard (cs.all Char.isDigit && 1 ≤ cs.length && cs.length ≤ 3)
  guard (cs.length = 1 || cs.head? ≠ some '0')
  let value := digitsValue 10 (cs.map fun c => c.toNat - '0'.toNat)
  guard (value < 256)
  return value.toUInt8

/-- A group: one to four hexadecimal digits. -/
def group? (cs : List Char) : Option UInt16 := do
  guard (1 ≤ cs.length && cs.length ≤ 4)
  let digits ← cs.mapM hexDigit?
  return (digitsValue 16 digits).toUInt16

def splitOn (c : Char) : List Char → List (List Char)
  | [] => [[]]
  | d :: ds =>
    if d = c then [] :: splitOn c ds
    else match splitOn c ds with
      | [] => [[d]]
      | part :: parts => (d :: part) :: parts

def bytes? (cs : List Char) : Option (UInt8 × UInt8 × UInt8 × UInt8) :=
  match (splitOn '.' cs).mapM byte? with
  | some [a, b, c, d] => some (a, b, c, d)
  | _ => none

/-- The groups that parts between colons stand for: the last may be a dotted address, for two
groups. -/
def groups? : List (List Char) → Option (List UInt16)
  | [] => some []
  | [part] =>
    match group? part with
    | some group => some [group]
    | none => (bytes? part).map fun (a, b, c, d) =>
      [a.toUInt16 <<< 8 ||| b.toUInt16, c.toUInt16 <<< 8 ||| d.toUInt16]
  | part :: parts => do return (← group? part) :: (← groups? parts)

/-- The groups of a text, none for an empty one. -/
def groupsOf? (cs : List Char) : Option (List UInt16) :=
  match cs with
  | [] => some []
  | cs => groups? (splitOn ':' cs)

/-- The text before the first `::` and the text after it. -/
def splitGap : List Char → Option (List Char × List Char)
  | ':' :: ':' :: cs => some ([], cs)
  | c :: cs => (splitGap cs).map fun (before, after) => (c :: before, after)
  | [] => none

def ofGroups? : List UInt16 → Option Address
  | [g₀, g₁, g₂, g₃, g₄, g₅, g₆, g₇] => some (v6 g₀ g₁ g₂ g₃ g₄ g₅ g₆ g₇)
  | _ => none

/-- The address that a text writes, in the recommended form or any other. -/
def ofText? (text : String) : Option Address :=
  let cs := text.toList
  match bytes? cs with
  | some (a, b, c, d) => some (v4 a b c d)
  | none =>
    match splitGap cs with
    | none => do ofGroups? (← groupsOf? cs)
    | some (before, after) => do
      guard (!before.contains '.')
      let front ← groupsOf? before
      let back ← groupsOf? after
      guard (front.length + back.length < 8)
      ofGroups? (front ++ List.replicate (8 - front.length - back.length) 0 ++ back)

end Address

end HttpGateway
