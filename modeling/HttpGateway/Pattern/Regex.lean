import HttpGateway.Pattern.Basic
import HttpGateway.Text.Basic
import HttpGateway.Text.CaseFold

/-!
# The regular expression of a pattern

A pattern stands for an anchored regular expression: an optional leading `/`, the pattern without
one separator at either end, and a border, which is a `/` or the end of the path. This module writes
that expression (`regexText`), and measures its deepest nesting of groups, repetitions, classes and
concatenations (`nesting`) and the memory it takes (`footprint`).

The expression is run as a graph of states. Each state takes a fixed number of bytes, and more for
the branches of a choice or the ranges of a table. The graph is measured in the dearer of its two
directions, the one that reads a path from its end: there the forms of a character share the states
of their first bytes only, and the captures take no states.
-/

namespace HttpGateway.Pattern

open Text

def withoutFirstSeparator : List Pattern → List Pattern
  | .separator :: rest => rest
  | items => items

def withoutLastSeparator (items : List Pattern) : List Pattern :=
  match items.getLast? with
  | some .separator => items.dropLast
  | _ => items

/-- The items of a pattern without one separator at the start and one at the end. -/
def core (pattern : Pattern) : List Pattern :=
  withoutLastSeparator (withoutFirstSeparator (items pattern))

/-! ## Text -/

/-- The characters that have a meaning of their own in a regular expression. -/
def regexMeta : List Char :=
  ['\\', '.', '+', '*', '?', '(', ')', '|', '[', ']', '{', '}', '^', '$', '#', '&', '-', '~']

def regexChar (c : Char) : List Char := if regexMeta.contains c then ['\\', c] else [c]

def regexSegment : List Char := "[^/]+".toList

mutual

/-- The regular expression of a pattern, without its borders. -/
def regexBody : Pattern → List Char
  | .literal text => text.toList.flatMap regexChar
  | .separator => ['/']
  | .capture name => "(?P<".toList ++ name.toList ++ '>' :: regexSegment ++ [')']
  | .wildcard => regexSegment
  | .optional child => "(?:".toList ++ regexBody child ++ ")?".toList
  | .sequence children => regexBodyAll children

def regexBodyAll : List Pattern → List Char
  | [] => []
  | pattern :: patterns => regexBody pattern ++ regexBodyAll patterns

end

def regexText (core : List Pattern) : String :=
  String.ofList ("\\A/?".toList ++ regexBodyAll core ++ "(?:/|\\z)".toList)

/-! ## Nesting -/

mutual

/-- The number of items that the regular expression concatenates: one for each character of a
literal. -/
def regexItems : Pattern → Nat
  | .literal text => text.length
  | .separator => 1
  | .capture _ => 1
  | .wildcard => 1
  | .optional _ => 1
  | .sequence children => regexItemsAll children

def regexItemsAll : List Pattern → Nat
  | [] => 0
  | pattern :: patterns => regexItems pattern + regexItemsAll patterns

end

mutual

/-- The deepest nesting within an item of the regular expression: a wildcard is a repetition of a
class, a capture a group around one, and an optional a repetition of a group around its child, which
is a concatenation if it has two items or more. -/
def itemNesting : Pattern → Nat
  | .literal _ => 0
  | .separator => 0
  | .capture _ => 3
  | .wildcard => 2
  | .optional child => 2 + (if regexItems child ≥ 2 then 1 else 0) + itemNesting child
  | .sequence children => itemNestingAll children

def itemNestingAll : List Pattern → Nat
  | [] => 0
  | pattern :: patterns => max (itemNesting pattern) (itemNestingAll patterns)

end

/-- The deepest nesting of the whole regular expression, a concatenation of its borders and the
core. -/
def nesting (core : List Pattern) : Nat := 1 + itemNestingAll core

/-! ## Memory -/

/-- A state that reads one byte, looks at a border of the path, joins branches or accepts. -/
def stateSize : Nat := 32

def choiceSize (branches : Nat) : Nat := stateSize + 4 * branches

/-- A state that reads one byte of several ranges, and the state after it. -/
def tableSize (ranges : Nat) : Nat := stateSize + 8 * ranges + stateSize

def branchesSize (branches content : Nat) : Nat := choiceSize branches + content + stateSize

/-- Content that may be absent: the other branch is empty. -/
def optionalSize (content : Nat) : Nat := branchesSize 2 content

/-- One or more characters of a segment. The UTF-8 forms of the characters other than `/` make ten
sequences of byte ranges, of 28 ranges in all, and a choice leads back or on. -/
def segmentSize : Nat := branchesSize 10 (28 * stateSize) + choiceSize 2

/-- The first bytes of a character: the beginnings of its UTF-8 form, neither empty nor whole. -/
def leadingBytes (c : Char) : List (List UInt8) :=
  let bytes := String.utf8EncodeChar c
  (List.range bytes.length).tail.map bytes.take

/-- The number of runs of characters that follow one on the other and differ in their last byte
only. -/
def runs (cs : List Char) : Nat :=
  cs.countP fun c => c.toNat % 64 == 0 || !cs.any fun d => d.toNat + 1 == c.toNat

/-- A literal character. One with no other form is its bytes in a row. Forms of a single byte make a
table. Longer ones make a branch for each run, and share the states of equal first bytes. -/
def charSize (c : Char) : Nat :=
  let forms := caseForms c
  if forms.length == 1 then stateSize * c.utf8Size
  else if forms.all (·.utf8Size == 1) then tableSize (runs forms)
  else branchesSize (runs forms)
    (stateSize * (runs forms + (forms.flatMap leadingBytes).eraseDups.length))

mutual

/-- A pattern without its borders. An optional without content still has a state for it. -/
def bodySize : Pattern → Nat
  | .literal text => text.toList.foldr (charSize · + ·) 0
  | .separator => stateSize
  | .capture _ => segmentSize
  | .wildcard => segmentSize
  | .optional child => optionalSize (if regexItems child = 0 then stateSize else bodySize child)
  | .sequence children => bodySizeAll children

def bodySizeAll : List Pattern → Nat
  | [] => 0
  | pattern :: patterns => bodySize pattern + bodySizeAll patterns

end

/-- What every matcher has around its pattern: the start of the path, the optional `/` there, the
border after the pattern, which is a `/` or the end of the path, the state that accepts, and a loop
over the path beyond the border. -/
def bordersSize : Nat :=
  stateSize + optionalSize stateSize + branchesSize 2 (stateSize + stateSize) + stateSize +
    (choiceSize 2 + tableSize 1)

def footprint (core : List Pattern) : Nat := bordersSize + bodySizeAll core

end HttpGateway.Pattern
