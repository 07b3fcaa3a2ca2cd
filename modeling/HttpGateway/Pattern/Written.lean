import HttpGateway.Pattern.Basic
import HttpGateway.Pattern.Fault
import HttpGateway.Text.Basic

/-!
# Written patterns

`Pattern.text` writes a pattern and `Pattern.parse` reads one. In literal text a backslash goes
before each of `: ( ) *`, and nothing else is escaped.

`Token.scan` cuts a text into tokens, each with the offset, in bytes, of its first character. A
backslash before one of `: ( ) *` makes that character literal, any other backslash is literal
itself, and `:` takes the longest name after it. `Pattern.parse` builds the tree in one pass over
the tokens, with the groups that are still open on a stack. Literal characters next to each other
form one literal. The first offence met in the text is the one reported; when there is none but
groups are left open, the innermost of them.
-/

namespace HttpGateway

open Text

/-! ## Spelling -/

namespace Pattern

/-- The characters with a meaning of their own that a backslash takes away. -/
def takesBackslash (c : Char) : Bool := c == ':' || c == '(' || c == ')' || c == '*'

def spellChar (c : Char) : List Char := if takesBackslash c then ['\\', c] else [c]

mutual

def spell : Pattern → List Char
  | .literal text => text.toList.flatMap spellChar
  | .separator => ['/']
  | .capture name => ':' :: name.toList
  | .wildcard => ['*']
  | .optional child => '(' :: (spell child ++ [')'])
  | .sequence children => spellAll children

def spellAll : List Pattern → List Char
  | [] => []
  | pattern :: patterns => spell pattern ++ spellAll patterns

end

def text (pattern : Pattern) : String := String.ofList (spell pattern)

end Pattern

/-! ## Tokens -/

inductive Token where
  /-- A literal character, bare or escaped. -/
  | char (c : Char)
  | separator
  | wildcard
  | capture (name : String)
  /-- `:` that no name follows. -/
  | bareColon
  | opening
  | closing
deriving DecidableEq

structure PlacedToken where
  offset : Nat
  token : Token
deriving DecidableEq

namespace Token

/-- The tokens of a text that starts at an offset, without its first `skip` characters, which
belong to a token before it. -/
def scanFrom : Nat → Nat → List Char → List PlacedToken
  | _, _, [] => []
  | skip + 1, offset, c :: cs => scanFrom skip (offset + c.utf8Size) cs
  | 0, offset, c :: cs =>
    let next := offset + c.utf8Size
    match c with
    | '/' => ⟨offset, .separator⟩ :: scanFrom 0 next cs
    | '*' => ⟨offset, .wildcard⟩ :: scanFrom 0 next cs
    | '(' => ⟨offset, .opening⟩ :: scanFrom 0 next cs
    | ')' => ⟨offset, .closing⟩ :: scanFrom 0 next cs
    | ':' =>
      match leadingName cs with
      | [] => ⟨offset, .bareColon⟩ :: scanFrom 0 next cs
      | name => ⟨offset, .capture (String.ofList name)⟩ :: scanFrom name.length next cs
    | '\\' =>
      match cs.head? with
      | some d =>
        if Pattern.takesBackslash d then ⟨offset, .char d⟩ :: scanFrom 1 next cs
        else ⟨offset, .char c⟩ :: scanFrom 0 next cs
      | none => ⟨offset, .char c⟩ :: scanFrom 0 next cs
    | c => ⟨offset, .char c⟩ :: scanFrom 0 next cs

def scan (cs : List Char) : List PlacedToken := scanFrom 0 0 cs

end Token

/-! ## Reading -/

namespace Pattern

/-- A group that is still open: the offset of its `(`, and the items before it, the latest first. -/
structure OpenGroup where
  offset : Nat
  before : List Pattern

/-- Add a literal character behind the items, which come the latest first. -/
def addChar (c : Char) : List Pattern → List Pattern
  | .literal text :: items => .literal (text.push c) :: items
  | items => .literal (String.singleton c) :: items

/-- Build the tree of the tokens, given the open groups, the innermost first, and the items since
the last `(`, the latest first. -/
def assemble : List OpenGroup → List Pattern → List PlacedToken → Except PatternFault Pattern
  | [], items, [] => .ok (concat items.reverse)
  | group :: _, _, [] => .error (.unclosedGroup group.offset)
  | groups, items, ⟨offset, token⟩ :: rest =>
    match token with
    | .char c => assemble groups (addChar c items) rest
    | .separator => assemble groups (.separator :: items) rest
    | .wildcard => assemble groups (.wildcard :: items) rest
    | .capture name => assemble groups (.capture name :: items) rest
    | .bareColon => .error (.missingName offset)
    | .opening => assemble (⟨offset, items⟩ :: groups) [] rest
    | .closing =>
      match groups, items with
      | [], _ => .error (.unopenedGroup offset)
      | group :: _, [] => .error (.emptyGroup group.offset)
      | group :: groups, items =>
        assemble groups (.optional (concat items.reverse) :: group.before) rest

def parse (text : String) : Except PatternFault Pattern := assemble [] [] (Token.scan text.toList)

end Pattern

end HttpGateway
