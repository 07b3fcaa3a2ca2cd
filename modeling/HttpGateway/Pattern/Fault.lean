/-!
# Why a pattern is refused

A pattern is refused while it is read (with the offset of the offending character), by a rule on its
captures, or because no matcher can be built for it. `PatternFault.message` is the wording.
-/

namespace HttpGateway

/-- Why no matcher can be built for a pattern. -/
inductive MatcherFault where
  | repeatedName
  | nestingTooDeep
  | tooLarge
  /-- A name that no reference can spell, with its first unsupported character. -/
  | unusableName (name : String) (character : Char)
deriving DecidableEq

def nestingLimit : Nat := 250

/-- The most bytes that a matcher may take. -/
def sizeLimit : Nat := 1048576

def unusableNameMessage (name : String) (character : Char) : String :=
  "Variable name '" ++ name ++ "' contains the unsupported character '" ++
    String.singleton character ++ "'"

/-- The wording of a failure to build a matcher. For a repeated name and for too deep a nesting it is
only the last line of the whole wording: the lines before it, which quote the regular expression and
point at the place in it, are left out. -/
def MatcherFault.message : MatcherFault → String
  | .repeatedName => "error: duplicate capture group name"
  | .nestingTooDeep =>
    "error: exceed the maximum number of nested parentheses/brackets (" ++
      toString nestingLimit ++ ")"
  | .tooLarge => "Compiled regex exceeds size limit of " ++ toString sizeLimit ++ " bytes."
  | .unusableName name character => unusableNameMessage name character

inductive PatternFault where
  /-- The group opened at the offset is never closed. -/
  | unclosedGroup (offset : Nat)
  | unopenedGroup (offset : Nat)
  /-- The group opened at the offset is closed at once. -/
  | emptyGroup (offset : Nat)
  /-- The `:` at the offset is not followed by a name. -/
  | missingName (offset : Nat)
  | repeatedName (name : String)
  /-- A capture has the name of a system variable. -/
  | reservedName (name : String)
  | wildcardAfterCapture
  | compile (cause : MatcherFault)
deriving DecidableEq

namespace PatternFault

def message : PatternFault → String
  | .unclosedGroup offset => "There is a missing ')' for the '(' at position " ++ toString offset
  | .unopenedGroup offset => "There is an unexpected ')' at position " ++ toString offset
  | .emptyGroup offset =>
    "The optional segment at position " ++ toString offset ++ " is empty or invalid"
  | .missingName offset => "The variable at position " ++ toString offset ++ " has an invalid name"
  | .repeatedName name => "The variable name already used: '" ++ name ++ "'"
  | .reservedName name => "The variable name '" ++ name ++ "' collides with a system variable"
  | .wildcardAfterCapture => "The wild-card character '*' cannot follow a variable"
  | .compile cause => "Failed to compile the route matcher: " ++ cause.message

/-- The offset, in bytes, of the offending character, for a refusal while reading. -/
def offset? : PatternFault → Option Nat
  | .unclosedGroup offset => some offset
  | .unopenedGroup offset => some offset
  | .emptyGroup offset => some offset
  | .missingName offset => some offset
  | _ => none

def name? : PatternFault → Option String
  | .repeatedName name => some name
  | .reservedName name => some name
  | _ => none

/-- Refused while reading. -/
def isSyntactic (fault : PatternFault) : Bool := fault.offset?.isSome

end PatternFault

end HttpGateway
