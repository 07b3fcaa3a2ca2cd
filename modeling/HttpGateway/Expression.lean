import HttpGateway.Request.Basic
import HttpGateway.Cache

/-!
# Expressions

An expression is text with references `$name` to system variables and to the variables of a route.
At a `$` before a letter or an underscore, the longest name that the text goes on with is the one
referred to, and the system variable if a variable of the route has the same name. Where no name
fits, the `$` stands for itself.

`Expression.compile` cuts a text into atoms, which are characters and references, and joins the
characters next to each other to literals; `Expression.value` puts the values in. Expressions are
compiled once and kept in a cache: an evaluation runs with the cache at hand, and notes the signals
it emits. `Scope.plainValue` is the value it yields, said without a cache.
-/

namespace HttpGateway

open Text

inductive Reference where
  | system (v : RequestAttribute)
  /-- A variable that the pattern of the route captures. -/
  | route (name : String)
deriving DecidableEq

inductive Part where
  | literal (text : String)
  | reference (target : Reference)
deriving DecidableEq

inductive Atom where
  | char (c : Char)
  | reference (target : Reference)
deriving DecidableEq

structure Expression where
  parts : List Part
deriving DecidableEq

/-- Where an expression gets its values from. -/
structure Scope where
  names : NameTree String
  captured : List (String × String)
  request : Request

namespace Expression

/-! ## Compiling -/

/-- The longer of two names found, the system variable if they are equally long. -/
def prefer : Option (RequestAttribute × Nat) → Option (String × Nat) → Option (Reference × Nat)
  | some (v, m), some (name, n) => if n > m then some (.route name, n) else some (.system v, m)
  | some (v, m), none => some (.system v, m)
  | none, some (name, n) => some (.route name, n)
  | none, none => none

/-- The reference that a `$` before the text makes, with the length of its name. -/
def reference? (names : NameTree String) : List Char → Option (Reference × Nat)
  | [] => none
  | c :: cs =>
    if startsName c then
      prefer (RequestAttribute.tree.longest? (c :: cs)) (names.longest? (c :: cs))
    else none

/-- The atoms of a text without its first `skip` characters, which belong to a name before it. -/
def atomsFrom (names : NameTree String) : Nat → List Char → List Atom
  | _, [] => []
  | skip + 1, _ :: cs => atomsFrom names skip cs
  | 0, c :: cs =>
    if c = '$' then
      match reference? names cs with
      | some (target, length) => .reference target :: atomsFrom names length cs
      | none => .char c :: atomsFrom names 0 cs
    else .char c :: atomsFrom names 0 cs

def atoms (names : NameTree String) (text : List Char) : List Atom := atomsFrom names 0 text

def consChar (c : Char) : List Part → List Part
  | .literal text :: parts => .literal (String.singleton c ++ text) :: parts
  | parts => .literal (String.singleton c) :: parts

/-- The parts that atoms form, with no two literals next to each other. -/
def join : List Atom → List Part
  | [] => []
  | .char c :: atoms => consChar c (join atoms)
  | .reference target :: atoms => .reference target :: join atoms

def compile (names : NameTree String) (text : String) : Expression :=
  ⟨join (atoms names text.toList)⟩

/-! ## Values -/

/-- The value of a reference, empty for a variable that has none. -/
def referenceValue (scope : Scope) : Reference → String
  | .system v => scope.request.value v
  | .route name => (scope.captured.lookup name).getD ""

def partValue (scope : Scope) : Part → String
  | .literal text => text
  | .reference target => referenceValue scope target

def value (scope : Scope) (expression : Expression) : String :=
  String.join (expression.parts.map (partValue scope))

/-- The expression refers to nothing. -/
def isLiteral (expression : Expression) : Bool :=
  expression.parts.all fun
    | .literal _ => true
    | .reference _ => false

end Expression

/-! ## Evaluation -/

/-- What an evaluation has at hand: the cache, and the signals so far. -/
structure EvaluationState where
  cache : Cache Expression
  signals : List Signal

abbrev Evaluation := StateM EvaluationState

namespace Evaluation

def runWith {α : Type} (cache : Cache Expression) (evaluation : Evaluation α) :
    α × EvaluationState :=
  evaluation.run ⟨cache, []⟩

end Evaluation

def Expression.fetch (names : NameTree String) (text : String) : Evaluation Expression := do
  let state ← get
  let fetched := state.cache.fetch text (Expression.compile names)
  set (⟨fetched.cache, state.signals ++ fetched.access.signals state.cache.limit⟩ : EvaluationState)
  return fetched.value

namespace Scope

/-- The value of a text; the empty text needs no cache. -/
def evaluate (scope : Scope) (text : String) : Evaluation String := do
  if text.isEmpty then
    return ""
  else
    let expression ← Expression.fetch scope.names text
    return expression.value scope

/-- The value of a text, compiled anew. -/
def plainValue (scope : Scope) (text : String) : String :=
  (Expression.compile scope.names text).value scope

end Scope

end HttpGateway
