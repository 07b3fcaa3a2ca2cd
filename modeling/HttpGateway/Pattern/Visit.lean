import HttpGateway.Pattern.Basic
import HttpGateway.Pattern.Fault
import HttpGateway.Request.Basic

/-!
# Visiting a pattern

`walk` meets the parts of a pattern depth first and from left to right, and runs an action at each;
an action that fails ends the walk. `visits` lists what a walk meets.

Three walks check the captures of a pattern: a name is used by one capture only, no capture has the
name of a system variable, and no wildcard comes directly after a capture. `Pattern.check` applies
the rules in this order, so a pattern may be read and still be refused.
-/

namespace HttpGateway

/-- What a walk meets. An optional is met twice, before and after its child. -/
inductive Visit where
  | literal (text : String)
  | separator
  | capture (name : String)
  | wildcard
  | enter
  | leave
deriving DecidableEq

namespace Pattern

mutual

def visits : Pattern → List Visit
  | .literal text => [.literal text]
  | .separator => [.separator]
  | .capture name => [.capture name]
  | .wildcard => [.wildcard]
  | .optional child => .enter :: (visits child ++ [.leave])
  | .sequence children => visitsAll children

def visitsAll : List Pattern → List Visit
  | [] => []
  | pattern :: patterns => visits pattern ++ visitsAll patterns

end

section Walk

variable {m : Type → Type} [Monad m]

mutual

def walk (visit : Visit → m Unit) : Pattern → m Unit
  | .literal text => visit (.literal text)
  | .separator => visit .separator
  | .capture name => visit (.capture name)
  | .wildcard => visit .wildcard
  | .optional child => do
    visit .enter
    walk visit child
    visit .leave
  | .sequence children => walkAll visit children

def walkAll (visit : Visit → m Unit) : List Pattern → m Unit
  | [] => pure ()
  | pattern :: patterns => do
    walk visit pattern
    walkAll visit patterns

end

end Walk

mutual

/-- The names of the captures, in order, a repeated name repeated. -/
def captureNames : Pattern → List String
  | .literal _ => []
  | .separator => []
  | .capture name => [name]
  | .wildcard => []
  | .optional child => captureNames child
  | .sequence children => captureNamesAll children

def captureNamesAll : List Pattern → List String
  | [] => []
  | pattern :: patterns => captureNames pattern ++ captureNamesAll patterns

end

/-! ## Rules on captures -/

/-- A check that keeps a state while it walks over a pattern. -/
abbrev Checking (σ : Type) := StateT σ (Except PatternFault)

/-- Refuse a name that an earlier capture has. The state holds the names so far. -/
def visitUnique : Visit → Checking (List String) Unit
  | .capture name => do
    let seen ← get
    if seen.contains name then throw (.repeatedName name)
    set (name :: seen)
  | _ => pure ()

def visitUnreserved : Visit → Checking Unit Unit
  | .capture name => if RequestAttribute.isName name then throw (.reservedName name) else pure ()
  | _ => pure ()

/-- Refuse a wildcard directly after a capture. The state tells whether the last leaf was a
capture; the borders of an optional are no leaves. -/
def visitSeparated : Visit → Checking Bool Unit
  | .literal _ => set false
  | .separator => set false
  | .capture _ => set true
  | .wildcard => do if ← get then throw .wildcardAfterCapture
  | .enter => pure ()
  | .leave => pure ()

def checkUnique (pattern : Pattern) : Except PatternFault Unit :=
  (walk visitUnique pattern).run' []

def checkUnreserved (pattern : Pattern) : Except PatternFault Unit :=
  (walk visitUnreserved pattern).run' ()

def checkSeparated (pattern : Pattern) : Except PatternFault Unit :=
  (walk visitSeparated pattern).run' false

/-- All three rules; the first that is broken decides the fault. -/
def check (pattern : Pattern) : Except PatternFault Unit := do
  checkUnique pattern
  checkUnreserved pattern
  checkSeparated pattern

end Pattern

end HttpGateway
