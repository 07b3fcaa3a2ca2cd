import HttpGateway.Pattern.Matching
import HttpGateway.Pattern.Written
import HttpGateway.Pattern.Visit
import HttpGateway.Settings.Basic

/-!
# Routes

A route is made from its settings: its pattern is read, checked and made ready to match, and the
names that it captures are made known to its expressions. `canonicalRoute` is the form of a pattern
under which two routes are compared.
-/

namespace HttpGateway

open Text

/-- A route pattern without outer blanks, with a `/` at both ends. -/
def canonicalRoute (pattern : String) : String :=
  let opened := match trimChars pattern.toList with
    | '/' :: cs => '/' :: cs
    | cs => '/' :: cs
  String.ofList (if opened.getLast? = some '/' then opened else opened ++ ['/'])

structure Route where
  settings : RouteSettings
  /-- The canonical form of its pattern. -/
  canonical : String
  matcher : Matcher
  /-- The names that its expressions may refer to. -/
  names : NameTree String

/-- Why a route is left out. -/
inductive RouteFault where
  /-- The pattern, as it is written in the settings, is refused. -/
  | pattern (pattern : String) (cause : PatternFault)
  | settings (cause : SettingsFault)
deriving DecidableEq

def RouteFault.message : RouteFault → String
  | pattern text cause => "Route '" ++ text ++ "': " ++ cause.message
  | settings cause => cause.message

namespace Route

/-- The matcher of a written pattern: it is read, then checked, then compiled. -/
def matcherOf (pattern : String) : Except PatternFault Matcher := do
  let tree ← Pattern.parse pattern
  tree.check
  (Matcher.compile tree).mapError .compile

def namesOf (names : List String) : Except PatternFault (NameTree String) :=
  (NameTree.ofNames names).mapError fun (name, c) => .compile (.unusableName name c)

/-- The route of settings whose own faults are left aside. -/
def ofPattern (settings : RouteSettings) : Except PatternFault Route := do
  let matcher ← matcherOf (trim settings.pattern)
  let names ← namesOf matcher.names
  return ⟨settings, canonicalRoute settings.pattern, matcher, names⟩

/-- The route of settings. A fault of the settings comes before one of the pattern. -/
def ofSettings (settings : RouteSettings) : Except RouteFault Route :=
  match settings.faults with
  | fault :: _ => .error (.settings fault)
  | [] => (ofPattern settings).mapError (.pattern settings.pattern)

/-- Of two routes with the same key, the later one can never be reached. -/
def shadowKey (route : Route) : String := route.canonical.toLower

end Route

end HttpGateway
