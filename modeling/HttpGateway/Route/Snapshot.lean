import HttpGateway.Route.Basic
import HttpGateway.Signal

/-!
# Snapshots of the route table

A snapshot is the table that one configuration gives. `Snapshot.load` builds it: faulty routes are
left out and reported, and only a fault of the whole configuration keeps it from being built.
`Snapshot.resolve` finds the first route, in the order of the configuration, that matches a path.
-/

namespace HttpGateway

/-- A route that is left out: its place in the configuration, and why. -/
structure Rejection where
  index : Nat
  fault : RouteFault
deriving DecidableEq

structure LoadSummary where
  installed : Nat
  rejected : List Rejection
deriving DecidableEq

structure Snapshot where
  /-- Tells apart the snapshots of a gateway. -/
  generation : Nat
  limits : Limits
  routes : List Route

/-- One of the routes of one of the snapshots. -/
structure RouteKey where
  generation : Nat
  index : Nat
deriving DecidableEq

/-- A path that was resolved. It stays valid when the table changes. -/
structure Resolved where
  key : RouteKey
  limits : Limits
  route : Route
  /-- The variables captured from the path. -/
  captured : List (String × String)
  /-- The path after the part that matched. -/
  suffix : String

/-- A configuration that is refused as a whole, with all the faults that it is refused for. -/
structure SettingsRefusal where
  faults : List SettingsFault
deriving DecidableEq

def SettingsRefusal.message (refusal : SettingsRefusal) : String :=
  "Configuration rejected: " ++ ", ".intercalate (refusal.faults.map SettingsFault.message)

/-! ## Loading -/

/-- The routes of a configuration, sorted into those that are installed and those left out. -/
structure LoadedRoutes where
  installed : List Route
  rejected : List Rejection
  signals : List Signal

namespace LoadedRoutes

def empty : LoadedRoutes := ⟨[], [], []⟩

def install (route : Route) (shadowed : Bool) (later : LoadedRoutes) : LoadedRoutes :=
  { later with
    installed := route :: later.installed
    signals := (if shadowed then [.event (.routeShadowed route.settings.pattern)] else []) ++
      later.signals }

def reject (index : Nat) (pattern : String) (fault : RouteFault) (later : LoadedRoutes) :
    LoadedRoutes :=
  { later with
    rejected := ⟨index, fault⟩ :: later.rejected
    signals := .event (.routeRejected index pattern fault.message) :: .metric .routeRejected ::
      later.signals }

end LoadedRoutes

/-- Make routes ready. The first has the given place in the configuration, and `seen` holds the
shadow keys of the routes installed before it. -/
def loadRoutes (index : Nat) (seen : List String) : List RouteSettings → LoadedRoutes
  | [] => .empty
  | settings :: rest =>
    match Route.ofSettings settings with
    | .ok route =>
      (loadRoutes (index + 1) (route.shadowKey :: seen) rest).install route
        (seen.contains route.shadowKey)
    | .error fault => (loadRoutes (index + 1) seen rest).reject index settings.pattern fault

/-- A snapshot that was built, with what became of the routes and the signals of building it. -/
structure LoadedSnapshot where
  snapshot : Snapshot
  summary : LoadSummary
  signals : List Signal

namespace Snapshot

def empty (generation : Nat) (limits : Limits) : Snapshot := ⟨generation, limits, []⟩

/-- The snapshot of a configuration, unless it has a fault as a whole. -/
def load (generation : Nat) (settings : Settings) : Except SettingsRefusal LoadedSnapshot :=
  match settings.globalFaults with
  | [] =>
    let loaded := loadRoutes 0 [] settings.routes
    .ok {
      snapshot := ⟨generation, settings.limits, loaded.installed⟩
      summary := ⟨loaded.installed.length, loaded.rejected⟩
      signals := loaded.signals }
  | faults => .error ⟨faults⟩

def size (snapshot : Snapshot) : Nat := snapshot.routes.length

def isEmpty (snapshot : Snapshot) : Bool := snapshot.routes.isEmpty

/-! ## Resolving -/

/-- Try routes in order, the first of which has the given place. `expired n` tells whether the time
is used up once the route at place `n` has failed. -/
def tryRoutes (snapshot : Snapshot) (expired : Nat → Bool) (path : String) (index : Nat) :
    List Route → Outcome × Option Resolved
  | [] => (.miss, none)
  | route :: rest =>
    match route.matcher.match? path with
    | some found =>
      (.matched, some ⟨⟨snapshot.generation, index⟩, snapshot.limits, route, found.captured,
        found.suffix⟩)
    | none =>
      if expired index then (.budgetExceeded, none)
      else tryRoutes snapshot expired path (index + 1) rest

/-- Resolve a path with a clock. -/
def resolveWithin (snapshot : Snapshot) (expired : Nat → Bool) (path : String) :
    Outcome × Option Resolved :=
  if path.utf8ByteSize > snapshot.limits.maxPathLength.toNat then (.tooLong, none)
  else tryRoutes snapshot expired path 0 snapshot.routes

def resolutionEvents (snapshot : Snapshot) (path : String) : Outcome → List Event
  | .matched => []
  | .miss => [.noRoute path]
  | .tooLong => [.pathTooLong path.utf8ByteSize snapshot.limits.maxPathLength.toNat]
  | .budgetExceeded => [.budgetExceeded path snapshot.limits.matchBudgetMs.toNat]

/-- The signals of a resolution: its events, and its outcome counted once. -/
def resolutionSignals (snapshot : Snapshot) (path : String) (outcome : Outcome) : List Signal :=
  (snapshot.resolutionEvents path outcome).map .event ++ [.metric (.resolution outcome)]

/-- Resolve a path. A budget of zero is used up as soon as a route has failed; any other is taken to
last. -/
def resolve (snapshot : Snapshot) (path : String) : Outcome × Option Resolved :=
  snapshot.resolveWithin (fun _ => snapshot.limits.matchBudgetMs == 0) path

end Snapshot

end HttpGateway
