/-!
# Signals

What the gateway tells its surroundings besides its answers: updates of metrics and events for the
log. Operations return the signals they emit, in order.
-/

namespace HttpGateway

/-! ## Metrics -/

inductive Outcome where
  | matched
  | miss
  | tooLong
  | budgetExceeded
deriving DecidableEq

def Outcome.label : Outcome → String
  | .matched => "matched"
  | .miss => "miss"
  | .tooLong => "too_long"
  | .budgetExceeded => "budget_exceeded"

inductive Metric where
  | resolution (outcome : Outcome)
  | routeRejected
  /-- The table now holds this many routes. -/
  | routesInstalled (count : Nat)
  | expressionMiss
  | expressionInsert
deriving DecidableEq

/-- The name of the metric, with its label if it has one. -/
def Metric.name : Metric → String
  | .resolution outcome =>
    "gateway_route_resolutions_total" ++ "\x7boutcome=" ++ outcome.label ++ "\x7d"
  | .routeRejected => "gateway_routes_rejected_total"
  | .routesInstalled _ => "gateway_routes_installed"
  | .expressionMiss => "gateway_expression_cache_misses_total"
  | .expressionInsert => "gateway_expression_cache_inserts_total"

/-- A total after an update: a counter grows by one, a gauge is set. -/
def Metric.update (total : Nat) : Metric → Nat
  | .routesInstalled count => count
  | _ => total + 1

/-! ## Events -/

inductive Level where
  | error
  | warn
  | info
  | debug
deriving DecidableEq

def Level.name : Level → String
  | .error => "ERROR"
  | .warn => "WARN"
  | .info => "INFO"
  | .debug => "DEBUG"

inductive Event where
  | pathTooLong (length max : Nat)
  | budgetExceeded (path : String) (budgetMs : Nat)
  | noRoute (path : String)
  /-- A configuration is refused as a whole. -/
  | loadFailed (reason : String)
  | tableLoaded (installed rejected : Nat)
  | routeRejected (index : Nat) (pattern reason : String)
  /-- A route can never be reached. -/
  | routeShadowed (pattern : String)
  /-- A cache holds as many expressions as it may. -/
  | cacheFull (limit : Nat)
deriving DecidableEq

namespace Event

def level : Event → Level
  | pathTooLong .. => .debug
  | budgetExceeded .. => .warn
  | noRoute .. => .debug
  | loadFailed .. => .error
  | tableLoaded .. => .info
  | routeRejected .. => .warn
  | routeShadowed .. => .warn
  | cacheFull .. => .debug

def message : Event → String
  | pathTooLong .. => "Path too long to route"
  | budgetExceeded .. => "Route matching budget exceeded"
  | noRoute .. => "No route matched"
  | loadFailed .. => "Failed to load routes. Keeping current configuration."
  | tableLoaded .. => "Route table loaded"
  | routeRejected .. => "Route rejected"
  | routeShadowed .. => "Route is shadowed by an earlier route with the same pattern"
  | cacheFull .. => "Expression cache is full, compiling per call"

def fields : Event → List (String × String)
  | pathTooLong length max => [("length", toString length), ("max", toString max)]
  | budgetExceeded path budgetMs => [("path", path), ("budget_ms", toString budgetMs)]
  | noRoute path => [("path", path)]
  | loadFailed reason => [("error", reason)]
  | tableLoaded installed rejected =>
    [("installed", toString installed), ("rejected", toString rejected)]
  | routeRejected index pattern reason =>
    [("index", toString index), ("pattern", pattern), ("error", reason)]
  | routeShadowed pattern => [("pattern", pattern)]
  | cacheFull limit => [("limit", toString limit)]

end Event

/-! ## Signals -/

inductive Signal where
  | metric (update : Metric)
  | event (entry : Event)
deriving DecidableEq

namespace Signal

def metrics (signals : List Signal) : List Metric :=
  signals.filterMap fun
    | .metric u => some u
    | .event _ => none

def events (signals : List Signal) : List Event :=
  signals.filterMap fun
    | .metric _ => none
    | .event e => some e

/-- Add an update to the totals by name. -/
def addTotal (update : Metric) : List (String × Nat) → List (String × Nat)
  | [] => [(update.name, update.update 0)]
  | (name, total) :: totals =>
    if name = update.name then (name, update.update total) :: totals
    else (name, total) :: addTotal update totals

/-- What the signals add up to: for each counter its increase, for each gauge its last value. -/
def totals (signals : List Signal) : List (String × Nat) :=
  (metrics signals).foldl (fun totals update => addTotal update totals) []

end Signal

end HttpGateway
