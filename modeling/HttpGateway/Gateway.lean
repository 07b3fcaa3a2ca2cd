import HttpGateway.Expression
import HttpGateway.Route.Snapshot
import HttpGateway.Forwarding

/-!
# The gateway

The state of a gateway: the snapshot in force, and the caches of compiled expressions. Each route of
each snapshot has a cache of its own, also of snapshots no longer in force, since paths resolved
with them stay valid. A configuration that is refused leaves the state as it was.
-/

namespace HttpGateway

/-- The caches that have been used, by route. A route that is not listed has an empty cache. -/
abbrev CachePool := List (RouteKey × Cache Expression)

def CachePool.put (key : RouteKey) (cache : Cache Expression) : CachePool → CachePool
  | [] => [(key, cache)]
  | (other, old) :: rest =>
    if other = key then (other, cache) :: rest else (other, old) :: CachePool.put key cache rest

structure Gateway where
  current : Snapshot
  /-- The generation of the next snapshot. -/
  nextGeneration : Nat
  caches : CachePool

namespace Gateway

def start (limits : Limits) : Gateway := ⟨.empty 0 limits, 1, []⟩

/-- Put a table without routes in force. -/
def reset (gateway : Gateway) (limits : Limits) : Gateway :=
  { gateway with
    current := .empty gateway.nextGeneration limits
    nextGeneration := gateway.nextGeneration + 1 }

structure Reloaded where
  gateway : Gateway
  result : Except SettingsRefusal LoadSummary
  signals : List Signal

def reload (gateway : Gateway) (settings : Settings) : Reloaded :=
  match Snapshot.load gateway.nextGeneration settings with
  | .ok loaded =>
    { gateway :=
        { gateway with
          current := loaded.snapshot
          nextGeneration := gateway.nextGeneration + 1 }
      result := .ok loaded.summary
      signals := loaded.signals ++
        [.metric (.routesInstalled loaded.summary.installed),
         .event (.tableLoaded loaded.summary.installed loaded.summary.rejected.length)] }
  | .error refusal =>
    { gateway := gateway
      result := .error refusal
      signals := [.event (.loadFailed refusal.message)] }

/-- The cache of a route of a snapshot with the given limits. -/
def cache (gateway : Gateway) (key : RouteKey) (limits : Limits) : Cache Expression :=
  (gateway.caches.lookup key).getD (.empty limits.expressionCacheLimit.toNat)

structure Evaluated (α : Type) where
  gateway : Gateway
  value : α
  /-- The number of entries in the cache of the route afterwards. -/
  cached : Nat
  signals : List Signal

/-- Run an evaluation with the cache of the route of a resolved path. -/
def evaluate {α : Type} (gateway : Gateway) (resolved : Resolved) (evaluation : Evaluation α) :
    Evaluated α :=
  let (value, state) := evaluation.runWith (gateway.cache resolved.key resolved.limits)
  { gateway := { gateway with caches := gateway.caches.put resolved.key state.cache }
    value := value
    cached := state.cache.size
    signals := state.signals }

end Gateway

def Resolved.scope (resolved : Resolved) (request : Request) : Scope :=
  ⟨resolved.route.names, resolved.captured, request⟩

end HttpGateway
