import HttpGateway.Gateway

/-!
# Sessions

A session is a gateway in use: besides the gateway it holds, under names, the snapshots and the
resolved paths that its users keep. `Session.step` says what each step answers, what it changes and
which signals it emits.
-/

namespace HttpGateway

structure Session where
  gateway : Gateway
  snapshots : List (String × Snapshot)
  /-- Resolved paths; none for a path that no route matched. -/
  held : List (String × Option Resolved)

inductive Step where
  /-- Start over with a table without routes. -/
  | reset (limits : Limits)
  /-- Start over with a configuration; if it is refused, go on as before. -/
  | restart (settings : Settings)
  | reload (settings : Settings)
  /-- Keep the snapshot in force under a name. -/
  | keep (name : String)
  /-- Resolve a path, with a kept snapshot or the one in force, and perhaps hold the result. -/
  | resolve (path : String) (kept : Option String) (hold : Option String)
  | evaluate (held : String) (request : Request) (text : String)
  | forward (held : String) (request : Request)
  /-- Evaluate an expression for a held result whose route has proxy settings. -/
  | evaluateForward (held : String) (request : Request) (text : String)

inductive Answer where
  | done
  | refused (refusal : SettingsRefusal)
  | loaded (summary : LoadSummary)
  | kept (snapshot : Snapshot)
  | resolved (result : Option Resolved)
  /-- The value of an expression, and the number of entries in the cache of the route. -/
  | value (text : String) (cached : Nat)
  | forwarding (route : Route) (proxy : ProxySettings) (evaluated : Forwarding)
      (cached : Nat)
  /-- Nothing is there that the step could work on. -/
  | absent

structure Turn where
  session : Session
  answer : Answer
  signals : List Signal

namespace Session

def start (limits : Limits) : Session := ⟨.start limits, [], []⟩

/-- The held result of a name, if a route matched. -/
def held? (session : Session) (name : String) : Option Resolved :=
  (session.held.lookup name).join

/-- A step that changes and emits nothing. -/
def quiet (session : Session) (answer : Answer) : Turn := ⟨session, answer, []⟩

/-- Put a configuration in force: `fallback` is the gateway to go on with if it is refused. -/
def loadWith (session : Session) (gateway fallback : Gateway) (settings : Settings)
    (answer : LoadSummary → Answer) : Turn :=
  let reloaded := gateway.reload settings
  match reloaded.result with
  | .ok summary => ⟨{ session with gateway := reloaded.gateway }, answer summary, reloaded.signals⟩
  | .error refusal => ⟨{ session with gateway := fallback }, .refused refusal, reloaded.signals⟩

def resolveWith (session : Session) (snapshot : Snapshot) (path : String) (hold : Option String) :
    Turn :=
  let (outcome, result) := snapshot.resolve path
  { session :=
      match hold with
      | some name => { session with held := (name, result) :: session.held }
      | none => session
    answer := .resolved result
    signals := snapshot.resolutionSignals path outcome }

def evaluateWith {α : Type} (session : Session) (resolved : Resolved) (evaluation : Evaluation α)
    (answer : α → Nat → Answer) : Turn :=
  let evaluated := session.gateway.evaluate resolved evaluation
  ⟨{ session with gateway := evaluated.gateway }, answer evaluated.value evaluated.cached,
    evaluated.signals⟩

def step (session : Session) : Step → Turn
  | .reset limits =>
    { session with gateway := session.gateway.reset limits }.quiet .done
  | .restart settings =>
    session.loadWith (session.gateway.reset settings.limits) session.gateway settings fun _ => .done
  | .reload settings => session.loadWith session.gateway session.gateway settings .loaded
  | .keep name =>
    let snapshot := session.gateway.current
    { session with snapshots := (name, snapshot) :: session.snapshots }.quiet (.kept snapshot)
  | .resolve path none hold => session.resolveWith session.gateway.current path hold
  | .resolve path (some kept) hold =>
    match session.snapshots.lookup kept with
    | some snapshot => session.resolveWith snapshot path hold
    | none => session.quiet .absent
  | .evaluate held request text =>
    match session.held? held with
    | some resolved =>
      session.evaluateWith resolved ((resolved.scope request).evaluate text) .value
    | none => session.quiet .absent
  | .forward held request =>
    match session.held? held with
    | some resolved =>
      match resolved.route.settings.proxy with
      | some proxy =>
        session.evaluateWith resolved
          (Forwarding.ofSettings (resolved.scope request).evaluate proxy resolved.suffix
            (request.queryString.getD ""))
          (.forwarding resolved.route proxy)
      | none => session.quiet .absent
    | none => session.quiet .absent
  | .evaluateForward held request text =>
    match session.held? held with
    | some resolved =>
      match resolved.route.settings.proxy with
      | some _ => session.evaluateWith resolved ((resolved.scope request).evaluate text) .value
      | none => session.quiet .absent
    | none => session.quiet .absent

end Session

end HttpGateway
