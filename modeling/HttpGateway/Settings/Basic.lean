import HttpGateway.Text.Basic

/-!
# Settings

What a configuration says: the limits of the gateway, and its routes with their proxy settings.
Everything has a default. Texts called expressions may refer to variables.

Some faults can be told before any request arrives (`Settings.faults`). A fault of the whole
configuration keeps it from being used; a fault of a route leaves out that route.
-/

namespace HttpGateway

open Text

structure Limits where
  /-- The most routes that a configuration may declare. -/
  maxRouteCount : UInt64 := 1024
  /-- Longer paths, in bytes, match no route. -/
  maxPathLength : UInt64 := 8192
  /-- The time for resolving one path, in milliseconds. -/
  matchBudgetMs : UInt64 := 1000
  /-- The most expressions that are kept compiled for one route. -/
  expressionCacheLimit : UInt64 := 10000
deriving DecidableEq

/-- A header that is set; its values are expressions. -/
structure HeaderSetting where
  name : String := ""
  values : List String := []
deriving DecidableEq

structure ForwardedHeaders where
  /-- The host to use when the request has none, an expression. -/
  defaultHost : Option String := none
  /-- The value of the header that names the gateway, an expression. -/
  proxyName : Option String := none
  overrides : List HeaderSetting := []
deriving DecidableEq

structure Sender where
  /-- The time allowed, in milliseconds, an expression. -/
  timeoutMs : Option String := none
deriving DecidableEq

structure ForwardedRequest where
  /-- The protocol version to use, an expression. -/
  httpVersion : Option String := none
  headers : ForwardedHeaders := {}
  sender : Sender := {}
deriving DecidableEq

structure ResponseHeaders where
  overrides : List HeaderSetting := []
deriving DecidableEq

structure ResponseSettings where
  headers : ResponseHeaders := {}
deriving DecidableEq

structure ProxySettings where
  /-- The address to forward to, an expression. -/
  target : String := ""
  /-- The header that carries the correlation id. -/
  correlationIdHeader : Option String := none
  request : ForwardedRequest := {}
  response : ResponseSettings := {}
deriving DecidableEq

structure RouteSettings where
  pattern : String := ""
  proxy : Option ProxySettings := none
deriving DecidableEq

/-- A whole configuration. Routes come in the order in which they are tried. -/
structure Settings where
  limits : Limits := {}
  routes : List RouteSettings := []
deriving DecidableEq

/-! ## Faults -/

inductive SettingsFault where
  | tooManyRoutes (count max : Nat)
  | zeroPathLimit
  | blankTarget (pattern : String)
  | blankHeaderName (pattern : String)
deriving DecidableEq

namespace SettingsFault

def message : SettingsFault → String
  | tooManyRoutes count max =>
    "Configuration declares " ++ toString count ++ " routes, the maximum is " ++ toString max
  | zeroPathLimit => "system.max_path_length must be greater than zero"
  | blankTarget pattern => "Route '" ++ pattern ++ "': proxy 'to' must not be empty"
  | blankHeaderName pattern => "Route '" ++ pattern ++ "': header override with an empty name"

/-- The pattern of the route at fault, for a fault of a route. -/
def pattern? : SettingsFault → Option String
  | tooManyRoutes .. => none
  | zeroPathLimit => none
  | blankTarget pattern => some pattern
  | blankHeaderName pattern => some pattern

/-- A fault of the whole configuration. -/
def concernsWhole (fault : SettingsFault) : Bool := fault.pattern?.isNone

end SettingsFault

/-- The headers that the route sets, on the forwarded request and on the response. -/
def ProxySettings.overrides (proxy : ProxySettings) : List HeaderSetting :=
  proxy.request.headers.overrides ++ proxy.response.headers.overrides

/-- The faults of a route, apart from those of its pattern. -/
def RouteSettings.faults (route : RouteSettings) : List SettingsFault :=
  match route.proxy with
  | none => []
  | some proxy =>
    (if isBlankText proxy.target then [.blankTarget route.pattern] else []) ++
      (if proxy.overrides.any (isBlankText ·.name) then [.blankHeaderName route.pattern] else [])

namespace Settings

def globalFaults (settings : Settings) : List SettingsFault :=
  (if settings.routes.length > settings.limits.maxRouteCount.toNat then
    [.tooManyRoutes settings.routes.length settings.limits.maxRouteCount.toNat] else []) ++
    (if settings.limits.maxPathLength = 0 then [.zeroPathLimit] else [])

/-- All faults: first those of the whole configuration, then those of each route. -/
def faults (settings : Settings) : List SettingsFault :=
  settings.globalFaults ++ settings.routes.flatMap RouteSettings.faults

end Settings

end HttpGateway
