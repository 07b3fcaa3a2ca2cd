import HttpGateway.Settings.Basic

/-!
# Settings as data

`Data` is what a parser of a text format yields. Each record of the settings is read from data with
`ofData?` and written with `toData`, by the names of its fields in order (`fieldNames`). Reading
gives missing fields their defaults and ignores unknown ones; writing gives every field.
-/

namespace HttpGateway

/-! ## Data -/

inductive Data where
  | null
  | bool (b : Bool)
  | integer (n : Int)
  /-- A number written with a fraction or an exponent. -/
  | decimal (text : String)
  | text (s : String)
  | list (items : List Data)
  /-- Values by name; no name occurs twice. -/
  | record (fields : List (String × Data))

namespace Data

/-- The fields of a record by name. It may be written as a list of values in the order of the names,
from the first one on. -/
def fields? (names : List String) : Data → Option (List (String × Data))
  | .record fields => some fields
  | .list items => if items.length ≤ names.length then some (names.zip items) else none
  | _ => none

def text? : Data → Option String
  | .text s => some s
  | _ => none

/-- A natural number of at most 64 bits. -/
def word? : Data → Option UInt64
  | .integer n => if 0 ≤ n ∧ n.toNat < UInt64.size then some n.toNat.toUInt64 else none
  | _ => none

def listOf? {α : Type} (read : Data → Option α) : Data → Option (List α)
  | .list items => items.mapM read
  | _ => none

/-- A value that may be given as null. -/
def optional? {α : Type} (read : Data → Option α) : Data → Option (Option α)
  | .null => some none
  | data => (read data).map some

def ofOption {α : Type} (write : α → Data) : Option α → Data
  | none => .null
  | some value => write value

def ofWord (n : UInt64) : Data := .integer n.toNat

/-- The value of a field, or the default if it is missing. -/
def field? {α : Type} (fields : List (String × Data)) (name : String) (read : Data → Option α)
    (default : α) : Option α :=
  match fields.lookup name with
  | some data => read data
  | none => some default

end Data

/-! ## Records -/

open Data

namespace Limits

def fieldNames : List String :=
  ["max_route_count", "max_path_length", "match_budget_ms", "expression_cache_limit"]

def ofData? (data : Data) : Option Limits := do
  let fields ← data.fields? fieldNames
  let default : Limits := {}
  return {
    maxRouteCount := ← field? fields "max_route_count" word? default.maxRouteCount
    maxPathLength := ← field? fields "max_path_length" word? default.maxPathLength
    matchBudgetMs := ← field? fields "match_budget_ms" word? default.matchBudgetMs
    expressionCacheLimit :=
      ← field? fields "expression_cache_limit" word? default.expressionCacheLimit }

def toData (limits : Limits) : Data :=
  .record [
    ("max_route_count", ofWord limits.maxRouteCount),
    ("max_path_length", ofWord limits.maxPathLength),
    ("match_budget_ms", ofWord limits.matchBudgetMs),
    ("expression_cache_limit", ofWord limits.expressionCacheLimit)]

end Limits

namespace HeaderSetting

def fieldNames : List String := ["name", "values"]

def ofData? (data : Data) : Option HeaderSetting := do
  let fields ← data.fields? fieldNames
  return {
    name := ← field? fields "name" text? ""
    values := ← field? fields "values" (listOf? text?) [] }

def toData (header : HeaderSetting) : Data :=
  .record [
    ("name", .text header.name),
    ("values", .list (header.values.map .text))]

end HeaderSetting

namespace ForwardedHeaders

def fieldNames : List String := ["default_host", "proxy_name", "overrides"]

def ofData? (data : Data) : Option ForwardedHeaders := do
  let fields ← data.fields? fieldNames
  return {
    defaultHost := ← field? fields "default_host" (optional? text?) none
    proxyName := ← field? fields "proxy_name" (optional? text?) none
    overrides := ← field? fields "overrides" (listOf? HeaderSetting.ofData?) [] }

def toData (headers : ForwardedHeaders) : Data :=
  .record [
    ("default_host", ofOption .text headers.defaultHost),
    ("proxy_name", ofOption .text headers.proxyName),
    ("overrides", .list (headers.overrides.map HeaderSetting.toData))]

end ForwardedHeaders

namespace Sender

def fieldNames : List String := ["timeout_ms"]

def ofData? (data : Data) : Option Sender := do
  let fields ← data.fields? fieldNames
  return { timeoutMs := ← field? fields "timeout_ms" (optional? text?) none }

def toData (sender : Sender) : Data :=
  .record [("timeout_ms", ofOption .text sender.timeoutMs)]

end Sender

namespace ForwardedRequest

def fieldNames : List String := ["http_version", "headers", "sender"]

def ofData? (data : Data) : Option ForwardedRequest := do
  let fields ← data.fields? fieldNames
  return {
    httpVersion := ← field? fields "http_version" (optional? text?) none
    headers := ← field? fields "headers" ForwardedHeaders.ofData? {}
    sender := ← field? fields "sender" Sender.ofData? {} }

def toData (request : ForwardedRequest) : Data :=
  .record [
    ("http_version", ofOption .text request.httpVersion),
    ("headers", request.headers.toData),
    ("sender", request.sender.toData)]

end ForwardedRequest

namespace ResponseHeaders

def fieldNames : List String := ["overrides"]

def ofData? (data : Data) : Option ResponseHeaders := do
  let fields ← data.fields? fieldNames
  return { overrides := ← field? fields "overrides" (listOf? HeaderSetting.ofData?) [] }

def toData (headers : ResponseHeaders) : Data :=
  .record [("overrides", .list (headers.overrides.map HeaderSetting.toData))]

end ResponseHeaders

namespace ResponseSettings

def fieldNames : List String := ["headers"]

def ofData? (data : Data) : Option ResponseSettings := do
  let fields ← data.fields? fieldNames
  return { headers := ← field? fields "headers" ResponseHeaders.ofData? {} }

def toData (response : ResponseSettings) : Data :=
  .record [("headers", response.headers.toData)]

end ResponseSettings

namespace ProxySettings

def fieldNames : List String :=
  ["to", "correlation_id_header", "upstream_request", "downstream_response"]

def ofData? (data : Data) : Option ProxySettings := do
  let fields ← data.fields? fieldNames
  return {
    target := ← field? fields "to" text? ""
    correlationIdHeader := ← field? fields "correlation_id_header" (optional? text?) none
    request := ← field? fields "upstream_request" ForwardedRequest.ofData? {}
    response := ← field? fields "downstream_response" ResponseSettings.ofData? {} }

def toData (proxy : ProxySettings) : Data :=
  .record [
    ("to", .text proxy.target),
    ("correlation_id_header", ofOption .text proxy.correlationIdHeader),
    ("upstream_request", proxy.request.toData),
    ("downstream_response", proxy.response.toData)]

end ProxySettings

namespace RouteSettings

def fieldNames : List String := ["pattern", "proxy"]

def ofData? (data : Data) : Option RouteSettings := do
  let fields ← data.fields? fieldNames
  return {
    pattern := ← field? fields "pattern" text? ""
    proxy := ← field? fields "proxy" (optional? ProxySettings.ofData?) none }

def toData (route : RouteSettings) : Data :=
  .record [
    ("pattern", .text route.pattern),
    ("proxy", ofOption ProxySettings.toData route.proxy)]

end RouteSettings

namespace Settings

def fieldNames : List String := ["system", "routes"]

def ofData? (data : Data) : Option Settings := do
  let fields ← data.fields? fieldNames
  return {
    limits := ← field? fields "system" Limits.ofData? {}
    routes := ← field? fields "routes" (listOf? RouteSettings.ofData?) [] }

def toData (settings : Settings) : Data :=
  .record [
    ("system", settings.limits.toData),
    ("routes", .list (settings.routes.map RouteSettings.toData))]

end Settings

end HttpGateway
