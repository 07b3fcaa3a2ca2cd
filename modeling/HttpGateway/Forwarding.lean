import HttpGateway.Expression
import HttpGateway.Settings.Basic
import HttpGateway.Text.Basic

/-!
# Forwarding a request

The proxy settings of a route, evaluated for one request. Evaluation never fails: what is missing or
unusable has a default. `Forwarding.ofSettings` fixes the order in which the expressions are
evaluated; how one is evaluated is left open, so that it can be done by way of a cache or without.
-/

namespace HttpGateway

open Text

structure Forwarding where
  /-- The value of the header that names the gateway; none if the header is not sent. -/
  proxyName : Option String
  /-- The time allowed, in milliseconds. -/
  timeoutMs : Nat
  /-- The address to forward to, before the rest of the path. -/
  baseUri : String
  uri : String
  httpVersion : String
  /-- The name of the header that carries the correlation id. -/
  correlationIdHeader : String
  /-- The host to use when the request has none. -/
  defaultHost : Option String
  requestHeaders : List (String × List String)
  responseHeaders : List (String × List String)
deriving DecidableEq

namespace Forwarding

/-! ## Defaults -/

def defaultName : String := "gwcore"

/-- Four minutes. -/
def defaultTimeout : Nat := 240000

def defaultVersion : String := "2.0"

def defaultHeader : String := "x-correlation-id"

/-! ## Texts -/

def unlessBlank (text : String) : Option String := if isBlankText text then none else some text

/-- The number that decimal digits write; none if there are no digits or other characters. -/
def decimal? (cs : List Char) : Option Nat :=
  if cs ≠ [] ∧ cs.all Char.isDigit then
    some (cs.foldl (fun n c => 10 * n + (c.toNat - '0'.toNat)) 0)
  else none

/-- The longest time, the greatest signed word of 64 bits. -/
def maxTimeout : Nat := 9223372036854775807

/-- The time that a text writes: decimal digits, perhaps after a `+`, between blanks, and neither
zero nor too long. -/
def timeout? (text : String) : Option Nat := do
  let digits := match trimChars text.toList with
    | '+' :: cs => cs
    | cs => cs
  let n ← decimal? digits
  if 1 ≤ n ∧ n ≤ maxTimeout then some n else none

/-- A base address, the rest of a path, and a query string, with one `/` after the base. -/
def joinUri (base suffix query : String) : String :=
  String.ofList ((base.toList.reverse.dropWhile (· == '/')).reverse ++
    '/' :: suffix.toList.dropWhile (· == '/') ++ query.toList)

/-! ## Evaluation -/

section Evaluation

variable {m : Type → Type} [Monad m] (evaluate : String → m String)

/-- The value of an optional expression; none if it is missing or blank. -/
def value? : Option String → m (Option String)
  | none => return none
  | some text => return unlessBlank (← evaluate text)

/-- The name of the gateway: the default if the expression is missing, none if it is blank. -/
def nameOf : Option String → m (Option String)
  | none => return some defaultName
  | some text => value? evaluate (some text)

/-- The time allowed: the default if the value is missing or writes no time. -/
def timeoutOf (timeout : Option String) : m Nat :=
  return ((← value? evaluate timeout).bind timeout?).getD defaultTimeout

/-- The address to forward to, before the rest of the path. -/
def baseUriOf (target : String) : m String := return trim (← evaluate target)

def uriOf (target suffix query : String) : m String :=
  return joinUri (← baseUriOf evaluate target) suffix query

/-- The protocol version: the default if the value is missing. -/
def versionOf (version : Option String) : m String :=
  return ((← value? evaluate version).map trim).getD defaultVersion

def headersOf (headers : List HeaderSetting) : m (List (String × List String)) :=
  headers.mapM fun header => return (trim header.name, ← header.values.mapM evaluate)

/-- Evaluate proxy settings for a request with a query string, given the path after the part that
matched. The expressions are evaluated in the order of the fields. -/
def ofSettings (proxy : ProxySettings) (suffix query : String) : m Forwarding :=
  return {
    proxyName := ← nameOf evaluate proxy.request.headers.proxyName
    timeoutMs := ← timeoutOf evaluate proxy.request.sender.timeoutMs
    baseUri := ← baseUriOf evaluate proxy.target
    uri := ← uriOf evaluate proxy.target suffix query
    httpVersion := ← versionOf evaluate proxy.request.httpVersion
    correlationIdHeader :=
      ((proxy.correlationIdHeader.bind unlessBlank).map trim).getD defaultHeader
    defaultHost := ← value? evaluate proxy.request.headers.defaultHost
    requestHeaders := ← headersOf evaluate proxy.request.headers.overrides
    responseHeaders := ← headersOf evaluate proxy.response.headers.overrides }

end Evaluation

end Forwarding

end HttpGateway
