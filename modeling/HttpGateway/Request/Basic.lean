import HttpGateway.Request.Host
import HttpGateway.Text.NameTree

/-!
# Requests

What is known of a request when a route is resolved for it. Everything may be missing. The system
variables are those that every expression may refer to, whatever route it belongs to; each has one
name, and no two share a name (`RequestAttribute.name_injective`). `Request.value` is the text that
a system variable stands for, empty when what it needs is missing.
-/

namespace HttpGateway

/-! ## System variables -/

/-- A variable of the request or its connection. -/
inductive RequestAttribute where
  | contentLength
  | contentType
  | correlationId
  | callId
  | host
  | requestMethod
  | requestScheme
  | requestPathBase
  | requestPath
  | requestQueryString
  | requestEncodedUri
  | remoteAddress
  | remotePort
  | serverAddress
  | serverName
  | serverPort
  | serverProtocol
deriving DecidableEq

namespace RequestAttribute

def all : List RequestAttribute :=
  [contentLength, contentType, correlationId, callId, host, requestMethod, requestScheme,
   requestPathBase, requestPath, requestQueryString, requestEncodedUri, remoteAddress, remotePort,
   serverAddress, serverName, serverPort, serverProtocol]

def name : RequestAttribute → String
  | contentLength => "content_length"
  | contentType => "content_type"
  | correlationId => "correlation_id"
  | callId => "call_id"
  | host => "host"
  | requestMethod => "request_method"
  | requestScheme => "request_scheme"
  | requestPathBase => "request_path_base"
  | requestPath => "request_path"
  | requestQueryString => "request_query_string"
  | requestEncodedUri => "request_encoded_uri"
  | remoteAddress => "remote_address"
  | remotePort => "remote_port"
  | serverAddress => "server_address"
  | serverName => "server_name"
  | serverPort => "server_port"
  | serverProtocol => "server_protocol"

def tree : NameTree RequestAttribute :=
  all.foldl (fun tree v => tree.insert v.name v) NameTree.empty

def isName (text : String) : Bool := all.any (·.name == text)

theorem mem_all (v : RequestAttribute) : v ∈ all := by
  cases v <;> decide

theorem find?_name (v : RequestAttribute) : all.find? (·.name == v.name) = some v := by
  cases v <;> decide

theorem name_injective {v w : RequestAttribute} (h : v.name = w.name) : v = w := by
  have found := find?_name v
  rw [h, find?_name w] at found
  exact (Option.some.inj found).symm

theorem isName_iff {text : String} :
    isName text = true ↔ ∃ v : RequestAttribute, v.name = text := by
  simp only [isName, List.any_eq_true, beq_iff_eq]
  exact ⟨fun ⟨v, _, h⟩ => ⟨v, h⟩, fun ⟨v, h⟩ => ⟨v, mem_all v, h⟩⟩

end RequestAttribute

/-! ## Requests -/

structure Request where
  contentLength : Option UInt64 := none
  contentType : Option String := none
  correlationId : Option String := none
  callId : Option String := none
  host : Option String := none
  method : Option String := none
  scheme : Option String := none
  pathBase : Option String := none
  path : Option String := none
  /-- With its leading `?`. -/
  queryString : Option String := none
  remoteAddress : Option Address := none
  remotePort : Option UInt16 := none
  serverAddress : Option Address := none
  serverName : Option String := none
  serverPort : Option UInt16 := none
  protocol : Option String := none
deriving DecidableEq

namespace Request

/-- The full address of the request: known as soon as the scheme and the host are. -/
def encodedUri? (request : Request) : Option String := do
  let scheme ← request.scheme
  let host ← request.host
  return scheme ++ "://" ++ host ++ request.pathBase.getD "" ++ request.path.getD "" ++
    request.queryString.getD ""

def value? (request : Request) : RequestAttribute → Option String
  | .contentLength => request.contentLength.map (toString ·.toNat)
  | .contentType => request.contentType
  | .correlationId => request.correlationId
  | .callId => request.callId
  | .host => request.host
  | .requestMethod => request.method
  | .requestScheme => request.scheme
  | .requestPathBase => request.pathBase
  | .requestPath => request.path
  | .requestQueryString => request.queryString
  | .requestEncodedUri => request.encodedUri?
  | .remoteAddress => request.remoteAddress.map Address.text
  | .remotePort => request.remotePort.map (toString ·.toNat)
  | .serverAddress => request.serverAddress.map Address.text
  | .serverName => request.serverName
  | .serverPort => request.serverPort.map (toString ·.toNat)
  | .serverProtocol => request.protocol

def value (request : Request) (v : RequestAttribute) : String :=
  (request.value? v).getD ""

end Request

end HttpGateway
