import HttpGateway.Request.Basic
import HttpGateway.Text.Basic

/-!
# Trace identifiers

A call is traced by a correlation id, which the caller may give, and by a call id of its own. A
fresh identifier is a random identifier of version 4, written as 32 hexadecimal digits.
-/

namespace HttpGateway

open Text

namespace TraceId

/-- The hexadecimal digits of a number, lower case, to a given width. -/
def hexDigits : Nat → Nat → List Char
  | 0, _ => []
  | width + 1, n => hexDigits width (n / 16) ++ [Nat.digitChar (n % 16)]

/-- The identifier with the given random bits, of which six give way to the version and the
variant. -/
def ofRandom (high low : UInt64) : String :=
  let high := (high &&& 0xFFFFFFFFFFFF0FFF) ||| 0x4000
  let low := (low &&& 0x3FFFFFFFFFFFFFFF) ||| 0x8000000000000000
  String.ofList (hexDigits 16 high.toNat ++ hexDigits 16 low.toNat)

/-- A hexadecimal digit, lower case. -/
def isHexDigit (c : Char) : Bool := c.isDigit || ('a' ≤ c && c ≤ 'f')

/-- A text of the form that `ofRandom` gives. -/
def isWellFormed (text : String) : Bool :=
  let cs := text.toList
  cs.length == 32 && cs.all isHexDigit && cs[12]? == some '4' &&
    (cs[16]?.any fun c => c == '8' || c == '9' || c == 'a' || c == 'b')

end TraceId

/-- Give a request its trace identifiers: the correlation id from the caller unless it is missing or
blank, and otherwise a fresh one; the call id always fresh. -/
def Request.traced (request : Request) (given : Option String)
    (freshCorrelationId freshCallId : String) : Request :=
  let correlationId := match given with
    | some text => if isBlankText text then freshCorrelationId else trim text
    | none => freshCorrelationId
  { request with correlationId := some correlationId, callId := some freshCallId }

end HttpGateway
