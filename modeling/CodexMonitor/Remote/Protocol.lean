import CodexMonitor.Approvals.Rules

namespace CodexMonitor.Remote

open Text Approvals

/-!
# Remote — the lines of the protocol

`remote_backend/protocol.rs`: requests carry a number, and a line is the response to the
request whose number it carries, or a notification.

* `get`, `asStr`, `asU64` — the accessors of a JSON value that the code uses.
* `buildRequestLine` — the request sent for a call.
* `parseIncomingLine` — what a received line means.
-/

/-- The entry of an object; other values have none. -/
def get (key : Text) : Json → Option Json
  | .object entries => entry key entries
  | _ => none

def asStr : Json → Option Text
  | .string t => some t
  | _ => none

/-- The number that a text of digits stands for. -/
def decimal (digits : Text) : Nat :=
  digits.foldl (fun n c => 10 * n + (c.toNat - '0'.toNat)) 0

/-- A number without sign, fraction and exponent that fits 64 bits. -/
def asU64 : Json → Option Nat
  | .number digits =>
      if ¬ digits.isEmpty ∧ digits.all Char.isDigit ∧ decimal digits < 2 ^ 64 then
        some (decimal digits)
      else none
  | _ => none

def disconnectedMessage : Text := "remote backend disconnected".toList

/-- The object sent for a call.  Writing it as text cannot fail. -/
def buildRequestLine (id : Nat) (method : Text) (params : Json) : Json :=
  .object [("id".toList, .number (Nat.toDigits 10 id)), ("method".toList, .string method),
    ("params".toList, params)]

inductive IncomingMessage
  | response (id : Nat) (payload : Except Text Json)
  | notification (method : Text) (params : Json)

/-- The meaning of a line, given as the JSON value it parses to; `none` for a line that is
    not JSON. -/
def parseIncomingLine (line : Option Json) : Option IncomingMessage := do
  let message ← line
  match (get "id".toList message).bind asU64 with
  | some id =>
      match get "error".toList message with
      | some error =>
          let text := ((get "message".toList error).bind asStr).getD "remote error".toList
          return .response id (.error text)
      | none => return .response id (.ok ((get "result".toList message).getD .null))
  | none =>
      let method := ((get "method".toList message).bind asStr).getD []
      if method.isEmpty then none
      else return .notification method ((get "params".toList message).getD .null)

end CodexMonitor.Remote
