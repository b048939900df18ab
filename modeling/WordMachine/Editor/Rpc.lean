import WordMachine.Editor.Protocol
import WordMachine.Json.Reader
import WordMachine.Json.Writer

/-!
# Messages

Editors send requests, which have an identity and are answered, and
notifications, which have none and are not.  Each message travels behind a
header that gives its length.
-/

namespace WordMachine.Editor

/-- A message of the remote procedure call protocol. -/
def message (members : List (String × Json)) : Json :=
  .record (("jsonrpc", .ofString "2.0") :: members)

def noticeMessage (n : Notice) : Json :=
  message [("method", .ofString noticeMethod), ("params", n.toJson)]

def errorMessage (id : Json) (code : Int) (wording : Text) : Json :=
  message [("id", id),
    ("error", .record [("code", .ofInt code), ("message", .string wording)])]

def answerMessage (id : Json) : Except Rejection Reply → Json
  | .error .unknownMethod =>
    errorMessage id (-32601) (Text.ofString "method not supported")
  | .error .invalidParams =>
    errorMessage id (-32602) (Text.ofString "invalid params")
  | .ok ⟨.error fault, _⟩ => errorMessage id (-32603) fault.message
  | .ok ⟨.ok answer, _⟩ => message [("id", id), ("result", answer.toJson)]

/-- The notices that come with the outcome of a call. -/
def noticesOf : Except Rejection Reply → List Notice
  | .ok reply => reply.notices
  | .error _ => []

/-- Serve one message and give the messages to send. -/
def Session.exchange (s : Session) (incoming : Json) : Session × List Json :=
  let params := (incoming.member? "params").getD .null
  match incoming.member? "method" with
  | some (.string name) =>
    let (s, outcome) := s.receive name params
    let answers := ((incoming.member? "id").map fun id =>
      answerMessage id outcome).toList
    (s, answers ++ (noticesOf outcome).map noticeMessage)
  | _ => (s, [])

/-- Serve one message as it travels; what is no message is passed over. -/
def Session.exchangeText (s : Session) (incoming : Text) :
    Session × List Text :=
  match Json.read? incoming with
  | none => (s, [])
  | some j =>
    let (s, outgoing) := s.exchange j
    (s, outgoing.map Json.write)

/-- A message with its header. -/
def framed (content : Text) : Text :=
  Text.ofString "Content-Length: " ++ Text.ofNat content.length ++
    Text.ofString "\r\n\r\n" ++ content

/-- The length that a line of a header gives. -/
def lengthIn? (line : Text) : Option Nat :=
  let (name, rest) := line.span (· != Text.colon)
  if Text.isNamed (Text.ofString "content-length") name then
    Json.digits? ((rest.drop 1).filter fun b => Text.isDigitByte b)
  else none

end WordMachine.Editor
