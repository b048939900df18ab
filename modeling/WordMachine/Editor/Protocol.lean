import WordMachine.Editor.Introduction
import WordMachine.Editor.Session
import WordMachine.Json.Shape

/-!
# The editor protocol

Calls arrive as a method name with JSON parameters, and answers leave as JSON.
Parameters that do not have the right shape are refused as a whole.
-/

namespace WordMachine.Editor

open Json (Shape)

/-! ## Shapes -/

/-- What tells work in progress apart: a number or a text. -/
def tokenShape : Shape :=
  .either .signed .text

def documentShape : Shape :=
  .record [("uri", .text)]

def cursorShape : Shape :=
  .record [("line", .unsigned), ("character", .unsigned)]

/-- The parameters of a call about a place, `more` among them. -/
def queryShape (more : List (String × Shape)) : Shape :=
  .record ([("textDocument", documentShape), ("position", cursorShape),
    ("workDoneToken", tokenShape)] ++ more)

def changeShape : Shape :=
  .record [("range", .record [("start", cursorShape), ("end", cursorShape)]),
    ("rangeLength", .unsigned), ("text", .text)]

/-! ## Calls -/

def documentOf (params : Json) : Text :=
  Json.lastText (Json.pick "uri" (Json.pick "textDocument" [params]))

def cursorOf (params : Json) : Cursor :=
  let position := Json.pick "position" [params]
  ⟨Json.lastUnsigned (Json.pick "line" position),
    Json.lastUnsigned (Json.pick "character" position)⟩

def changesOf (params : Json) : List Json :=
  Json.lastElements (Json.pick "contentChanges" [params])

/-- The new text of a document, if the last change gives all of it. -/
def wholeText? (changes : List Json) : Option Text :=
  changes.getLast?.bind fun change =>
    if Json.lastIsGiven (Json.pick "range" [change]) then none
    else some (Json.lastText (Json.pick "text" [change]))

/-- A method: the shape of its parameters and the call they make. -/
structure Method where
  shape : Shape
  call : Json → Call

def methods : List (String × Method) :=
  let partialResult : String × Shape := ("partialResultToken", tokenShape)
  [("initialize", ⟨Introduction.shape, fun _ => .introduce⟩),
    ("initialized", ⟨.record [], fun _ => .introduced⟩),
    ("shutdown", ⟨.any, fun _ => .shutdown⟩),
    ("$/setTrace", ⟨.record [("value", .text)], fun _ => .setTrace⟩),
    ("textDocument/didOpen",
      ⟨.record [("textDocument", .record [("uri", .text), ("languageId", .text),
          ("version", .signed), ("text", .text)])],
        fun params => .opened (documentOf params)
          (Json.lastText (Json.pick "text"
            (Json.pick "textDocument" [params])))⟩),
    ("textDocument/didChange",
      ⟨.record [
          ("textDocument", .record [("uri", .text), ("version", .signed)]),
          ("contentChanges", .list changeShape)],
        fun params =>
          .changed (documentOf params) (wholeText? (changesOf params))⟩),
    ("textDocument/didClose",
      ⟨.record [("textDocument", documentShape)],
        fun params => .closed (documentOf params)⟩),
    ("textDocument/completion",
      ⟨queryShape [partialResult,
          ("context", .record [("triggerKind", .signed),
            ("triggerCharacter", .text)])],
        fun params => .complete (documentOf params) (cursorOf params)⟩),
    ("textDocument/hover",
      ⟨queryShape [],
        fun params => .explain (documentOf params) (cursorOf params)⟩),
    ("textDocument/definition",
      ⟨queryShape [partialResult],
        fun params => .define (documentOf params) (cursorOf params)⟩),
    ("textDocument/references",
      ⟨queryShape [partialResult,
          ("context", .record [("includeDeclaration", .flag)])],
        fun params => .refer (documentOf params) (cursorOf params)
          (Json.lastFlag (Json.pick "includeDeclaration"
            (Json.pick "context" [params])))⟩),
    ("textDocument/documentSymbol",
      ⟨.record [("textDocument", documentShape), ("workDoneToken", tokenShape),
          partialResult],
        fun params => .outline (documentOf params)⟩)]

/-- Why a message is not a call. -/
inductive Rejection where
  | unknownMethod
  | invalidParams
  deriving DecidableEq, Repr

/-- The call that a method name and parameters make. -/
def callOf (name : Text) (params : Json) : Except Rejection Call :=
  match methods.find? fun entry => Text.ofString entry.1 == name with
  | none => .error .unknownMethod
  | some (_, method) =>
    if method.shape.fits params then .ok (method.call params)
      else .error .invalidParams

/-- Serve a message.  Before the editor has introduced itself nothing else is
looked at. -/
def Session.receive (s : Session) (name : Text) (params : Json) :
    Session × Except Rejection Reply :=
  if !s.ready && name != Text.ofString "initialize" then
    (s, .ok ⟨.error notReady, []⟩)
  else match callOf name params with
    | .error rejection => (s, .error rejection)
    | .ok call =>
      let (s, reply) := s.handle call
      (s, .ok reply)

/-! ## Answers -/

def serverName : String := "wordvm-lsp"

def serverVersion : String := "0.1.0"

def placeJson (line column : Nat) : Json :=
  .record [("line", .ofNat line), ("character", .ofNat column)]

def Span.toJson (s : Span) : Json :=
  .record [("start", placeJson s.line s.start),
    ("end", placeJson s.line s.stop)]

/-- The JSON form of a list in an answer; an empty one is left out. -/
def listJson {α : Type} (f : α → Json) : List α → Json
  | [] => .null
  | items => .array (items.map f)

def CompletionKind.number : CompletionKind → Nat
  | .mnemonic => 14
  | .label => 18
  | .native => 3

def Completion.toJson (c : Completion) : Json :=
  .record [("label", .string c.label), ("kind", .ofNat c.kind.number),
    ("detail", .string c.detail), ("insertText", .string c.label)]

def explanationJson (text : Text) : Json :=
  .record [("contents",
    .record [("kind", .ofString "markdown"), ("value", .string text)])]

def Location.toJson (l : Location) : Json :=
  .record [("uri", .string l.uri), ("range", l.span.toJson)]

def Symbol.toJson (s : Symbol) : Json :=
  .record [("name", .string s.name), ("detail", .string s.detail),
    ("kind", .ofNat 14), ("range", s.span.toJson),
    ("selectionRange", s.span.toJson)]

/-- What this server can do. -/
def capabilitiesJson : Json :=
  .record [
    ("capabilities", .record [
      ("textDocumentSync",
        .record [("openClose", .bool true), ("change", .ofNat 1)]),
      ("completionProvider", .record []), ("hoverProvider", .bool true),
      ("definitionProvider", .bool true), ("referencesProvider", .bool true),
      ("documentSymbolProvider", .bool true)]),
    ("serverInfo", .record [("name", .ofString serverName),
      ("version", .ofString serverVersion)])]

def Answer.toJson : Answer → Json
  | .nothing => .null
  | .capabilities => capabilitiesJson
  | .completions offered => listJson Completion.toJson offered
  | .explanation text => (text.map explanationJson).getD .null
  | .locations found => listJson Location.toJson found
  | .symbols found => listJson Symbol.toJson found

def Diagnostic.toJson (d : Diagnostic) : Json :=
  .record [("range", d.span.toJson), ("severity", .ofNat 1),
    ("source", .ofString serverName), ("message", .string d.message)]

def noticeMethod : String := "textDocument/publishDiagnostics"

def Notice.toJson (n : Notice) : Json :=
  .record [("uri", .string n.uri),
    ("diagnostics", .array (n.diagnostics.map Diagnostic.toJson))]

end WordMachine.Editor
