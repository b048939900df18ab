import WordMachine.Editor.Workspace

/-!
# Editor sessions

An editor opens, changes and closes documents and asks about them in between.  A
session keeps the texts of the open documents; their analyses are kept by a
worker and made again when they are missing.

Opening or changing a document has two parts: the text is stored, and then the
worker analyzes it and the diagnostics are published.  Closing has the same two
parts.
-/

namespace WordMachine.Editor

/-- What an editor can call for. -/
inductive Call where
  | introduce
  | introduced
  | setTrace
  | shutdown
  | opened (uri text : Text)
  /-- The document has a new text, if the last change gave all of it. -/
  | changed (uri : Text) (text : Option Text)
  | closed (uri : Text)
  | complete (uri : Text) (cursor : Cursor)
  | explain (uri : Text) (cursor : Cursor)
  | define (uri : Text) (cursor : Cursor)
  | refer (uri : Text) (cursor : Cursor) (withDeclaration : Bool)
  | outline (uri : Text)
  deriving DecidableEq, Repr

/-- What an editor gets back. -/
inductive Answer where
  | nothing
  | capabilities
  | completions (offered : List Completion)
  | explanation (text : Option Text)
  | locations (found : List Location)
  | symbols (found : List Symbol)
  deriving DecidableEq, Repr

/-- The diagnostics of a document, sent without being asked for. -/
structure Notice where
  uri : Text
  diagnostics : List Diagnostic
  deriving DecidableEq, Repr

/-- The outcome of a call. -/
structure Reply where
  answer : Except Fault Answer
  notices : List Notice := []

structure Session where
  /-- Whether the editor has introduced itself. -/
  ready : Bool := false
  /-- The texts of the open documents. -/
  texts : Store Text := {}
  worker : Worker := {}

namespace Session

def success (answer : Answer) : Reply :=
  ⟨.ok answer, []⟩

/-- The failure of calls before the editor has introduced itself. -/
def notReady : Fault :=
  .ofText (Text.ofString "server not initialized")

/-! ## Documents -/

def storeText (s : Session) (uri text : Text) : Session :=
  { s with texts := s.texts.set uri text }

def dropText (s : Session) (uri : Text) : Session :=
  { s with texts := s.texts.erase uri }

/-- Have a document analyzed and publish the diagnostics.  A worker that was
stopped publishes nothing. -/
def publish (s : Session) (uri text : Text) : Session × List Notice :=
  let (result, worker) :=
    s.worker.perform ((Job.update uri text).map (diagnostics · text))
  let notices := match result with
    | .ok found => [⟨uri, found⟩]
    | .error _ => []
  ({ s with worker := worker }, notices)

/-- Have the analysis of a document forgotten, and publish that there are no
diagnostics any more. -/
def retract (s : Session) (uri : Text) : Session × List Notice :=
  let (_, worker) := s.worker.perform (Job.remove uri)
  ({ s with worker := worker }, [⟨uri, []⟩])

/-- A document has a text. -/
def setText (s : Session) (uri text : Text) : Session × Reply :=
  let (s, notices) := (s.storeText uri text).publish uri text
  (s, ⟨.ok .nothing, notices⟩)

/-- A document was closed. -/
def close (s : Session) (uri : Text) : Session × Reply :=
  let (s, notices) := (s.dropText uri).retract uri
  (s, ⟨.ok .nothing, notices⟩)

/-! ## Questions -/

/-- The job that finds the analysis of a document: the one that is kept, or else
a new one of the stored text. -/
def analysisJob (s : Session) (uri : Text) : Job (Option Analysis) := fun ws =>
  match ws.get? uri with
  | some a => (.ok (some a), ws)
  | none =>
    match s.texts.get? uri with
    | none => (.ok none, ws)
    | some text => (Job.update uri text).map some ws

def ask {α : Type} (s : Session) (uri : Text) (question : Option Analysis → α) :
    Except Fault α × Session :=
  let (result, worker) := s.worker.perform ((s.analysisJob uri).map question)
  (result, { s with worker := worker })

/-- Ask about a word of an open document; without a word there is no answer.
With `quiet` a failure of the worker is no answer either. -/
def askAbout (s : Session) (uri : Text) (wordIn : Text → Text) (quiet : Bool)
    (question : Option Analysis → Text → Answer) : Session × Reply :=
  match s.texts.get? uri with
  | none => (s, success .nothing)
  | some text =>
    let word := wordIn text
    if word.isEmpty then (s, success .nothing)
    else
      let (result, s) := s.ask uri (question · word)
      match result with
      | .ok answer => (s, success answer)
      | .error fault => (s, ⟨if quiet then .ok .nothing else .error fault, []⟩)

def askOutline (s : Session) (uri : Text) : Session × Reply :=
  match s.texts.get? uri with
  | none => (s, success .nothing)
  | some _ =>
    let (result, s) := s.ask uri fun a => Answer.symbols (symbols a)
    (s, ⟨result, []⟩)

/-! ## Calls -/

/-- Serve a call, whether or not the editor has introduced itself. -/
def serve (s : Session) : Call → Session × Reply
  | .introduce => ({ s with ready := true }, success .capabilities)
  | .introduced => (s, success .nothing)
  | .setTrace => (s, success .nothing)
  | .shutdown =>
    ({ s with ready := false, worker := s.worker.stop }, success .nothing)
  | .opened uri text => s.setText uri text
  | .changed uri (some text) => s.setText uri text
  | .changed _ none => (s, success .nothing)
  | .closed uri => s.close uri
  | .complete uri cursor =>
    s.askAbout uri cursor.wordBefore false fun a start =>
      .completions (completions a start)
  | .explain uri cursor =>
    s.askAbout uri cursor.word true fun a word =>
      .explanation (explanation a word)
  | .define uri cursor =>
    s.askAbout uri cursor.word true fun a word => .locations (definition a word)
  | .refer uri cursor withDeclaration =>
    s.askAbout uri cursor.word true fun a word =>
      .locations (references a word withDeclaration)
  | .outline uri => s.askOutline uri

/-- Serve a call.  Only an introduction is served before the editor has
introduced itself. -/
def handle (s : Session) (call : Call) : Session × Reply :=
  if s.ready || call == .introduce then s.serve call
  else (s, ⟨.error notReady, []⟩)

end Session

end WordMachine.Editor
