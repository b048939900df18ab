import WordMachine.Editor.Session

/-!
# Calls at the same time

An editor does not wait for one call to end before it makes the next.  A call is
made of parts, each of which happens at once, and the parts of several calls may
fall in any order; only the worker does one thing after the other.  Notices are
sent on their way and may arrive in any order as well.

`Traffic.step?` moves one call, or one notice, a little further.  A call that
meets no other does what `Session.serve` says: that is
`Traffic.performAll?_parts`.
-/

namespace WordMachine.Editor

/-- A part of a call. -/
inductive Part where
  /-- Store the text of a document. -/
  | store (uri text : Text)
  /-- Forget the text of a document. -/
  | drop (uri : Text)
  /-- The worker analyzes a text, and the diagnostics are sent. -/
  | analyze (uri text : Text)
  /-- The worker forgets an analysis, and that there are no diagnostics is
  sent. -/
  | forget (uri : Text)
  /-- The worker begins a question: it looks for the analysis of a document, and
  if there is none it reads the stored text. -/
  | consult (uri : Text)
  /-- The worker ends a question: it analyzes the text it has read. -/
  | conclude (uri : Text)
  deriving DecidableEq, Repr

/-- The question the worker is in the middle of. -/
inductive Question where
  | none
  /-- Nothing is left to analyze. -/
  | settled
  /-- A text was read. -/
  | reading (text : Text)
  deriving DecidableEq, Repr

/-- Calls under way and notices on their way. -/
structure Traffic where
  session : Session := {}
  question : Question := .none
  /-- What is left of each call, in the order in which the calls came. -/
  calls : List (List Part) := []
  /-- The notices that were sent and did not arrive yet. -/
  sent : List Notice := []
  /-- The notices that arrived, in this order. -/
  arrived : List Notice := []

namespace Session

/-- The parts of a question about a document.  It has none if the document is
not open or nothing in its text is asked about. -/
def questionParts (s : Session) (uri : Text)
    (isAsked : Text → Bool) : List Part :=
  match s.texts.get? uri with
  | some text => if isAsked text then [.consult uri, .conclude uri] else []
  | none => []

/-- The parts of a call on documents, as they are when it comes. -/
def parts (s : Session) : Call → List Part
  | .opened uri text | .changed uri (some text) =>
    [.store uri text, .analyze uri text]
  | .closed uri => [.drop uri, .forget uri]
  | .complete uri cursor =>
    s.questionParts uri fun text => !(cursor.wordBefore text).isEmpty
  | .explain uri cursor | .define uri cursor | .refer uri cursor _ =>
    s.questionParts uri fun text => !(cursor.word text).isEmpty
  | .outline uri => s.questionParts uri fun _ => true
  | .changed _ none | .introduce | .introduced | .setTrace | .shutdown => []

/-- How the worker begins a question about a document. -/
def consult (s : Session) (uri : Text) : Question :=
  if s.worker.stopped then .settled
  else
    match s.worker.workspace.get? uri, s.texts.get? uri with
    | none, some text => .reading text
    | _, _ => .settled

/-- Have the worker keep the analysis of a text. -/
def conclude (s : Session) (uri text : Text) : Session :=
  { s with worker :=
    { s.worker with workspace := (s.worker.workspace.update uri text).2 } }

end Session

namespace Traffic

/-- Whether the worker may begin something. -/
def isFree (t : Traffic) : Bool :=
  t.question == .none

/-- Go on with a session, and send notices. -/
def after (t : Traffic) (outcome : Session × List Notice) : Traffic :=
  { t with session := outcome.1, sent := t.sent ++ outcome.2 }

/-- The state after a part of a call.  Parts for the worker have to wait while
it is in the middle of a question. -/
def perform? (t : Traffic) : Part → Option Traffic
  | .store uri text => some { t with session := t.session.storeText uri text }
  | .drop uri => some { t with session := t.session.dropText uri }
  | .analyze uri text =>
    if t.isFree then some (t.after (t.session.publish uri text)) else none
  | .forget uri =>
    if t.isFree then some (t.after (t.session.retract uri)) else none
  | .consult uri =>
    if t.isFree then some { t with question := t.session.consult uri } else none
  | .conclude uri =>
    match t.question with
    | .none => none
    | .settled => some { t with question := .none }
    | .reading text =>
      some { t with session := t.session.conclude uri text, question := .none }

inductive Event where
  /-- A call on documents comes. -/
  | call (call : Call)
  /-- The next part of a call under way. -/
  | proceed (index : Nat)
  /-- A notice arrives. -/
  | arrive (index : Nat)

/-- The state after an event, if it can happen. -/
def step? (t : Traffic) : Event → Option Traffic
  | .call call => some { t with calls := t.calls ++ [t.session.parts call] }
  | .proceed index =>
    match t.calls[index]? with
    | some (part :: rest) =>
      (t.perform? part).map fun t => { t with calls := t.calls.set index rest }
    | _ => none
  | .arrive index =>
    t.sent[index]?.map fun notice =>
      { t with sent := t.sent.eraseIdx index, arrived := t.arrived ++ [notice] }

/-- The state after events in a row, if all of them can happen. -/
def run? (t : Traffic) (events : List Event) : Option Traffic :=
  events.foldlM step? t

def isQuiet (t : Traffic) : Bool :=
  t.calls.all (·.isEmpty)

@[simp] theorem run?_nil (t : Traffic) : t.run? [] = some t := rfl

@[simp] theorem run?_cons (t : Traffic) (e : Event) (events : List Event) :
    t.run? (e :: events) = (t.step? e).bind (·.run? events) := rfl

theorem run?_append (t : Traffic) (events more : List Event) :
    t.run? (events ++ more) = (t.run? events).bind (·.run? more) :=
  List.foldlM_append

/-! ## A call alone -/

/-- The state after parts in a row, if all of them can happen. -/
def performAll? (t : Traffic) (parts : List Part) : Option Traffic :=
  parts.foldlM perform? t

/-- Both parts of a question leave the session that asking it leaves. -/
theorem performAll?_question {α : Type} (t : Traffic) (uri : Text)
    (question : Option Analysis → α) (free : t.question = .none) :
    t.performAll? [.consult uri, .conclude uri]
      = some { t with session := (t.session.ask uri question).2 } := by
  obtain ⟨⟨ready, texts, ⟨ws, stopped⟩⟩, q, calls, sent, arrived⟩ := t
  subst free
  cases stopped with
  | true => rfl
  | false =>
    cases kept : ws.get? uri <;> cases stored : texts.get? uri <;>
      simp [performAll?, perform?, isFree, Session.consult,
        Session.conclude, Session.ask, Session.analysisJob, Worker.perform,
        Job.map, Job.update, kept, stored]

/-- The parts of a question about a word leave the session that asking it
leaves, and nothing is sent. -/
theorem performAll?_askAbout (t : Traffic) (uri : Text) (wordIn : Text → Text)
    (quiet : Bool) (question : Option Analysis → Text → Answer)
    (free : t.question = .none) :
    t.performAll?
        (t.session.questionParts uri fun text => !(wordIn text).isEmpty) =
      some (t.after
        ((t.session.askAbout uri wordIn quiet question).1,
          (t.session.askAbout uri wordIn quiet question).2.notices)) := by
  cases stored : t.session.texts.get? uri with
  | none =>
    simp [Session.questionParts, Session.askAbout, stored, performAll?, after,
      Session.success]
  | some text =>
    by_cases wordless : (wordIn text).isEmpty
    · simp [Session.questionParts, Session.askAbout, stored, wordless,
        performAll?, after, Session.success]
    · have asked := performAll?_question t uri (question · (wordIn text)) free
      simp only [Session.questionParts, Session.askAbout, stored, wordless,
        Bool.not_false, if_true, asked, after, Bool.false_eq_true, if_false]
      cases (t.session.ask uri (question · (wordIn text))).1 <;>
        simp [Session.success]

/-- A call on documents that meets no other call does what serving it does. -/
theorem performAll?_parts (t : Traffic) (call : Call)
    (free : t.question = .none) (notIntroduction : call ≠ .introduce)
    (notShutdown : call ≠ .shutdown) :
    t.performAll? (t.session.parts call)
      = some (t.after ((t.session.serve call).1,
        (t.session.serve call).2.notices)) := by
  cases call with
  | introduce => exact absurd rfl notIntroduction
  | shutdown => exact absurd rfl notShutdown
  | introduced | setTrace =>
    simp [Session.parts, performAll?, after, Session.serve, Session.success]
  | opened uri text =>
    simp [Session.parts, performAll?, perform?, Session.serve, Session.setText,
      after, isFree, free]
  | changed uri text =>
    cases text with
    | none =>
        simp [Session.parts, performAll?, after, Session.serve, Session.success]
    | some text =>
      simp [Session.parts, performAll?, perform?, Session.serve,
        Session.setText, after, isFree, free]
  | closed uri =>
    simp [Session.parts, performAll?, perform?, Session.serve, Session.close,
      after, isFree, free]
  | complete uri cursor => exact performAll?_askAbout t uri _ _ _ free
  | explain uri cursor => exact performAll?_askAbout t uri _ _ _ free
  | define uri cursor => exact performAll?_askAbout t uri _ _ _ free
  | refer uri cursor withDeclaration =>
      exact performAll?_askAbout t uri _ _ _ free
  | outline uri =>
    cases stored : t.session.texts.get? uri with
    | none =>
      simp [Session.parts, Session.questionParts, Session.serve,
        Session.askOutline, stored, performAll?, after, Session.success]
    | some text =>
      have asked := performAll?_question t uri (fun a =>
        Answer.symbols (symbols a)) free
      simp [Session.parts, Session.questionParts, Session.serve,
        Session.askOutline, stored, asked, after]

end Traffic

end WordMachine.Editor
