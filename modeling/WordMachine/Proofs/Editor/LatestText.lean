import WordMachine.Editor.Protocol

/-!
# Answers are about the latest text

A session holds the texts of documents in one place and their analyses in
another.  Calls write to them at different times, and a question may fill in an
analysis that is missing.  `Session.Reflects` is what all of them keep up: the
texts are those that the editor gave last, and an analysis that is kept is the
one of its document's text.

From that the reply to a call can be told without looking at the session: it
depends on nothing but the last text that the editor gave for the document.
-/

namespace WordMachine.Editor

/-! ## What the editor said last -/

/-- What a call makes of the text of a document: a given one or none any more,
if it changes anything. -/
def Call.revision (uri : Text) : Call → Option (Option Text)
  | .opened other text | .changed other (some text) =>
    if uri = other then some (some text) else none
  | .closed other => if uri = other then some none else none
  | _ => none

/-- The texts of documents after a call, given those before it. -/
def Call.updated (call : Call) (textOf : Text → Option Text) (uri : Text) :
    Option Text :=
  (call.revision uri).getD (textOf uri)

theorem Call.updated_opened (uri text : Text) (textOf : Text → Option Text)
    (other : Text) :
    (Call.opened uri text).updated textOf other =
      if other = uri then some text else textOf other := by
  simp only [updated, revision]
  split <;> rfl

theorem Call.updated_closed (uri : Text) (textOf : Text → Option Text)
    (other : Text) :
    (Call.closed uri).updated textOf other = if other = uri then none
      else textOf other := by
  simp only [updated, revision]
  split <;> rfl

/-- The text of a document after some calls, the latest of which is the last
one: what the last call that changed it made of it. -/
def latestText (calls : List Call) (uri : Text) : Option Text :=
  (calls.reverse.findSome? (Call.revision uri)).join

@[simp] theorem latestText_nil (uri : Text) : latestText [] uri = none := rfl

theorem latestText_append (calls : List Call) (call : Call) :
    latestText (calls ++ [call]) = call.updated (latestText calls) := by
  funext uri
  simp only [latestText, Call.updated, List.reverse_append,
    List.reverse_singleton, List.singleton_append, List.findSome?_cons]
  cases call.revision uri <;> rfl

/-! ## Replies as the editor may expect them -/

/-- The answer to a question about a word of a text, if there is such a word. -/
def answerAbout (uri : Text) (text : Option Text) (wordIn : Text → Text)
    (question : Option Analysis → Text → Answer) : Answer :=
  match text with
  | none => .nothing
  | some text =>
    if (wordIn text).isEmpty then .nothing
    else question (some (Analysis.ofText uri text)) (wordIn text)

/-- The reply to a call, given the texts of documents.  Completion is about the
part of a word before the cursor, the other questions are about the whole
word. -/
def Call.replyFor (textOf : Text → Option Text) : Call → Reply
  | .introduce => ⟨.ok .capabilities, []⟩
  | .introduced | .setTrace | .shutdown | .changed _ none => ⟨.ok .nothing, []⟩
  | .opened uri text | .changed uri (some text) =>
    ⟨.ok .nothing, [⟨uri, diagnostics (Analysis.ofText uri text) text⟩]⟩
  | .closed uri => ⟨.ok .nothing, [⟨uri, []⟩]⟩
  | .complete uri cursor =>
    ⟨.ok (answerAbout uri (textOf uri) cursor.wordBefore fun a start =>
      .completions (completions a start)), []⟩
  | .explain uri cursor =>
    ⟨.ok (answerAbout uri (textOf uri) cursor.word fun a word =>
      .explanation (explanation a word)), []⟩
  | .define uri cursor =>
    ⟨.ok (answerAbout uri (textOf uri) cursor.word fun a word =>
      .locations (definition a word)), []⟩
  | .refer uri cursor withDeclaration =>
    ⟨.ok (answerAbout uri (textOf uri) cursor.word fun a word =>
      .locations (references a word withDeclaration)), []⟩
  | .outline uri =>
    ⟨.ok (match textOf uri with
      | none => .nothing
      | some text => .symbols (symbols (some (Analysis.ofText uri text)))), []⟩

/-! ## What every call keeps up -/

/-- The session goes on, its texts are the given ones, and so are those that
were analyzed. -/
structure Session.Reflects (s : Session)
    (textOf : Text → Option Text) : Prop where
  ready : s.ready = true
  running : s.worker.stopped = false
  texts : ∀ uri, s.texts.get? uri = textOf uri
  analyses : ∀ uri a, s.worker.workspace.get? uri = some a →
    ∃ text, textOf uri = some text ∧ a = Analysis.ofText uri text

namespace Session

variable {s : Session} {textOf : Text → Option Text}

theorem perform_of_running {α : Type} {worker : Worker}
    (running : worker.stopped = false) (job : Job α) :
    worker.perform job =
      ((job worker.workspace).1.mapError .ofText,
        { worker with workspace := (job worker.workspace).2 }) := by
  simp [Worker.perform, running]

/-- A text that is stored, analyzed and published is the latest one. -/
theorem Reflects.setText (reflects : s.Reflects textOf) (uri text : Text) :
    (s.setText uri text).1.Reflects ((Call.opened uri text).updated textOf) ∧
      (s.setText uri text).2 =
        ⟨.ok .nothing,
          [⟨uri, diagnostics (Analysis.ofText uri text) text⟩]⟩ := by
  have running : (s.storeText uri text).worker.stopped = false :=
    reflects.running
  simp only [Session.setText, publish, perform_of_running running]
  refine ⟨?_, rfl⟩
  exact {
    ready := reflects.ready
    running := reflects.running
    texts := by
      intro other
      simp only [storeText, Store.get?_set, Call.updated_opened, reflects.texts]
    analyses := by
      intro other a kept
      simp only [storeText, Job.map, Job.update, Workspace.update,
        Store.get?_set] at kept
      rw [Call.updated_opened]
      by_cases same : other = uri
      · rw [if_pos same] at kept ⊢
        cases kept
        exact ⟨text, rfl, by rw [same]⟩
      · rw [if_neg same] at kept ⊢
        exact reflects.analyses other a kept }

/-- A document that was closed has neither a text nor an analysis. -/
theorem Reflects.close (reflects : s.Reflects textOf) (uri : Text) :
    (s.close uri).1.Reflects ((Call.closed uri).updated textOf) ∧
      (s.close uri).2 = ⟨.ok .nothing, [⟨uri, []⟩]⟩ := by
  have running : (s.dropText uri).worker.stopped = false := reflects.running
  simp only [Session.close, retract, perform_of_running running]
  refine ⟨?_, trivial⟩
  exact {
    ready := reflects.ready
    running := reflects.running
    texts := by
      intro other
      simp only [dropText, Store.get?_erase, Call.updated_closed,
        reflects.texts]
    analyses := by
      intro other a kept
      simp only [dropText, Job.remove, Store.get?_erase] at kept
      rw [Call.updated_closed]
      by_cases same : other = uri
      · rw [if_pos same] at kept
        cases kept
      · rw [if_neg same] at kept ⊢
        exact reflects.analyses other a kept }

/-- A question about an open document sees the analysis of its text, whether it
was kept or has to be made. -/
theorem Reflects.ask {α : Type} (reflects : s.Reflects textOf) {uri text : Text}
    (stored : textOf uri = some text) (question : Option Analysis → α) :
    (s.ask uri question).1 = .ok (question (some (Analysis.ofText uri text))) ∧
      (s.ask uri question).2.Reflects textOf := by
  simp only [Session.ask, perform_of_running reflects.running,
    Job.map, analysisJob]
  cases kept : s.worker.workspace.get? uri with
  | some a =>
      obtain ⟨known, same, rfl⟩ := reflects.analyses uri a kept
      rw [stored] at same
      cases same
      exact ⟨rfl, { reflects with }⟩
  | none =>
      have found : s.texts.get? uri = some text :=
        (reflects.texts uri).trans stored
      simp only [found, Job.update, Workspace.update]
      refine ⟨rfl, { reflects with analyses := ?_ }⟩
      intro other a kept
      rw [Store.get?_set] at kept
      split at kept
      next same =>
          cases kept
          exact ⟨text, same ▸ stored, by rw [same]⟩
      next => exact reflects.analyses other a kept

theorem Reflects.askAbout (reflects : s.Reflects textOf) (uri : Text)
    (wordIn : Text → Text) (quiet : Bool)
    (question : Option Analysis → Text → Answer) :
    (s.askAbout uri wordIn quiet question).1.Reflects textOf ∧
      (s.askAbout uri wordIn quiet question).2 =
        ⟨.ok (answerAbout uri (textOf uri) wordIn question), []⟩ := by
  unfold Session.askAbout
  rw [reflects.texts uri]
  cases stored : textOf uri with
  | none => exact ⟨reflects, rfl⟩
  | some text =>
      by_cases wordless : (wordIn text).isEmpty
      · simp only [answerAbout, wordless, if_true]
        exact ⟨reflects, rfl⟩
      · obtain ⟨answer, still⟩ := reflects.ask stored (question · (wordIn text))
        simp only [answerAbout, wordless, Bool.false_eq_true, if_false, answer]
        exact ⟨still, rfl⟩

theorem Reflects.askOutline (reflects : s.Reflects textOf) (uri : Text) :
    (s.askOutline uri).1.Reflects textOf ∧
      (s.askOutline uri).2 = (Call.outline uri).replyFor textOf := by
  simp only [Session.askOutline, Call.replyFor, reflects.texts uri]
  cases stored : textOf uri with
  | none => exact ⟨reflects, rfl⟩
  | some text =>
      obtain ⟨answer, still⟩ :=
        reflects.ask stored fun a => Answer.symbols (symbols a)
      simp only [answer]
      exact ⟨still, trivial⟩

/-- Every call is replied to according to the latest texts, and unless it ends
the session, the session reflects what the call changed. -/
theorem Reflects.serve (reflects : s.Reflects textOf) (call : Call) :
    (call ≠ .shutdown → (s.serve call).1.Reflects (call.updated textOf)) ∧
      (s.serve call).2 = call.replyFor textOf := by
  cases call with
  | introduce => exact ⟨fun _ => { reflects with ready := rfl }, rfl⟩
  | introduced | setTrace => exact ⟨fun _ => reflects, rfl⟩
  | shutdown => exact ⟨fun goesOn => absurd rfl goesOn, rfl⟩
  | opened uri text =>
      exact (reflects.setText uri text).imp_left fun kept _ => kept
  | changed uri text =>
      cases text with
      | none => exact ⟨fun _ => reflects, rfl⟩
      | some text =>
          exact (reflects.setText uri text).imp_left fun kept _ => kept
  | closed uri => exact (reflects.close uri).imp_left fun kept _ => kept
  | complete uri cursor =>
      have kept := reflects.askAbout uri cursor.wordBefore false fun a start =>
        .completions (completions a start)
      exact ⟨fun _ => kept.1, kept.2⟩
  | explain uri cursor =>
      have kept := reflects.askAbout uri cursor.word true fun a word =>
        .explanation (explanation a word)
      exact ⟨fun _ => kept.1, kept.2⟩
  | define uri cursor =>
      have kept := reflects.askAbout uri cursor.word true fun a word =>
        .locations (definition a word)
      exact ⟨fun _ => kept.1, kept.2⟩
  | refer uri cursor withDeclaration =>
      have kept := reflects.askAbout uri cursor.word true fun a word =>
        .locations (references a word withDeclaration)
      exact ⟨fun _ => kept.1, kept.2⟩
  | outline uri => exact (reflects.askOutline uri).imp_left fun kept _ => kept

end Session

/-! ## Messages -/

structure Message where
  method : Text
  params : Json

/-- The call that a message makes, unless it is refused. -/
def Message.call? (m : Message) : Option Call :=
  (callOf m.method m.params).toOption

def shutdownMethod : Text := Text.ofString "shutdown"

theorem method_of_shutdown {m : Message} (called : m.call? = some .shutdown) :
    m.method = shutdownMethod := by
  have only : ∀ entry ∈ methods, ∀ params, entry.2.call params = .shutdown →
      entry.1 = "shutdown" := by
    simp [methods]
  unfold Message.call? callOf at called
  split at called
  next => cases called
  next name method found =>
      split at called
      next =>
          have same := only _ (List.mem_of_find?_eq_some found) m.params
            (Option.some.inj called)
          have named := List.find?_some found
          rw [same] at named
          exact (eq_of_beq named).symm
      next => cases called

namespace Session

variable {s : Session} {textOf : Text → Option Text}

/-- A session that an editor has introduced itself to, before anything else. -/
def introduced : Session :=
  (({} : Session).handle .introduce).1

def receiveAll (s : Session) (messages : List Message) : Session :=
  messages.foldl (fun s m => (s.receive m.method m.params).1) s

/-- The outcome of a message that comes after others. -/
def outcomeAfter (before : List Message) (m : Message) :
    Except Rejection Reply :=
  ((introduced.receiveAll before).receive m.method m.params).2

theorem introduced_reflects : introduced.Reflects (latestText []) where
  ready := rfl
  running := rfl
  texts _ := rfl
  analyses := nofun

theorem receive_of_ready (ready : s.ready = true) (m : Message) :
    s.receive m.method m.params =
      match callOf m.method m.params with
      | .error rejection => (s, .error rejection)
      | .ok call => ((s.serve call).1, .ok (s.serve call).2) := by
  cases called : callOf m.method m.params with
  | error rejection => simp [receive, ready, called]
  | ok call => simp [receive, handle, ready, called]

/-- A message that is refused changes nothing, and any other one is a call. -/
theorem Reflects.receive {calls : List Call}
    (reflects : s.Reflects (latestText calls))
    (m : Message) :
    (m.method ≠ shutdownMethod → (s.receive m.method m.params).1.Reflects
        (latestText (calls ++ m.call?.toList))) ∧
      (s.receive m.method m.params).2 =
        (callOf m.method m.params).map (Call.replyFor (latestText calls)) := by
  rw [receive_of_ready reflects.ready]
  cases called : callOf m.method m.params with
  | error rejection =>
      have refused : m.call? = none := by rw [Message.call?, called]; rfl
      rw [refused, Option.toList_none, List.append_nil]
      exact ⟨fun _ => reflects, rfl⟩
  | ok call =>
      have made : m.call? = some call := by rw [Message.call?, called]; rfl
      obtain ⟨kept, reply⟩ := reflects.serve call
      rw [made, Option.toList_some, latestText_append]
      refine ⟨fun ongoing => kept ?_, congrArg Except.ok reply⟩
      rintro rfl
      exact ongoing (method_of_shutdown made)

theorem Reflects.receiveAll {calls : List Call}
    (reflects : s.Reflects (latestText calls))
    (messages : List Message)
    (ongoing : ∀ m ∈ messages, m.method ≠ shutdownMethod) :
    (s.receiveAll messages).Reflects
      (latestText (calls ++ messages.filterMap Message.call?)) := by
  induction messages generalizing s calls with
  | nil => simpa [Session.receiveAll] using reflects
  | cons m rest ih =>
      have next := (reflects.receive m).1 (ongoing m List.mem_cons_self)
      have after := ih next fun later member =>
        ongoing later (List.mem_cons_of_mem m member)
      have history : calls ++ (m :: rest).filterMap Message.call? =
          calls ++ m.call?.toList ++ rest.filterMap Message.call? := by
        cases made : m.call? <;> simp [made]
      rw [history]
      exact after

theorem outcomeAfter_eq {before : List Message} (m : Message)
    (ongoing : ∀ earlier ∈ before, earlier.method ≠ shutdownMethod) :
    outcomeAfter before m =
      (callOf m.method m.params).map
        (Call.replyFor (latestText (before.filterMap Message.call?))) :=
  ((introduced_reflects.receiveAll before ongoing).receive m).2

end Session

/-! ## Documents apart -/

def Call.uri? : Call → Option Text
  | .opened uri _ | .changed uri _ | .closed uri | .complete uri
      _ | .explain uri _
  | .define uri _ | .refer uri _ _ | .outline uri => some uri
  | .introduce | .introduced | .setTrace | .shutdown => none

def Message.isAbout (uri : Text) (m : Message) : Bool :=
  m.call?.bind Call.uri? == some uri

/-- Calls about other documents change nothing about a document. -/
theorem Call.revision_of_uri?_ne {call : Call} {uri : Text}
    (other : call.uri? ≠ some uri) :
    call.revision uri = none := by
  cases call with
  | opened _ _ | closed _ =>
      apply if_neg
      rintro rfl
      exact other rfl
  | changed _ text =>
      cases text with
      | none => rfl
      | some text =>
          apply if_neg
          rintro rfl
          exact other rfl
  | _ => rfl

theorem latestText_filter (calls : List Call) (uri : Text) :
    latestText (calls.filter fun call => call.uri? == some uri) uri =
      latestText calls uri := by
  unfold latestText
  rw [← List.filter_reverse]
  congr 1
  induction calls.reverse with
  | nil => rfl
  | cons call rest ih =>
      by_cases about : call.uri? = some uri
      · rw [List.filter_cons_of_pos (by simpa using about), List.findSome?_cons,
          List.findSome?_cons, ih]
      · rw [List.filter_cons_of_neg (by simpa using about), List.findSome?_cons,
          Call.revision_of_uri?_ne about, ih]

theorem calls_about (messages : List Message) (uri : Text) :
    (messages.filter (Message.isAbout uri)).filterMap Message.call? =
      (messages.filterMap Message.call?).filter fun call =>
        call.uri? == some uri := by
  rw [List.filterMap_filter, List.filter_filterMap]
  congr 1
  funext m
  unfold Message.isAbout
  cases m.call? <;> rfl

/-- The reply to a call about a document depends on no other text. -/
theorem Call.replyFor_congr {call : Call} {uri : Text}
    {textOf textOf' : Text → Option Text} (about : call.uri? = some uri)
    (same : textOf uri = textOf' uri) :
    call.replyFor textOf = call.replyFor textOf' := by
  cases call with
  | introduce | introduced | setTrace | shutdown => cases about
  | opened _ _ | closed _ => rfl
  | changed _ text => cases text <;> rfl
  | complete _ _ | explain _ _ | define _ _ | outline _ | refer _ _ _ =>
      cases about
      simp only [replyFor, same]

/-- After any messages but a shutdown, a message is answered for the text that
the editor gave last, and messages about other documents make no difference. -/
theorem answers_for_latest_text (before : List Message) (m : Message)
    (ongoing : ∀ earlier ∈ before, earlier.method ≠ shutdownMethod) :
    Session.outcomeAfter before m =
        (callOf m.method m.params).map
          (Call.replyFor (latestText (before.filterMap Message.call?))) ∧
      ∀ uri, m.call?.bind Call.uri? = some uri →
        Session.outcomeAfter before m =
          Session.outcomeAfter (before.filter (Message.isAbout uri)) m := by
  have reduced : ∀ uri, ∀ earlier ∈ before.filter (Message.isAbout uri),
      earlier.method ≠ shutdownMethod := by
    intro uri earlier kept
    exact ongoing earlier (List.mem_filter.mp kept).1
  refine ⟨Session.outcomeAfter_eq m ongoing, ?_⟩
  intro uri about
  rw [Session.outcomeAfter_eq m ongoing,
    Session.outcomeAfter_eq m (reduced uri), calls_about]
  unfold Message.call? at about
  cases called : callOf m.method m.params with
  | error rejection => rfl
  | ok call =>
      rw [called] at about
      exact congrArg Except.ok
        (Call.replyFor_congr about (latestText_filter _ uri).symm)

/-- Two documents with a label of the same name; the first one is then changed
twice, but only the first of these changes gives its whole text. -/
def editing : List Message :=
  [⟨Text.ofString "textDocument/didOpen",
      .record [("textDocument",
        .record [("uri", .ofString "a"), ("text", .ofString "x: end")])]⟩,
    ⟨Text.ofString "textDocument/didOpen",
      .record [("textDocument",
        .record [("uri", .ofString "b"), ("text", .ofString "x: end")])]⟩,
    ⟨Text.ofString "textDocument/didChange",
      .record [("textDocument", .record [("uri", .ofString "a")]),
        ("contentChanges",
          .array [.record [("text", .ofString "noop\nx: end")]])]⟩,
    ⟨Text.ofString "textDocument/didChange",
      .record [("textDocument", .record [("uri", .ofString "a")]),
        ("contentChanges",
          .array [.record [("range", .record []), ("text", .ofString "y:")]])]⟩]

/-- The question where the label at the start of the second line of a document
is. -/
def asking (uri : String) : Message :=
  ⟨Text.ofString "textDocument/definition",
    .record [("textDocument", .record [("uri", .ofString uri)]),
      ("position", .record [("line", .ofNat 1)])]⟩

theorem answers_for_latest_text_editing :
    (∀ earlier ∈ editing, earlier.method ≠ shutdownMethod) ∧
      Session.outcomeAfter editing (asking "a") =
        .ok ⟨.ok (.locations [⟨Text.ofString "a", ⟨1, 0, 1⟩⟩]), []⟩ ∧
      Session.outcomeAfter editing (asking "b") = .ok ⟨.ok .nothing, []⟩ := by
  have ongoing : ∀ earlier ∈ editing, earlier.method ≠ shutdownMethod := by
    decide +kernel
  refine ⟨ongoing, ?_, ?_⟩
  · rw [(answers_for_latest_text editing (asking "a") ongoing).1]
    rfl
  · rw [(answers_for_latest_text editing (asking "b") ongoing).1]
    rfl

end WordMachine.Editor
