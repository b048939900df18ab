import WordMachine.Editor.Traffic
import WordMachine.Proofs.Editor.LatestText

/-!
# Calls in parts

Calls that overlap are told apart by their numbers: the place of a call among
all calls that came.  A run is told by the calls that came and by the parts that
were performed, each with the number of its call.  `Traffic.run_induction` is
the induction over runs; it also lets runs be limited to those in which every
event meets a condition.

What is left of a call is always one of a few rows of parts (`Due`), and of all
calls under way only one can be in the middle of a question.
-/

namespace WordMachine.Editor

def Traffic.Event.call? : Traffic.Event → Option Call
  | .call incoming => some incoming
  | .proceed _ | .arrive _ => none

/-- The session whose worker keeps the given analyses. -/
def Session.keeping (s : Session) (ws : Workspace) : Session :=
  { s with worker := { s.worker with workspace := ws } }

namespace Traffic

/-- An editor has introduced itself, and no call is under way. -/
def introduced : Traffic :=
  { session := Session.introduced }

def made (events : List Event) : List Call :=
  events.filterMap Event.call?

/-- The part that an event performs, with the number of its call. -/
def part? (t : Traffic) : Event → Option (Nat × Part)
  | .proceed number => (t.calls[number]?.bind List.head?).map (number, ·)
  | .call _ | .arrive _ => none

/-- The parts that events in a row perform, as far as they can happen. -/
def performed (t : Traffic) : List Event → List (Nat × Part)
  | [] => []
  | e :: events =>
    match t.step? e with
    | none => []
    | some after => (t.part? e).toList ++ after.performed events

/-- Whether every event meets a condition when it happens. -/
def along (condition : Traffic → Event → Bool) (t : Traffic) : List Event → Bool
  | [] => true
  | e :: events =>
    condition t e && match t.step? e with
      | none => true
      | some after => after.along condition events

/-! ## Parts -/

variable {t after next : Traffic} {e : Event} {part : Part}

/-- What a part does while the worker is running. -/
inductive Does (t : Traffic) : Part → Traffic → Prop where
  | store (uri text : Text) :
      Does t (.store uri text)
        { t with session := t.session.storeText uri text }
  | drop (uri : Text) :
      Does t (.drop uri) { t with session := t.session.dropText uri }
  | analyze (uri text : Text) (free : t.question = .none) :
      Does t (.analyze uri text)
        { t with
          session := t.session.keeping
            (t.session.worker.workspace.set uri (Analysis.ofText uri text))
          sent := t.sent ++
            [⟨uri, diagnostics (Analysis.ofText uri text) text⟩] }
  | forget (uri : Text) (free : t.question = .none) :
      Does t (.forget uri)
        { t with
          session := t.session.keeping (t.session.worker.workspace.erase uri)
          sent := t.sent ++ [⟨uri, []⟩] }
  | consult (uri : Text) (free : t.question = .none) :
      Does t (.consult uri) { t with question := t.session.consult uri }
  /-- A question ends for which nothing has to be analyzed. -/
  | settled (uri : Text) (question : t.question = .settled) :
      Does t (.conclude uri) { t with question := .none }
  /-- A question ends with the analysis of the text that was read. -/
  | conclude (uri text : Text) (question : t.question = .reading text) :
      Does t (.conclude uri)
        { t with
          session := t.session.keeping
            (t.session.worker.workspace.set uri (Analysis.ofText uri text))
          question := .none }

theorem does_of_perform? (running : t.session.worker.stopped = false)
    (result : t.perform? part = some next) :
    t.Does part next := by
  cases part with
  | store uri text =>
      cases result
      exact .store uri text
  | drop uri =>
      cases result
      exact .drop uri
  | analyze uri text =>
      simp only [perform?, isFree, beq_iff_eq] at result
      split at result
      next free =>
        simp only [Traffic.after, Session.publish,
          Session.perform_of_running running] at result
        cases result
        exact .analyze uri text free
      next => cases result
  | forget uri =>
      simp only [perform?, isFree, beq_iff_eq] at result
      split at result
      next free =>
        simp only [Traffic.after, Session.retract,
          Session.perform_of_running running] at result
        cases result
        exact .forget uri free
      next => cases result
  | consult uri =>
      simp only [perform?, isFree, beq_iff_eq] at result
      split at result
      next free =>
        cases result
        exact .consult uri free
      next => cases result
  | conclude uri =>
      simp only [perform?] at result
      split at result
      next => cases result
      next question =>
        cases result
        exact .settled uri question
      next text question =>
        cases result
        exact .conclude uri text question

theorem Does.calls (does : t.Does part next) :
    next.calls = t.calls := by
  cases does <;> rfl

theorem Does.running (does : t.Does part next)
    (running : t.session.worker.stopped = false) :
    next.session.worker.stopped = false := by
  cases does <;> exact running

/-! ## Events -/

/-- What an event does while the worker is running. -/
inductive Moves (t : Traffic) : Event → Traffic → Prop where
  | called (call : Call) :
      Moves t (.call call) { t with calls := t.calls ++ [t.session.parts call] }
  | performed {number : Nat} {part : Part} {rest : List Part} {next : Traffic}
      (due : t.calls[number]? = some (part :: rest)) (does : t.Does part next) :
      Moves t (.proceed number) { next with calls := t.calls.set number rest }
  | arrived {index : Nat} {notice : Notice}
      (sent : t.sent[index]? = some notice) :
      Moves t (.arrive index)
        { t with
          sent := t.sent.eraseIdx index, arrived := t.arrived ++ [notice] }

theorem moves_of_step? (running : t.session.worker.stopped = false)
    (stepped : t.step? e = some after) : t.Moves e after := by
  cases e with
  | call call =>
      cases stepped
      exact .called call
  | proceed number =>
      simp only [step?] at stepped
      split at stepped
      next part rest due =>
        obtain ⟨next, result, rfl⟩ := Option.map_eq_some_iff.mp stepped
        have does := does_of_perform? running result
        rw [does.calls]
        exact .performed due does
      next => cases stepped
  | arrive index =>
      obtain ⟨notice, sent, rfl⟩ := Option.map_eq_some_iff.mp stepped
      exact .arrived sent

theorem Moves.running (moves : t.Moves e after)
    (running : t.session.worker.stopped = false) :
    after.session.worker.stopped = false := by
  cases moves with
  | called | arrived => exact running
  | performed due does => exact does.running running

theorem part?_proceed {number : Nat} {rest : List Part}
    (due : t.calls[number]? = some (part :: rest)) :
    t.part? (.proceed number) = some (number, part) := by
  simp [part?, due]

/-! ## Runs -/

/-- What holds at the start and is kept up by every event that meets a condition
holds after a run along that condition, if the worker is running: of the calls
that came, the parts that were performed and the state. -/
theorem run_induction {condition : Traffic → Event → Bool}
    {motive : List Call → List (Nat × Part) → Traffic → Prop}
    (step : ∀ calls steps t e after, motive calls steps t →
      condition t e = true → t.Moves e after → motive (calls ++ e.call?.toList)
      (steps ++ (t.part? e).toList) after)
    {calls : List Call} {steps : List (Nat × Part)} {start : Traffic}
    (initial : motive calls steps start)
    (running : start.session.worker.stopped = false) {events : List Event}
    (run : start.run? events = some t)
    (along : start.along condition events = true) :
    motive (calls ++ made events) (steps ++ start.performed events) t := by
  induction events generalizing start calls steps with
  | nil =>
      cases run
      simpa [made, performed] using initial
  | cons e events ih =>
      rw [run?_cons] at run
      obtain ⟨next, stepped, rest⟩ := Option.bind_eq_some_iff.mp run
      simp only [Traffic.along, stepped, Bool.and_eq_true] at along
      have moves := moves_of_step? running stepped
      have kept := ih (step calls steps start e next initial along.1 moves)
        (moves.running running) rest along.2
      have calls' : calls ++ made (e :: events) = calls ++ e.call?.toList ++
          made events := by
        cases called : e.call? <;> simp [made, called]
      rw [performed, stepped, calls', ← List.append_assoc]
      exact kept

theorem introduced_induction {condition : Traffic → Event → Bool}
    {motive : List Call → List (Nat × Part) → Traffic → Prop}
    (step : ∀ calls steps t e after, motive calls steps t →
      condition t e = true → t.Moves e after → motive (calls ++ e.call?.toList)
      (steps ++ (t.part? e).toList) after)
    (initial : motive [] [] introduced) {events : List Event}
    (run : introduced.run? events = some t)
    (along : introduced.along condition events = true) :
    motive (made events) (introduced.performed events) t :=
  run_induction step initial rfl run along

theorem along_append {condition : Traffic → Event → Bool} {start : Traffic}
    {events more : List Event} (run : start.run? events = some t) :
    start.along condition (events ++ more) =
      (start.along condition events && t.along condition more) := by
  induction events generalizing start with
  | nil =>
      cases run
      rfl
  | cons e events ih =>
      rw [run?_cons] at run
      obtain ⟨after, stepped, rest⟩ := Option.bind_eq_some_iff.mp run
      simp only [List.cons_append, along, stepped, ih rest, Bool.and_assoc]

theorem along_and {condition other : Traffic → Event → Bool} {start : Traffic}
    {events : List Event} (met : start.along condition events = true)
    (met' : start.along other events = true) :
    start.along (fun t e => condition t e && other t e) events = true := by
  induction events generalizing start with
  | nil => rfl
  | cons e events ih =>
      simp only [along, Bool.and_eq_true] at met met' ⊢
      refine ⟨⟨met.1, met'.1⟩, ?_⟩
      split
      · rfl
      next after stepped =>
        rw [stepped] at met met'
        exact ih met.2 met'.2

theorem along_of_forall {condition : Traffic → Event → Bool}
    {events : List Event} (met : ∀ t, ∀ e ∈ events, condition t e = true)
    (start : Traffic) :
    start.along condition events = true := by
  induction events generalizing start with
  | nil => rfl
  | cons e events ih =>
      rw [along, met start e List.mem_cons_self, Bool.true_and]
      split
      · rfl
      · exact ih (fun t e among => met t e (List.mem_cons_of_mem _ among)) _

theorem along_true (start : Traffic) (events : List Event) :
    start.along (fun _ _ => true) events = true :=
  along_of_forall (fun _ _ _ => rfl) start

end Traffic

/-! ## What a call has before it -/

/-- What a call has before it: a part and those behind it. -/
inductive Due (call : Call) : Part → List Part → Prop where
  | store {uri text : Text}
      (revises : ∀ other, call.revision other =
        if other = uri then some (some text) else none) :
      Due call (.store uri text) [.analyze uri text]
  | analyze {uri text : Text}
      (revises : ∀ other, call.revision other =
        if other = uri then some (some text) else none) :
      Due call (.analyze uri text) []
  | drop {uri : Text}
      (revises : ∀ other, call.revision other =
        if other = uri then some none else none) :
      Due call (.drop uri) [.forget uri]
  | forget {uri : Text}
      (revises : ∀ other, call.revision other =
        if other = uri then some none else none) :
      Due call (.forget uri) []
  | consult (uri : Text) : Due call (.consult uri) [.conclude uri]
  | conclude (uri : Text) : Due call (.conclude uri) []

theorem Due.of_questionParts {s : Session} {call : Call} {uri : Text}
    {isAsked : Text → Bool} {part : Part} {rest : List Part}
    (parts : s.questionParts uri isAsked = part :: rest) :
    Due call part rest := by
  unfold Session.questionParts at parts
  split at parts
  next =>
    split at parts
    next =>
      cases parts
      exact .consult uri
    next => cases parts
  next => cases parts

/-- A call begins with its first part. -/
theorem Due.of_parts {s : Session} {call : Call} {part : Part}
    {rest : List Part} (parts : s.parts call = part :: rest) :
    Due call part rest := by
  cases call with
  | introduce | introduced | setTrace | shutdown => cases parts
  | opened uri text =>
      cases parts
      exact .store fun _ => rfl
  | changed uri text =>
      cases text with
      | none => cases parts
      | some text =>
          cases parts
          exact .store fun _ => rfl
  | closed uri =>
      cases parts
      exact .drop fun _ => rfl
  | complete | explain | define | refer | outline =>
      exact .of_questionParts parts

/-- Whether a part can be the first one of a call. -/
def Part.opens : Part → Bool
  | .store _ _ | .drop _ | .consult _ => true
  | .analyze _ _ | .forget _ | .conclude _ => false

theorem Session.opens_of_parts {s : Session} {call : Call} {part : Part}
    {rest : List Part} (parts : s.parts call = part :: rest) :
    part.opens = true := by
  have question : ∀ {uri isAsked}, s.questionParts uri isAsked = part :: rest →
      part.opens = true := by
    intro uri isAsked parts
    unfold Session.questionParts at parts
    grind [Part.opens]
  cases call with
  | introduce | introduced | setTrace | shutdown => cases parts
  | changed _ text =>
      cases text with
      | none => cases parts
      | some text =>
          cases parts
          rfl
  | opened | closed =>
      cases parts
      rfl
  | complete | explain | define | refer | outline => exact question parts

theorem Session.consult_ne_none (s : Session) (uri : Text) :
    s.consult uri ≠ .none := by
  intro unanswered
  unfold consult at unanswered
  split at unanswered
  next => cases unanswered
  next => split at unanswered <;> cases unanswered

/-- After a part a call has the next one before it. -/
theorem Due.next {call : Call} {part next : Part} {rest : List Part}
    (due : Due call part (next :: rest)) : Due call next rest := by
  cases due with
  | store revises => exact .analyze revises
  | drop revises => exact .forget revises
  | consult uri => exact .conclude uri

namespace Traffic

variable {t after : Traffic} {calls : List Call} {e : Event}

/-! ## What is left of calls -/

/-- What is left of each call is due. -/
structure Numbered (calls : List Call) (t : Traffic) : Prop where
  length : t.calls.length = calls.length
  due : ∀ (number : Nat) part rest, t.calls[number]? = some (part :: rest) →
    ∃ call, calls[number]? = some call ∧ Due call part rest

theorem getElem?_set_due {number other : Nat} {rest rest' : List Part}
    {parts : List Part} (due : t.calls[number]? = some rest)
    (found : (t.calls.set number rest')[other]? = some parts) :
    (other = number ∧ parts = rest') ∨
      (other ≠ number ∧ t.calls[other]? = some parts) := by
  obtain ⟨inside, -⟩ := List.getElem?_eq_some_iff.mp due
  by_cases same : other = number
  · subst same
    rw [List.getElem?_set_self inside] at found
    exact .inl ⟨rfl, (Option.some.inj found).symm⟩
  · rw [List.getElem?_set_ne (Ne.symm same)] at found
    exact .inr ⟨same, found⟩

theorem getElem?_called {calls : List (List Part)} {other : Nat}
    {new parts : List Part} (found : (calls ++ [new])[other]? = some parts) :
    (other = calls.length ∧ parts = new) ∨ calls[other]? = some parts := by
  rcases Nat.lt_or_ge other calls.length with below | above
  · rw [List.getElem?_append_left below] at found
    exact .inr found
  · rw [List.getElem?_append_right above, List.getElem?_singleton] at found
    split at found
    next zero =>
      cases found
      exact .inl ⟨by omega, rfl⟩
    next => cases found

theorem Numbered.move (numbered : Numbered calls t) (moves : t.Moves e after) :
    Numbered (calls ++ e.call?.toList) after := by
  cases moves with
  | called call =>
      refine ⟨by simp [numbered.length, Event.call?], ?_⟩
      intro number part rest found
      rcases getElem?_called found with ⟨rfl, parts⟩ | before
      · rw [numbered.length]
        exact ⟨call, by simp [Event.call?], .of_parts parts.symm⟩
      · obtain ⟨earlier, there, due⟩ := numbered.due number part rest before
        refine ⟨earlier, ?_, due⟩
        rw [List.getElem?_append_left (List.getElem?_eq_some_iff.mp there).1]
        exact there
  | @performed number part rest next due does =>
      rw [Event.call?, Option.toList_none, List.append_nil]
      refine ⟨by rw [List.length_set, numbered.length], ?_⟩
      intro other part' rest' found
      rcases getElem?_set_due due found with ⟨rfl, rfl⟩ | ⟨-, before⟩
      · obtain ⟨call, there, due'⟩ := numbered.due other part _ due
        exact ⟨call, there, due'.next⟩
      · exact numbered.due other part' rest' before
  | arrived =>
      rw [Event.call?, Option.toList_none, List.append_nil]
      exact ⟨numbered.length, numbered.due⟩

/-! ## One question at a time -/

/-- A call in the middle of a question is the only one, and the worker is busy
with it. -/
def OneQuestion (t : Traffic) : Prop :=
  ∀ (number : Nat) uri rest, t.calls[number]? = some (.conclude uri :: rest) →
    t.question ≠ .none ∧
      ∀ (other : Nat) uri' rest',
      t.calls[other]? = some (.conclude uri' :: rest') →
        other = number

theorem OneQuestion.move (one : OneQuestion t) (numbered : Numbered calls t)
    (moves : t.Moves e after) : OneQuestion after := by
  intro number uri rest found
  cases moves with
  | called call =>
      have earlier : ∀ {other : Nat} {uri rest},
          (t.calls ++ [t.session.parts call])[other]? =
            some (.conclude uri :: rest) →
          t.calls[other]? = some (.conclude uri :: rest) := by
        intro other uri rest found
        refine (getElem?_called found).resolve_left ?_
        rintro ⟨-, parts⟩
        cases Session.opens_of_parts parts.symm
      obtain ⟨busy, only⟩ := one number uri rest (earlier found)
      exact ⟨busy, fun other uri' rest' found' =>
        only other uri' rest' (earlier found')⟩
  | arrived => exact one number uri rest found
  | @performed acting part left next due does =>
      obtain ⟨call, -, due'⟩ := numbered.due acting part left due
      rcases getElem?_set_due due found with ⟨rfl, rfl⟩ | ⟨different, before⟩
      · -- The call has just begun its question, so the worker was free before.
        cases due'
        cases does with
        | consult _ free =>
            refine ⟨t.session.consult_ne_none uri, ?_⟩
            intro other uri' rest' found'
            rcases getElem?_set_due due found' with ⟨same, -⟩ | ⟨-, before⟩
            · exact same
            · exact absurd free (one other uri' rest' before).1
      · -- The call was in its question already, and leaves the worker alone.
        obtain ⟨busy, only⟩ := one number uri rest before
        have idle : ∀ {uri'}, part ≠ .conclude uri' := by
          rintro uri' rfl
          exact different (only acting uri' left due).symm
        have same : next.question = t.question ∧ ∀ uri',
            part ≠ .consult uri' := by
          cases does with
          | store | drop =>
              refine ⟨rfl, ?_⟩
              intro uri' equal
              cases equal
          | analyze _ _ free | forget _ free | consult _ free =>
              exact absurd free busy
          | settled | conclude => exact absurd rfl idle
        refine ⟨same.1.symm ▸ busy, ?_⟩
        intro other uri' rest' found'
        rcases getElem?_set_due due found' with ⟨-, rfl⟩ | ⟨-, before'⟩
        · cases due'
          exact absurd rfl (same.2 uri')
        · exact only other uri' rest' before'

end Traffic

end WordMachine.Editor
