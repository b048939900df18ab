import WordMachine.Proofs.Editor.Parts

/-!
# Edits that overlap

An edit stores the text of a document first and has the worker analyze it
afterwards.  If two edits of a document overlap, the one that stores last need
not be the one that the worker comes to last.  What is left in the end is told
here: the text is that of the call that stored last, and the analysis is that of
the call that the worker served last.  The two belong together if this is the
same call, and otherwise only by chance.

Questions do no harm.  They fill in an analysis only if there is none, and a
text that changes meanwhile is analyzed after them.
-/

namespace WordMachine.Editor

/-! ## What parts do to a document -/

/-- What a part makes of the stored text of a document, if it changes it. -/
def Part.stores (uri : Text) : Part → Option (Option Text)
  | .store other text => if uri = other then some (some text) else none
  | .drop other => if uri = other then some none else none
  | .analyze _ _ | .forget _ | .consult _ | .conclude _ => none

/-- The text of a document that a part has the worker analyze; none if its
analysis is to be forgotten. -/
def Part.settles (uri : Text) : Part → Option (Option Text)
  | .analyze other text => if uri = other then some (some text) else none
  | .forget other => if uri = other then some none else none
  | .store _ _ | .drop _ | .consult _ | .conclude _ => none

/-- The number of the call that performed the last part of a kind. -/
def lastNumber (kind : Part → Bool) (steps : List (Nat × Part)) : Option Nat :=
  (steps.reverse.find? fun step => kind step.2).map (·.1)

def lastStored (uri : Text) : List (Nat × Part) → Option Nat :=
  lastNumber fun part => (part.stores uri).isSome

/-- The call that the worker served last for a document. -/
def lastSettled (uri : Text) : List (Nat × Part) → Option Nat :=
  lastNumber fun part => (part.settles uri).isSome

def broughtBy (calls : List Call) (uri : Text) (number : Option Nat) :
    Option Text :=
  (number.bind fun n => calls[n]?.bind (Call.revision uri)).join

/-- An analysis that is kept for a document is the one of its text. -/
def Session.Coherent (s : Session) (uri : Text) : Prop :=
  ∀ a, s.worker.workspace.get? uri = some a →
    ∃ text, s.texts.get? uri = some text ∧ a = Analysis.ofText uri text

theorem lastNumber_append (kind : Part → Bool) (steps : List (Nat × Part))
    (number : Nat) (part : Part) :
    lastNumber kind (steps ++ [(number, part)]) =
      if kind part then some number else lastNumber kind steps := by
  simp only [lastNumber, List.reverse_append, List.reverse_singleton,
    List.singleton_append, List.find?_cons]
  cases kind part <;> rfl

/-! ## Parts that are due -/

theorem Due.revision_of_stores {call : Call} {part : Part}
    {rest : List Part} {uri : Text} {text : Option Text}
    (due : Due call part rest) (stores : part.stores uri = some text) :
    call.revision uri = some text := by
  cases due with
  | store revises | drop revises => exact (revises uri).trans stores
  | analyze | forget | consult | conclude => cases stores

theorem Due.revision_of_settles {call : Call} {part : Part}
    {rest : List Part} {uri : Text} {text : Option Text}
    (due : Due call part rest) (settles : part.settles uri = some text) :
    call.revision uri = some text := by
  cases due with
  | analyze revises | forget revises => exact (revises uri).trans settles
  | store | drop | consult | conclude => cases settles

/-- A text that was stored is still to be analyzed. -/
theorem Due.settles_of_stores {call : Call} {part : Part}
    {rest : List Part} {uri : Text} {text : Option Text}
    (due : Due call part rest) (stores : part.stores uri = some text) :
    ∃ later ∈ rest, (later.settles uri).isSome = true := by
  cases due with
  | store | drop =>
      refine ⟨_, List.mem_singleton.mpr rfl, ?_⟩
      exact congrArg Option.isSome stores
  | analyze | forget | consult | conclude => cases stores

/-- Whether a call has stored a text of a document and the worker was not told
yet. -/
def isMidway (uri : Text) (parts : List Part) : Bool :=
  parts.head?.any fun part => (part.settles uri).isSome

/-- A call is midway right after it has stored a text. -/
theorem Due.isMidway_eq {call : Call} {part : Part}
    {rest : List Part} {uri : Text} (due : Due call part rest) :
    isMidway uri rest = (part.stores uri).isSome := by
  cases due <;> rfl

theorem isMidway_parts (s : Session) (call : Call) (uri : Text) :
    isMidway uri (s.parts call) = false := by
  cases parts : s.parts call with
  | nil => rfl
  | cons part rest =>
      have opens := Session.opens_of_parts parts
      cases part with
      | store | drop | consult => rfl
      | analyze | forget | conclude => cases opens

namespace Traffic

variable {t after next : Traffic} {calls : List Call}
  {steps : List (Nat × Part)} {e : Event}
  {uri : Text}

/-! ## Texts that are still to be analyzed -/

/-- A call under way is still to have the worker analyze or forget a
document. -/
def Pending (uri : Text) (t : Traffic) : Prop :=
  ∃ (number : Nat) (rest : List Part), t.calls[number]? = some rest ∧
    ∃ part ∈ rest, (part.settles uri).isSome = true

theorem not_pending_of_isQuiet (quiet : t.isQuiet = true) :
    ¬ t.Pending uri := by
  rintro ⟨number, rest, found, part, among, -⟩
  have ended := List.all_eq_true.mp quiet rest (List.mem_of_getElem? found)
  rw [List.isEmpty_iff.mp ended] at among
  cases among

/-- A text is that of a document, or the worker will be told of another. -/
def Current (uri text : Text) (t : Traffic) : Prop :=
  t.session.texts.get? uri = some text ∨ t.Pending uri

/-- A part that does not have the worker serve a document leaves it to be
served. -/
theorem Pending.perform {number : Nat} {part : Part} {rest : List Part}
    (due : t.calls[number]? = some (part :: rest))
    (unsettling : part.settles uri = none) (pending : t.Pending uri) :
    ({ next with calls := t.calls.set number rest } : Traffic).Pending uri := by
  obtain ⟨other, parts, found, later, among, settles⟩ := pending
  by_cases same : other = number
  · subst same
    rw [due] at found
    cases found
    rcases List.mem_cons.mp among with rfl | among
    · rw [unsettling] at settles
      cases settles
    · refine ⟨other, rest, ?_, later, among, settles⟩
      exact List.getElem?_set_self (List.getElem?_eq_some_iff.mp due).1
  · refine ⟨other, parts, ?_, later, among, settles⟩
    exact (List.getElem?_set_ne (Ne.symm same)).trans found

theorem Does.texts {part : Part} (does : t.Does part next) :
    next.session.texts.get? uri =
      (part.stores uri).getD (t.session.texts.get? uri) := by
  cases does with
  | store other text =>
      simp only [Session.storeText, Store.get?_set, Part.stores]
      split <;> rfl
  | drop other =>
      simp only [Session.dropText, Store.get?_erase, Part.stores]
      split <;> rfl
  | analyze | forget | consult | settled | conclude => rfl

theorem Current.perform {number : Nat} {part : Part}
    {rest : List Part} {text : Text} (numbered : Numbered calls t)
    (due : t.calls[number]? = some (part :: rest))
    (does : t.Does part next) (unsettling : part.settles uri = none)
    (current : t.Current uri text) :
    ({ next with calls := t.calls.set number rest } : Traffic).Current
      uri text := by
  rcases current with stored | pending
  · cases stores : part.stores uri with
    | none =>
        left
        change next.session.texts.get? uri = some text
        rw [does.texts, stores]
        exact stored
    | some text' =>
        obtain ⟨call, -, due'⟩ := numbered.due number part rest due
        right
        refine ⟨number, rest, ?_, due'.settles_of_stores stores⟩
        exact List.getElem?_set_self (List.getElem?_eq_some_iff.mp due).1
  · exact .inr (pending.perform due unsettling)

theorem Does.kept_of_settles {part : Part} {text : Option Text}
    (does : t.Does part next) (settles : part.settles uri = some text) :
    next.session.worker.workspace.get? uri =
      text.map (Analysis.ofText uri) := by
  cases does with
  | analyze other _ | forget other =>
      simp only [Part.settles] at settles
      split at settles
      next same =>
        cases settles
        simp [Session.keeping, same]
      next => cases settles
  | store | drop | consult | settled | conclude => cases settles

/-- Only a question fills in the analysis of a document that the worker is not
told of. -/
theorem Does.kept_of_unsettling {part : Part} (does : t.Does part next)
    (unsettling : part.settles uri = none) :
    next.session.worker.workspace.get? uri =
      t.session.worker.workspace.get? uri ∨
      ∃ text, part = .conclude uri ∧ t.question = .reading text ∧
        next.session.worker.workspace.get? uri =
          some (Analysis.ofText uri text) := by
  cases does with
  | store | drop | consult | settled => exact .inl rfl
  | analyze other _ | forget other =>
      simp only [Part.settles] at unsettling
      split at unsettling
      next => cases unsettling
      next different =>
        left
        simp [Session.keeping, different]
  | conclude other text question =>
      by_cases same : uri = other
      · subst same
        exact .inr ⟨text, rfl, question, by simp [Session.keeping]⟩
      · left
        simp [Session.keeping, same]

/-! ## What the worker keeps -/

/-- An analysis that is kept for a document is one that a question has filled
in. -/
def Filled (uri : Text) (t : Traffic) : Prop :=
  ∀ a, t.session.worker.workspace.get? uri = some a →
    ∃ text, a = Analysis.ofText uri text ∧ t.Current uri text

/-- What the worker keeps of a document once it was told of a text. -/
def Keeps (uri : Text) (t : Traffic) : Option Text → Prop
  | some text =>
    t.session.worker.workspace.get? uri = some (Analysis.ofText uri text)
  | none => t.Filled uri

/-- A text is the one that a call gave a document; without a call there is
none. -/
def Brings (calls : List Call) (uri : Text) (number : Option Nat)
    (text : Option Text) : Prop :=
  match number with
  | none => text = none
  | some n => calls[n]?.bind (Call.revision uri) = some text

theorem Brings.broughtBy_eq {number : Option Nat} {text : Option Text}
    (brings : Brings calls uri number text) :
    broughtBy calls uri number = text := by
  cases number with
  | none => exact brings.symm
  | some n => exact congrArg Option.join brings

theorem Brings.append {number : Option Nat} {text : Option Text}
    (brings : Brings calls uri number text) (more : List Call) :
    Brings (calls ++ more) uri number text := by
  cases number with
  | none => exact brings
  | some n =>
      obtain ⟨call, there, revision⟩ := Option.bind_eq_some_iff.mp brings
      refine Option.bind_eq_some_iff.mpr ⟨call, ?_, revision⟩
      rw [List.getElem?_append_left (List.getElem?_eq_some_iff.mp there).1]
      exact there

/-- The text of a document and its analysis follow the calls that stored and
that were served last. -/
structure Follows (uri : Text) (calls : List Call) (steps : List (Nat × Part))
    (t : Traffic) :
    Prop where
  stored : Brings calls uri (lastStored uri steps) (t.session.texts.get? uri)
  settled : ∃ text, Brings calls uri (lastSettled uri steps) text ∧
    t.Keeps uri text
  /-- A question about the document that has read its text will have something
  to fill in. -/
  reading : ∀ (number : Nat) rest text,
  t.calls[number]? = some (.conclude uri :: rest) →
    t.question = .reading text →
      t.session.worker.workspace.get? uri = none ∧ t.Current uri text

/-- A call that comes changes nothing yet. -/
theorem Current.called {call : Call} {text : Text}
    (current : t.Current uri text) :
    ({ t with calls := t.calls ++ [t.session.parts call] } : Traffic).Current
      uri text := by
  refine current.imp_right ?_
  rintro ⟨number, rest, found, later⟩
  refine ⟨number, rest, ?_, later⟩
  exact (List.getElem?_append_left (List.getElem?_eq_some_iff.mp found).1).trans
    found

theorem Keeps.imp {text : Option Text} (keeps : t.Keeps uri text)
    (kept : after.session.worker.workspace.get? uri =
      t.session.worker.workspace.get? uri)
    (current : ∀ text, t.Current uri text → after.Current uri text) :
    after.Keeps uri text := by
  cases text with
  | some text => exact kept.trans keeps
  | none =>
      intro a found
      obtain ⟨text, rfl, was⟩ := keeps a (kept.symm.trans found)
      exact ⟨text, rfl, current text was⟩

theorem Follows.called (follows : Follows uri calls steps t) (call : Call) :
    Follows uri (calls ++ [call]) steps { t with calls := t.calls ++
      [t.session.parts call] } := by
  refine ⟨follows.stored.append _, ?_, ?_⟩
  · obtain ⟨text, brings, keeps⟩ := follows.settled
    exact ⟨text, brings.append _, keeps.imp rfl fun _ => Current.called⟩
  · intro number rest text found reading
    have before := (getElem?_called found).resolve_left fun new =>
      nomatch Session.opens_of_parts new.2.symm
    exact (follows.reading number rest text before reading).imp_right
      Current.called

section Performed

variable {number : Nat} {part : Part} {rest : List Part}

theorem Follows.stored_performed (follows : Follows uri calls steps t)
    (numbered : Numbered calls t) (due : t.calls[number]? = some (part :: rest))
    (does : t.Does part next) :
    Brings calls uri (lastStored uri (steps ++ [(number, part)]))
      (next.session.texts.get? uri) := by
  rw [lastStored, lastNumber_append, does.texts]
  cases stores : part.stores uri with
  | none => exact follows.stored
  | some text =>
      obtain ⟨call, there, due'⟩ := numbered.due number part rest due
      exact Option.bind_eq_some_iff.mpr ⟨call, there,
        due'.revision_of_stores stores⟩

theorem Follows.settled_performed (follows : Follows uri calls steps t)
    (numbered : Numbered calls t) (due : t.calls[number]? = some (part :: rest))
    (does : t.Does part next) :
    ∃ text, Brings calls uri
      (lastSettled uri (steps ++ [(number, part)])) text ∧
      ({ next with calls := t.calls.set number rest } : Traffic).Keeps
        uri text := by
  rw [lastSettled, lastNumber_append]
  cases settles : part.settles uri with
  | some text =>
      obtain ⟨call, there, due'⟩ := numbered.due number part rest due
      have revision := due'.revision_of_settles settles
      refine ⟨text, Option.bind_eq_some_iff.mpr ⟨call, there, revision⟩, ?_⟩
      have kept := does.kept_of_settles settles
      cases text with
      | some text => exact kept
      | none =>
          intro a found
          cases kept.symm.trans found
  | none =>
      obtain ⟨text, brings, keeps⟩ := follows.settled
      refine ⟨text, brings, ?_⟩
      have current := fun text (was : t.Current uri text) =>
        was.perform numbered due does settles
      rcases does.kept_of_unsettling settles with
        same | ⟨read, rfl, reading, filled⟩
      · exact keeps.imp same current
      · -- A question has filled in an analysis where there was none.
        obtain ⟨missing, was⟩ := follows.reading number rest read due reading
        cases text with
        | some text => cases missing.symm.trans keeps
        | none =>
            intro a found
            exact ⟨read, Option.some.inj (found.symm.trans filled),
              current read was⟩

theorem Follows.reading_performed (follows : Follows uri calls steps t)
    (numbered : Numbered calls t) (one : OneQuestion t)
    (running : t.session.worker.stopped = false)
    (due : t.calls[number]? = some (part :: rest)) (does : t.Does part next)
    {other : Nat} {rest' : List Part} {text : Text}
    (found : (t.calls.set number rest)[other]? = some (.conclude uri :: rest'))
    (reading : next.question = .reading text) :
    next.session.worker.workspace.get? uri = none ∧
      ({ next with calls := t.calls.set number rest } : Traffic).Current
        uri text := by
  rcases getElem?_set_due due found with ⟨-, rfl⟩ | ⟨different, before⟩
  · -- The question has just begun and has read the text that is stored.
    obtain ⟨call, -, due'⟩ := numbered.due number part _ due
    cases due'
    cases does with
    | consult =>
        simp only [Session.consult, running, Bool.false_eq_true,
          if_false] at reading
        split at reading
        next missing stored =>
          cases reading
          exact ⟨missing, .inl stored⟩
        next => cases reading
  · -- The question has begun before, and this part does not touch the worker.
    obtain ⟨busy, only⟩ := one other uri rest' before
    cases does with
    | analyze _ _ free | forget _ free | consult _ free =>
        exact absurd free busy
    | settled | conclude => exact absurd (only number _ rest due).symm different
    | store uri' text' =>
        have was := follows.reading other rest' text before reading
        exact was.imp_right
          (Current.perform numbered due (.store uri' text') rfl)
    | drop uri' =>
        have was := follows.reading other rest' text before reading
        exact was.imp_right (Current.perform numbered due (.drop uri') rfl)

theorem Follows.performed (follows : Follows uri calls steps t)
    (numbered : Numbered calls t) (one : OneQuestion t)
    (running : t.session.worker.stopped = false)
    (due : t.calls[number]? = some (part :: rest)) (does : t.Does part next) :
    Follows uri calls (steps ++ [(number, part)])
      { next with calls := t.calls.set number rest } := by
  have stored := follows.stored_performed numbered due does
  have settled := follows.settled_performed numbered due does
  exact ⟨stored, settled, fun _ _ _ =>
    follows.reading_performed numbered one running due does⟩

end Performed

/-- What is kept up for a document while calls overlap. -/
structure Tracked (uri : Text) (calls : List Call) (steps : List (Nat × Part))
    (t : Traffic) :
    Prop where
  running : t.session.worker.stopped = false
  numbered : Numbered calls t
  one : OneQuestion t
  follows : Follows uri calls steps t

theorem Tracked.move (tracked : Tracked uri calls steps t)
    (moves : t.Moves e after) :
    Tracked uri (calls ++ e.call?.toList)
      (steps ++ (t.part? e).toList) after := by
  refine ⟨moves.running tracked.running, tracked.numbered.move moves,
    tracked.one.move tracked.numbered moves, ?_⟩
  cases moves with
  | called call =>
      rw [part?, Option.toList_none, List.append_nil]
      exact tracked.follows.called call
  | performed due does =>
      rw [part?_proceed due, Event.call?, Option.toList_none, List.append_nil]
      exact tracked.follows.performed tracked.numbered tracked.one
        tracked.running due does
  | arrived =>
      rw [part?, Event.call?, Option.toList_none, Option.toList_none,
        List.append_nil, List.append_nil]
      exact ⟨tracked.follows.stored, tracked.follows.settled,
        tracked.follows.reading⟩

theorem tracked_introduced (uri : Text) :
    Tracked uri [] [] introduced where
  running := rfl
  numbered := ⟨rfl, nofun⟩
  one := nofun
  follows := ⟨rfl, ⟨none, rfl, nofun⟩, nofun⟩

theorem tracked_of_run? {events : List Event}
    (run : introduced.run? events = some t) (uri : Text) :
    Tracked uri (made events) (introduced.performed events) t :=
  introduced_induction (fun _ _ _ _ _ tracked _ moves => tracked.move moves)
    (tracked_introduced uri) run (along_true _ events)

/-! ## Edits one after the other -/

/-- Whether an event stores no text of a document while another call is
midway. -/
def isApart (uri : Text) (t : Traffic) (e : Event) : Bool :=
  (t.part? e).all fun step =>
    (step.2.stores uri).isNone || t.calls.all fun parts => !isMidway uri parts

/-- Only the call that stored last can be midway, and if none is the worker was
told of the last text. -/
structure Apart (uri : Text) (steps : List (Nat × Part))
    (t : Traffic) : Prop where
  midway : ∀ (number : Nat) parts, t.calls[number]? = some parts →
    isMidway uri parts = true → lastStored uri steps = some number
  told : (∀ parts ∈ t.calls, isMidway uri parts = false) →
    lastStored uri steps = lastSettled uri steps

theorem Apart.performed {number : Nat} {part : Part} {rest : List Part}
    (apart : Apart uri steps t) (numbered : Numbered calls t)
    (due : t.calls[number]? = some (part :: rest))
    (met : (part.stores uri).isSome = true → ∀ parts ∈ t.calls,
      isMidway uri parts = false) :
    Apart uri (steps ++ [(number, part)])
    { next with calls := t.calls.set number rest } := by
  obtain ⟨call, -, due'⟩ := numbered.due number part rest due
  obtain ⟨inside, -⟩ := List.getElem?_eq_some_iff.mp due
  constructor
  · intro other parts found midway
    rw [lastStored, lastNumber_append]
    rcases getElem?_set_due due found with ⟨rfl, rfl⟩ | ⟨-, before⟩
    · rw [due'.isMidway_eq] at midway
      rw [if_pos midway]
    · have stores : ¬ (part.stores uri).isSome = true := by
        intro stores
        rw [met stores parts (List.mem_of_getElem? before)] at midway
        cases midway
      rw [if_neg stores]
      exact apart.midway other parts before midway
  · intro settled
    have stores : ¬ (part.stores uri).isSome = true := by
      rw [← due'.isMidway_eq,
        settled rest (List.mem_of_getElem? (List.getElem?_set_self inside))]
      exact Bool.false_ne_true
    rw [lastStored, lastSettled, lastNumber_append, lastNumber_append,
      if_neg stores]
    split
    next settles => exact apart.midway number _ due settles
    next settles =>
      refine apart.told ?_
      intro parts among
      obtain ⟨other, found⟩ := List.getElem?_of_mem among
      by_cases same : other = number
      · subst same
        cases due.symm.trans found
        exact Bool.eq_false_iff.mpr settles
      · refine settled parts (List.mem_of_getElem? (i := other) ?_)
        exact (List.getElem?_set_ne (Ne.symm same)).trans found

theorem Apart.move (apart : Apart uri steps t) (numbered : Numbered calls t)
    (met : t.isApart uri e = true) (moves : t.Moves e after) :
    Apart uri (steps ++ (t.part? e).toList) after := by
  cases moves with
  | called call =>
      rw [part?, Option.toList_none, List.append_nil]
      constructor
      · intro number parts found midway
        refine apart.midway number parts
          ((getElem?_called found).resolve_left ?_) midway
        rintro ⟨-, rfl⟩
        rw [isMidway_parts] at midway
        cases midway
      · intro settled
        exact apart.told fun parts among =>
          settled parts (List.mem_append_left _ among)
  | performed due does =>
      rw [part?_proceed due]
      refine apart.performed numbered due ?_
      intro stores parts among
      simp only [isApart, part?_proceed due, Option.all_some, Bool.or_eq_true,
        Option.isNone_iff_eq_none, List.all_eq_true, Bool.not_eq_true'] at met
      rcases met with unstored | met
      · rw [unstored] at stores
        cases stores
      · exact met parts among
  | arrived =>
      rw [part?, Option.toList_none, List.append_nil]
      exact ⟨apart.midway, apart.told⟩

/-- If calls store texts of a document only while no call is midway, the one
that stored last is the one that the worker served last. -/
theorem lastStored_eq_lastSettled {events : List Event}
    (run : introduced.run? events = some t)
    (quiet : t.isQuiet = true)
    (met : introduced.along (isApart uri) events = true) :
    lastStored uri (introduced.performed events) =
      lastSettled uri (introduced.performed events) := by
  have initial : Apart uri [] introduced := ⟨nofun, fun _ => rfl⟩
  have apart : Numbered (made events) t ∧
      Apart uri (introduced.performed events) t :=
    introduced_induction
      (motive := fun calls steps t => Numbered calls t ∧ Apart uri steps t)
      (fun _ _ _ _ _ apart met moves =>
        ⟨apart.1.move moves, apart.2.move apart.1 met moves⟩)
      ⟨(tracked_introduced uri).numbered, initial⟩ run met
  refine apart.2.told ?_
  intro parts among
  have ended := List.all_eq_true.mp quiet parts among
  rw [List.isEmpty_iff.mp ended]
  rfl

/-! ## What is left in the end -/

/-- Once all calls have ended, whichever way they overlapped, the text of a
document is that of the call that stored last and its analysis is that of the
call that the worker served last.  The two belong together exactly if both texts
have the same analysis, and always if no text is stored while another call is
midway. -/
theorem coherent_iff_last_served {events : List Event}
    (run : introduced.run? events = some t) (quiet : t.isQuiet = true)
    (uri : Text) :
    t.session.texts.get? uri =
        broughtBy (made events) uri
          (lastStored uri (introduced.performed events)) ∧
      (∀ text,
        broughtBy (made events) uri
          (lastSettled uri (introduced.performed events)) = some text →
          t.session.worker.workspace.get? uri =
            some (Analysis.ofText uri text)) ∧
      (t.session.Coherent uri ↔ ∀ text,
        broughtBy (made events) uri
          (lastSettled uri (introduced.performed events)) = some text →
          ∃ latest,
            broughtBy (made events) uri
              (lastStored uri (introduced.performed events)) =
              some latest ∧
            Analysis.ofText uri text = Analysis.ofText uri latest) ∧
      (introduced.along (isApart uri) events = true →
        t.session.Coherent uri) := by
  obtain ⟨stored, ⟨told, brings, keeps⟩, -⟩ := (tracked_of_run? run uri).follows
  rw [stored.broughtBy_eq, brings.broughtBy_eq]
  have coherent : (∀ text, told = some text → ∃ latest,
      t.session.texts.get? uri = some latest ∧
        Analysis.ofText uri text = Analysis.ofText uri latest) →
          t.session.Coherent uri := by
    intro same a kept
    cases told with
    | none =>
        obtain ⟨text, rfl, current⟩ := keeps a kept
        exact ⟨text, current.resolve_right (not_pending_of_isQuiet quiet), rfl⟩
    | some text =>
        obtain ⟨latest, found, equal⟩ := same text rfl
        exact ⟨latest, found,
          (Option.some.inj (kept.symm.trans keeps)).trans equal⟩
  refine ⟨rfl, ?_, ⟨?_, coherent⟩, ?_⟩
  · rintro text rfl
    exact keeps
  · rintro together text rfl
    exact together _ keeps
  · intro met
    refine coherent ?_
    rintro text rfl
    rw [← lastStored_eq_lastSettled run quiet met] at brings
    refine ⟨text, ?_, rfl⟩
    rw [← stored.broughtBy_eq, brings.broughtBy_eq]

/-- A document is opened and changed at once: both calls store their texts
before the worker is told of either, in an order of their own. -/
def twoEdits (first second : Nat) : List Event :=
  [.call (.opened (.ofString "a") (.ofString "x: end")),
    .call (.changed (.ofString "a") (some (.ofString "y: end"))),
    .proceed 0, .proceed 1, .proceed first, .proceed second]

/-- If the worker is told of the texts in the order in which they were stored,
nothing is stale, though the edits overlap. -/
theorem coherent_iff_last_served_twoEdits :
    ∃ t, introduced.run? (twoEdits 0 1) = some t ∧ t.isQuiet = true ∧
      introduced.along (isApart (.ofString "a")) (twoEdits 0 1) = false ∧
      t.session.Coherent (.ofString "a") := by
  have ends : (introduced.run? (twoEdits 0 1)).map isQuiet = some true := by
    decide +kernel
  obtain ⟨t, run, quiet⟩ := Option.map_eq_some_iff.mp ends
  refine ⟨t, run, quiet, by decide +kernel, ?_⟩
  refine (coherent_iff_last_served run quiet _).2.2.1.mpr ?_
  intro text told
  exact ⟨text, told, rfl⟩

/-- A document is opened and closed at once, and the worker is told of the
closing first. -/
def openedLate : List Event :=
  [.call (.opened (.ofString "a") (.ofString "x: end")),
    .call (.closed (.ofString "a")), .proceed 0, .proceed 1,
    .proceed 1, .proceed 0]

/-- Calls that overlap can leave a stale analysis behind.  After two edits of
which the worker is told the other way round the document has the label `y`, and
its outline shows `x`.  After an opening that the worker is told of too late
there is an analysis of a document that is closed. -/
theorem overlap_leaves_stale_analyses :
    (∃ t, introduced.run? (twoEdits 1 0) = some t ∧ t.isQuiet = true ∧
      t.session.texts.get? (.ofString "a") = some (.ofString "y: end") ∧
      (symbols (t.session.worker.workspace.get? (.ofString "a"))).map (·.name) =
        [.ofString "x"] ∧
      ¬ t.session.Coherent (.ofString "a")) ∧
    ∃ t, introduced.run? openedLate = some t ∧ t.isQuiet = true ∧
      t.session.texts.get? (.ofString "a") = none ∧
      (t.session.worker.workspace.get? (.ofString "a")).isSome = true ∧
      ¬ t.session.Coherent (.ofString "a") := by
  constructor
  · have ends : (introduced.run? (twoEdits 1 0)).map (fun t =>
          (t.isQuiet, t.session.texts.get? (.ofString "a"),
            (symbols (t.session.worker.workspace.get? (.ofString "a"))).map
              (·.name))) =
        some (true, some (.ofString "y: end"), [.ofString "x"]) := by
      decide +kernel
    obtain ⟨t, run, result⟩ := Option.map_eq_some_iff.mp ends
    simp only [Prod.mk.injEq] at result
    obtain ⟨quiet, stored, shown⟩ := result
    refine ⟨t, run, quiet, stored, shown, ?_⟩
    intro together
    cases kept : t.session.worker.workspace.get? (.ofString "a") with
    | none =>
        rw [kept] at shown
        cases shown
    | some a =>
        obtain ⟨text, found, rfl⟩ := together a kept
        cases Option.some.inj (stored.symm.trans found)
        rw [kept] at shown
        revert shown
        decide +kernel
  · have ends : (introduced.run? openedLate).map (fun t =>
          (t.isQuiet, (t.session.texts.get? (.ofString "a")).isNone,
            (t.session.worker.workspace.get? (.ofString "a")).isSome)) =
        some (true, true, true) := by
      decide +kernel
    obtain ⟨t, run, result⟩ := Option.map_eq_some_iff.mp ends
    simp only [Prod.mk.injEq, Option.isNone_iff_eq_none] at result
    obtain ⟨quiet, closed, isKept⟩ := result
    refine ⟨t, run, quiet, closed, isKept, ?_⟩
    intro together
    obtain ⟨a, kept⟩ := Option.isSome_iff_exists.mp isKept
    obtain ⟨text, found, -⟩ := together a kept
    cases closed.symm.trans found

end Traffic

end WordMachine.Editor
