import WordMachine.Proofs.Editor.Parts

/-!
# Delivery of diagnostics

Whenever a document is opened, changed or closed, a notice with its diagnostics
is sent.  Notices are on their way at the same time, and nothing keeps a later
one from overtaking an earlier one.  Even if calls are made one after the other,
their notices arrive in every order there is (`Traffic.exists_delivery`), but
none is lost and none arrives twice.

What the editor has in the end are the diagnostics of the latest text if the
notices of a document keep their order, and in general only then.
-/

namespace WordMachine.Editor

/-! ## Notices -/

/-- The notices that a part sends while the worker is running. -/
def Part.notices : Part → List Notice
  | .analyze uri text => [⟨uri, diagnostics (Analysis.ofText uri text) text⟩]
  | .forget uri => [⟨uri, []⟩]
  | .store _ _ | .drop _ | .consult _ | .conclude _ => []

/-- The notices that belong to a call: the diagnostics of the text that it gives
a document, or that there are none any more. -/
def Call.notices : Call → List Notice
  | .opened uri text | .changed uri (some text) =>
    [⟨uri, diagnostics (Analysis.ofText uri text) text⟩]
  | .closed uri => [⟨uri, []⟩]
  | .changed _ none | .introduce | .introduced | .setTrace | .shutdown
  | .complete _ _ | .explain _ _ | .define _ _ | .refer _ _ _ | .outline _ => []

/-- The notice of a document that comes last in a row of notices. -/
def lastAbout (uri : Text) (notices : List Notice) : Option Notice :=
  (notices.filter (·.uri == uri)).getLast?

theorem Session.notices_questionParts (s : Session) (uri : Text)
    (isAsked : Text → Bool) :
    (s.questionParts uri isAsked).flatMap Part.notices = [] := by
  unfold questionParts
  split
  · split <;> rfl
  · rfl

/-- The parts of a call send what belongs to it. -/
theorem Session.notices_parts (s : Session) (call : Call) :
    (s.parts call).flatMap Part.notices = call.notices := by
  cases call with
  | introduce | introduced | setTrace | shutdown | opened | closed => rfl
  | changed _ text => cases text <;> rfl
  | complete | explain | define | refer | outline =>
      exact s.notices_questionParts _ _

namespace Traffic

variable {t after next : Traffic} {calls : List Call} {e : Event} {part : Part}
  {rest : List Part} {number : Nat} {uri : Text}

theorem Does.sent (does : t.Does part next) :
    next.sent = t.sent ++ part.notices := by
  cases does with
  | analyze | forget => rfl
  | store | drop | consult | settled | conclude =>
      exact (List.append_nil _).symm

theorem Does.arrived (does : t.Does part next) : next.arrived = t.arrived := by
  cases does <;> rfl

/-! ## Nothing is lost -/

/-- The notices that arrived, those on their way and those still to be sent. -/
def posted (t : Traffic) : List Notice :=
  t.arrived ++ t.sent ++ t.calls.flatten.flatMap Part.notices

theorem posted_called (t : Traffic) (call : Call) :
    ({ t with calls := t.calls ++ [t.session.parts call] } : Traffic).posted =
      t.posted ++ call.notices := by
  simp [posted, Session.notices_parts]

theorem eq_take_cons_drop {α : Type} {l : List α} {index : Nat} {a : α}
    (found : l[index]? = some a) :
    l = l.take index ++ a :: l.drop (index + 1) := by
  obtain ⟨inside, rfl⟩ := List.getElem?_eq_some_iff.mp found
  rw [← List.drop_eq_getElem_cons inside, List.take_append_drop]

theorem perm_eraseIdx {sent : List Notice} {index : Nat} {notice : Notice}
    (found : sent[index]? = some notice) :
    (notice :: sent.eraseIdx index).Perm sent := by
  rw [List.eraseIdx_eq_take_drop_succ]
  exact List.perm_middle.symm.trans (.of_eq (eq_take_cons_drop found).symm)

/-- A part that is performed is taken off the parts that are left. -/
theorem flatten_set {calls : List (List Part)}
    (due : calls[number]? = some (part :: rest)) :
    calls.flatten =
        (calls.take number).flatten ++ part ::
          (rest ++ (calls.drop (number + 1)).flatten) ∧
      (calls.set number rest).flatten =
        (calls.take number).flatten ++
          (rest ++ (calls.drop (number + 1)).flatten) := by
  obtain ⟨inside, -⟩ := List.getElem?_eq_some_iff.mp due
  constructor
  · have parts := congrArg List.flatten (eq_take_cons_drop due)
    simpa using parts
  · simp [List.set_eq_take_append_cons_drop, inside]

/-- Apart from the notices of a call that comes, an event only moves notices
on. -/
theorem Moves.posted_perm (moves : t.Moves e after) :
    after.posted.Perm (t.posted ++ e.call?.toList.flatMap Call.notices) := by
  cases moves with
  | called call =>
      rw [posted_called]
      simp [Event.call?]
  | @performed number part rest next due does =>
      obtain ⟨before, behind⟩ := flatten_set due
      have moved : t.calls.flatten.Perm
          (part :: (t.calls.set number rest).flatten) := by
        rw [before, behind]
        exact List.perm_middle
      simp only [posted, does.sent, does.arrived, Event.call?,
        Option.toList_none, List.flatMap_nil, List.append_nil,
        List.append_assoc]
      refine List.Perm.append_left _ (List.Perm.append_left _ ?_)
      exact (moved.flatMap_right Part.notices).symm
  | @arrived index notice sent =>
      simp only [posted, Event.call?, Option.toList_none, List.flatMap_nil,
        List.append_nil, List.append_assoc]
      refine List.Perm.append_left _ ?_
      exact (perm_eraseIdx sent).append_right _

/-- Whichever way calls overlap, everything they are to send arrives, is on its
way or will be sent. -/
theorem posted_perm_of_run? {events : List Event}
    (run : introduced.run? events = some t) :
    t.posted.Perm ((made events).flatMap Call.notices) :=
  introduced_induction (motive := fun calls _ t =>
    t.posted.Perm (calls.flatMap Call.notices))
    (fun _ _ _ _ _ posted _ moves => by
      rw [List.flatMap_append]
      exact moves.posted_perm.trans (posted.append_right _))
    (List.Perm.refl _) run (along_true _ events)

/-! ## Calls one after the other -/

/-- Whether a call comes only when all calls before it have ended. -/
def waits (t : Traffic) : Event → Bool
  | .call _ => t.isQuiet
  | .proceed _ | .arrive _ => true

/-- Whether a notice that arrives overtakes no other one of the same
document. -/
def keepsOrder (t : Traffic) : Event → Bool
  | .arrive index => t.sent[index]?.all fun notice =>
    (t.sent.take index).all (·.uri != notice.uri)
  | .call _ | .proceed _ => true

/-- Only the last call is under way. -/
def OnlyLast (t : Traffic) : Prop :=
  ∀ (number : Nat) part rest, t.calls[number]? = some (part :: rest) →
    number + 1 = t.calls.length

theorem OnlyLast.move (last : OnlyLast t) (met : t.waits e = true)
    (moves : t.Moves e after) :
    OnlyLast after := by
  intro other part rest found
  cases moves with
  | called call =>
      rcases getElem?_called found with ⟨rfl, -⟩ | before
      · simp
      · have ended := List.all_eq_true.mp met _ (List.mem_of_getElem? before)
        cases ended
  | performed due does =>
      rw [List.length_set]
      rcases getElem?_set_due due found with ⟨rfl, -⟩ | ⟨-, before⟩
      · exact last other _ _ due
      · exact last other part rest before
  | arrived => exact last other part rest found

/-- The notices of a document have come, are on their way and will be sent in
the order of the calls. -/
def InOrder (uri : Text) (calls : List Call) (t : Traffic) : Prop :=
  t.posted.filter (·.uri == uri) =
    (calls.flatMap Call.notices).filter (·.uri == uri)

/-- If only the last call is under way, its next part is the first of all that
are left. -/
theorem OnlyLast.flatten (last : OnlyLast t)
    (due : t.calls[number]? = some (part :: rest)) :
    t.calls.flatten = part :: (t.calls.set number rest).flatten := by
  obtain ⟨before, behind⟩ := flatten_set due
  have nothing : (t.calls.take number).flatten = [] := by
    rw [List.flatten_eq_nil_iff]
    intro parts among
    obtain ⟨index, found⟩ := List.getElem?_of_mem among
    rw [List.getElem?_take] at found
    split at found
    next below =>
      cases parts with
      | nil => rfl
      | cons first others =>
          have length := last number part rest due
          have earlier := last index first others found
          omega
    next => cases found
  rw [before, behind, nothing, List.nil_append, List.nil_append]

theorem filter_taken_off (uri : Text) {index : Nat} {notice : Notice}
    {sent : List Notice} (found : sent[index]? = some notice)
    (first : (sent.take index).all (·.uri != notice.uri) = true) :
    ([notice] ++ sent.eraseIdx index).filter (·.uri == uri) =
      sent.filter (·.uri == uri) := by
  have split := congrArg (List.filter (·.uri == uri)) (eq_take_cons_drop found)
  rw [List.eraseIdx_eq_take_drop_succ, split]
  by_cases about : notice.uri = uri
  · have unmet : (sent.take index).filter (·.uri == uri) = [] := by
      rw [List.filter_eq_nil_iff]
      intro earlier among
      have other := List.all_eq_true.mp first earlier among
      simpa [about] using other
    simp [unmet, about]
  · simp [about]

theorem InOrder.move (order : InOrder uri calls t) (last : OnlyLast t)
    (met : t.keepsOrder e = true) (moves : t.Moves e after) :
    InOrder uri (calls ++ e.call?.toList) after := by
  cases moves with
  | called call =>
      rw [InOrder, posted_called, List.filter_append, order]
      simp [Event.call?]
  | performed due does =>
      rw [Event.call?, Option.toList_none, List.append_nil, InOrder, ← order]
      simp [posted, does.sent, does.arrived, last.flatten due]
  | @arrived index notice sent =>
      rw [Event.call?, Option.toList_none, List.append_nil, InOrder, ← order]
      simp only [keepsOrder, sent, Option.all_some] at met
      have kept := filter_taken_off uri sent met
      simp only [posted, List.filter_append, List.append_assoc] at kept ⊢
      rw [← kept, List.append_assoc]

/-- Calls are made one after the other, and in the end all of their notices have
arrived. -/
structure Delivers (calls : List Call) (events : List Event)
    (t : Traffic) : Prop where
  run : introduced.run? events = some t
  waits : introduced.along waits events = true
  made : made events = calls
  quiet : t.isQuiet = true
  empty : t.sent = []

theorem posted_of_quiet (quiet : t.isQuiet = true) :
    t.posted = t.arrived ++ t.sent := by
  have nothing : t.calls.flatten = [] := by
    rw [List.flatten_eq_nil_iff]
    intro parts among
    exact List.isEmpty_iff.mp (List.all_eq_true.mp quiet parts among)
  simp [posted, nothing]

theorem Delivers.perm {events : List Event}
    (delivers : Delivers calls events t) :
    t.arrived.Perm (calls.flatMap Call.notices) := by
  have posted := posted_perm_of_run? delivers.run
  rwa [posted_of_quiet delivers.quiet, delivers.empty, List.append_nil,
    delivers.made] at posted

/-- If no notice overtakes another one of its document, those of a document
arrive in the order of the calls. -/
theorem Delivers.inOrder {events : List Event}
    (delivers : Delivers calls events t)
    (kept : introduced.along keepsOrder events = true) (uri : Text) :
    t.arrived.filter (·.uri == uri) =
      (calls.flatMap Call.notices).filter (·.uri == uri) := by
  have order : OnlyLast t ∧ InOrder uri (Traffic.made events) t :=
    introduced_induction (motive := fun calls _ t => OnlyLast t ∧
      InOrder uri calls t) (fun _ _ _ _ _ order met moves => by
        obtain ⟨waits, keeps⟩ := Bool.and_eq_true_iff.mp met
        exact ⟨order.1.move waits moves, order.2.move order.1 keeps moves⟩)
      ⟨nofun, rfl⟩ delivers.run (along_and delivers.waits kept)
  have equal := order.2
  rwa [InOrder, posted_of_quiet delivers.quiet, delivers.empty, List.append_nil,
    delivers.made] at equal

/-! ## Every order -/

/-- The calls under way play no part in what a part of a call does. -/
theorem perform?_calls (t : Traffic) (calls : List (List Part)) (part : Part) :
    ({ t with calls := calls } : Traffic).perform? part =
      (t.perform? part).map fun next => { next with calls := calls } := by
  obtain ⟨session, question, left, sent, arrived⟩ := t
  cases part <;> cases question <;> rfl

theorem performAll?_calls (t : Traffic) (calls : List (List Part))
    (parts : List Part) :
    ({ t with calls := calls } : Traffic).performAll? parts =
      (t.performAll? parts).map fun next => { next with calls := calls } := by
  induction parts generalizing t with
  | nil => rfl
  | cons part rest ih =>
      simp only [performAll?, List.foldlM_cons, perform?_calls] at ih ⊢
      cases t.perform? part with
      | none => rfl
      | some next => exact ih next

/-- A call under way can go on to its end if all its parts can be performed. -/
theorem run?_proceed {parts : List Part} (found : t.calls[number]? = some parts)
    (performed : t.performAll? parts = some next) :
    t.run? (List.replicate parts.length (.proceed number)) =
      some { next with calls := t.calls.set number [] } := by
  induction parts generalizing t next with
  | nil =>
      cases performed
      have same : t.calls.set number [] = t.calls := by
        obtain ⟨inside, ended⟩ := List.getElem?_eq_some_iff.mp found
        rw [← ended, List.set_getElem_self]
      rw [same]
      rfl
  | cons part rest ih =>
      obtain ⟨middle, first, others⟩ := Option.bind_eq_some_iff.mp performed
      replace others : middle.performAll? rest = some next := others
      have calls : middle.calls = t.calls := by
        have kept := perform?_calls t t.calls part
        rw [first, Option.map_some] at kept
        exact (congrArg Traffic.calls (Option.some.inj kept) :)
      have inside := (List.getElem?_eq_some_iff.mp found).1
      have stepped : t.step? (.proceed number) =
          some { middle with calls := t.calls.set number rest } := by
        simp only [step?, found, first, Option.map_some, calls]
      have rest' := performAll?_calls middle (t.calls.set number rest) rest
      rw [others, Option.map_some] at rest'
      rw [List.length_cons, List.replicate_succ, run?_cons, stepped,
        Option.bind_some, ih (List.getElem?_set_self inside) rest',
        List.set_set]

/-- A call that comes when no other is under way can be served to its end. -/
theorem exists_served (quiet : t.isQuiet = true) (free : t.question = .none)
    (call : Call) :
    ∃ count next,
      t.run? (.call call :: List.replicate count (.proceed t.calls.length)) =
        some next ∧ next.isQuiet = true ∧ next.question = .none ∧
          next.arrived = t.arrived := by
  obtain ⟨next, performed, question, arrived⟩ :
      ∃ next,
        Traffic.performAll?
          { t with calls := t.calls ++ [t.session.parts call] }
          (t.session.parts call) = some next ∧
        next.question = .none ∧ next.arrived = t.arrived := by
    by_cases introduction : call = .introduce
    · subst introduction
      exact ⟨_, rfl, free, rfl⟩
    · by_cases shutdown : call = .shutdown
      · subst shutdown
        exact ⟨_, rfl, free, rfl⟩
      · exact ⟨_, performAll?_parts _ call free introduction shutdown, free,
          rfl⟩
  have found : (t.calls ++ [t.session.parts call])[t.calls.length]? =
      some (t.session.parts call) := by
    simp
  refine ⟨_, _, run?_proceed found performed, ?_, question, arrived⟩
  rw [isQuiet, List.set_append_right _ _ (Nat.le_refl _)]
  simpa [isQuiet] using quiet

/-- Calls can be served one after the other while no notice arrives. -/
theorem exists_all_served (calls : List Call) (quiet : t.isQuiet = true)
    (free : t.question = .none) :
    ∃ events next, t.run? events = some next ∧ t.along waits events = true ∧
      made events = calls ∧ next.isQuiet = true ∧ next.arrived = t.arrived := by
  induction calls generalizing t with
  | nil => exact ⟨[], t, rfl, rfl, rfl, quiet, rfl⟩
  | cons call calls ih =>
      obtain ⟨count, middle, served, quiet', free', arrived⟩ :=
        exists_served quiet free call
      obtain ⟨events, next, run, waited, made', quiet'', arrived'⟩ :=
        ih quiet' free'
      refine ⟨_, next, by rwa [run?_append, served], ?_, ?_, quiet'',
        arrived'.trans arrived⟩
      · rw [along_append served, waited, Bool.and_true]
        simp only [along, waits, quiet, Bool.true_and]
        split
        · rfl
        · refine along_of_forall ?_ _
          intro _ e among
          rw [(List.mem_replicate.mp among).2]
          rfl
      · rw [← made']
        simp [made, Event.call?, List.filterMap_replicate]

/-- What is on its way can arrive in every order. -/
theorem exists_arrivals {order : List Notice} (perm : order.Perm t.sent) :
    ∃ indices : List Nat, t.run? (indices.map .arrive) =
      some { t with sent := [], arrived := t.arrived ++ order } := by
  induction order generalizing t with
  | nil =>
      have empty := perm.symm.eq_nil
      refine ⟨[], ?_⟩
      rw [List.append_nil, ← empty]
      rfl
  | cons notice order ih =>
      obtain ⟨index, found⟩ :=
        List.getElem?_of_mem (perm.subset List.mem_cons_self)
      have taken : (notice :: order).Perm (notice :: t.sent.eraseIdx index) :=
        perm.trans (perm_eraseIdx found).symm
      obtain ⟨indices, run⟩ :=
        @ih { t with
          sent := t.sent.eraseIdx index, arrived := t.arrived ++ [notice] }
          taken.cons_inv
      refine ⟨index :: indices, ?_⟩
      rw [List.map_cons, run?_cons, step?, found, Option.map_some,
        Option.bind_some, run]
      simp

/-- The notices of calls that are made one after the other can arrive in every
order. -/
theorem exists_delivery {order : List Notice}
    (perm : order.Perm (calls.flatMap Call.notices)) :
    ∃ events t, Delivers calls events t ∧ t.arrived = order := by
  obtain ⟨events, served, run, waited, made', quiet, unarrived⟩ :=
    exists_all_served (t := introduced) calls rfl rfl
  have sent : order.Perm served.sent := by
    have posted := posted_perm_of_run? run
    rw [posted_of_quiet quiet, unarrived, made'] at posted
    exact perm.trans posted.symm
  obtain ⟨indices, arrivals⟩ := exists_arrivals sent
  refine ⟨events ++ indices.map .arrive,
    { served with sent := [], arrived := served.arrived ++ order },
    ⟨by rwa [run?_append, run], ?_, ?_, quiet, rfl⟩, ?_⟩
  · rw [along_append run, waited, Bool.true_and]
    refine along_of_forall ?_ _
    intro _ e among
    obtain ⟨index, -, rfl⟩ := List.mem_map.mp among
    rfl
  · have silent : (indices.map Event.arrive).filterMap Event.call? = [] := by
      rw [List.filterMap_eq_nil_iff]
      intro e among
      obtain ⟨index, -, rfl⟩ := List.mem_map.mp among
      rfl
    rw [made, List.filterMap_append, silent, List.append_nil]
    exact made'
  · rw [unarrived]
    rfl

/-! ## The last notice -/

theorem lastAbout_eq_some {uri : Text} {notices : List Notice} {notice : Notice}
    (last : lastAbout uri notices = some notice) :
    notice ∈ notices ∧ notice.uri = uri := by
  have among := List.mem_of_getLast? last
  simpa using among

theorem lastAbout_concat (notices : List Notice) (notice : Notice) :
    lastAbout notice.uri (notices ++ [notice]) = some notice := by
  simp [lastAbout]

/-- The notices of calls that are made one after the other arrive in all orders
there are, and in no other way.  So the last one of a document to arrive is
bound to be that of the last call only if all of them are the same; but it is if
none overtakes another one of its document. -/
theorem last_notice_iff (calls : List Call) (uri : Text) :
    (∀ order, (∃ events t, Delivers calls events t ∧ t.arrived = order) ↔
        order.Perm (calls.flatMap Call.notices)) ∧
      ((∀ events t, Delivers calls events t →
          lastAbout uri t.arrived =
            lastAbout uri (calls.flatMap Call.notices)) ↔
        ∀ notice ∈ calls.flatMap Call.notices, notice.uri = uri →
          lastAbout uri (calls.flatMap Call.notices) = some notice) ∧
      ∀ events t, Delivers calls events t →
        introduced.along keepsOrder events = true →
        lastAbout uri t.arrived =
          lastAbout uri (calls.flatMap Call.notices) := by
  refine ⟨?_, ⟨?_, ?_⟩, ?_⟩
  · intro order
    constructor
    · rintro ⟨events, t, delivers, rfl⟩
      exact delivers.perm
    · exact exists_delivery
  · rintro always notice among rfl
    -- The order in which this notice comes last.
    have perm : ((calls.flatMap Call.notices).erase notice ++ [notice]).Perm
        (calls.flatMap Call.notices) :=
      List.perm_append_comm.trans (List.perm_cons_erase among).symm
    obtain ⟨events, t, delivers, arrived⟩ := exists_delivery perm
    rw [← always events t delivers, arrived, lastAbout_concat]
  · intro same events t delivers
    cases last : lastAbout uri t.arrived with
    | some notice =>
        obtain ⟨among, about⟩ := lastAbout_eq_some last
        exact (same notice (delivers.perm.subset among) about).symm
    | none =>
        have empty := List.getLast?_eq_none_iff.mp last
        have perm := delivers.perm.filter (·.uri == uri)
        rw [empty] at perm
        rw [lastAbout, perm.symm.eq_nil]
        rfl
  · intro events t delivers kept
    rw [lastAbout, lastAbout, delivers.inOrder kept]

/-- A document with a mistake is opened and then closed, and the notices
arrive. -/
def openedAndClosed (first : Nat) : List Event :=
  [.call (.opened (.ofString "a") (.ofString "jmp x")), .proceed 0, .proceed 0,
    .call (.closed (.ofString "a")), .proceed 1, .proceed 1,
    .arrive first, .arrive 0]

theorem last_notice_iff_openedAndClosed :
    ∃ t, Delivers (made (openedAndClosed 0)) (openedAndClosed 0) t ∧
      introduced.along keepsOrder (openedAndClosed 0) = true ∧
      lastAbout (.ofString "a") t.arrived = some ⟨.ofString "a", []⟩ := by
  have ends : (introduced.run? (openedAndClosed 0)).map (fun t =>
      (t.isQuiet, t.sent)) = some (true, []) := by
    decide +kernel
  obtain ⟨t, run, result⟩ := Option.map_eq_some_iff.mp ends
  obtain ⟨quiet, empty⟩ := Prod.mk.inj result
  have delivers : Delivers (made (openedAndClosed 0)) (openedAndClosed 0) t :=
    ⟨run, by decide +kernel, rfl, quiet, empty⟩
  have kept : introduced.along keepsOrder (openedAndClosed 0) = true := by
    decide +kernel
  refine ⟨t, delivers, kept, ?_⟩
  rw [(last_notice_iff _ (.ofString "a")).2.2 _ t delivers kept]
  decide +kernel

/-- The document was opened with a mistake; then the session was shut down and
introduced again. -/
def reintroduced : Session :=
  [Call.introduce, .opened (.ofString "a") (.ofString "jmp x"), .shutdown,
    .introduce].foldl (fun s call => (s.handle call).1) {}

/-- The editor can be left with diagnostics of a text that is not the latest.
If the notice of the opening arrives last, a closed document keeps its mistake.
And after a shutdown changes are taken without a notice, so that a document
keeps a mistake that was mended. -/
theorem mistake_outlives_its_text :
    (∃ t, Delivers (made (openedAndClosed 1)) (openedAndClosed 1) t ∧
      lastAbout (.ofString "a")
        ((made (openedAndClosed 1)).flatMap Call.notices) =
        some ⟨.ofString "a", []⟩ ∧
      (lastAbout (.ofString "a") t.arrived).map
        (·.diagnostics.map (·.message)) =
        some [.ofString "unknown mnemonic: jmp"]) ∧
    (Call.changed (.ofString "a") (some (.ofString "x: end"))).notices =
      [⟨.ofString "a", []⟩] ∧
    (reintroduced.handle
      (.changed (.ofString "a") (some (.ofString "x: end")))).2.notices =
      [] := by
  refine ⟨?_, by decide +kernel, by decide +kernel⟩
  have ends : (introduced.run? (openedAndClosed 1)).map (fun t =>
        (t.isQuiet, t.sent,
          (lastAbout (.ofString "a") t.arrived).map
            (·.diagnostics.map (·.message)))) =
      some (true, [], some [.ofString "unknown mnemonic: jmp"]) := by
    decide +kernel
  obtain ⟨t, run, result⟩ := Option.map_eq_some_iff.mp ends
  simp only [Prod.mk.injEq] at result
  obtain ⟨quiet, empty, last⟩ := result
  exact ⟨t, ⟨run, by decide +kernel, rfl, quiet, empty⟩,
    by decide +kernel, last⟩

end Traffic

end WordMachine.Editor
