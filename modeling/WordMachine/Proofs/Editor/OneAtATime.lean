import WordMachine.Proofs.Editor.Tickets

/-!
# One job at a time

However the actions of clients and worker fall, jobs are done one at a time,
each at most once and in the order in which they entered the queue.  A client
that gets a result gets the one of its own job, which was done between its
coming and its leaving.  Clients that come after the worker was stopped are
turned away, and until then everybody can be served, whatever the jobs before
theirs ended with.
-/

namespace WordMachine.Editor

variable {α : Type}

/-- The jobs of a chronicle are done in turn. -/
structure InTurn (ws : Workspace) (seen : List (Sight α)) : Prop where
  /-- No job is begun twice. -/
  once : (beginnings seen).Nodup
  /-- Jobs are begun in the order in which they entered the queue. -/
  ordered : beginnings seen <+: entries seen
  /-- Before another job is begun, the one at hand has ended. -/
  apart : ∀ {earlier ticket found between next found' later},
    seen = earlier ++ .began ticket found ::
      (between ++ .began next found' :: later) →
    ∃ behind, .ended ticket behind ∈ between
  /-- A job finds the workspace that the last one left behind. -/
  continued : ∀ {earlier ticket found later},
  seen = earlier ++ .began ticket found :: later →
    found = workspaceAfter ws earlier
  /-- Who gets a result gets the one of its own job, done once between its
  coming and its leaving. -/
  own : ∀ {ticket result}, .returned ticket (.done result) ∈ seen →
    (beginnings seen).count ticket = 1 ∧
    ∃ job found, result = (job found).1 ∧
      List.Sublist [.came ticket job, .entered ticket, .began ticket found,
        .ended ticket (job found).2, .returned ticket (.done result)] seen

namespace WorkQueue

variable {ws : Workspace} {seen : List (Sight α)} {q after : WorkQueue α}
  {sight : Option (Sight α)} {ticket : Nat}

/-! ## Turns -/

/-- The jobs begun so far have ended, but for the one that the worker does. -/
structure Turns (ws : Workspace) (seen : List (Sight α))
    (q : WorkQueue α) : Prop where
  current : ∀ {earlier ticket found later},
  seen = earlier ++ .began ticket found :: later →
    q.activity = .busy ticket ∨ ∃ behind, .ended ticket behind ∈ later
  apart : ∀ {earlier ticket found between next found' later},
    seen = earlier ++ .began ticket found ::
      (between ++ .began next found' :: later) →
    ∃ behind, .ended ticket behind ∈ between
  continued : ∀ {earlier ticket found later},
  seen = earlier ++ .began ticket found :: later →
    found = workspaceAfter ws earlier

/-- Nothing changes about the turns as long as no job is begun and none
disappears without being ended. -/
theorem Turns.keep (turns : Turns ws seen q)
    (plain : ∀ ticket found, sight ≠ some (.began ticket found))
    (activity : ∀ ticket, q.activity = .busy ticket →
      after.activity = .busy ticket ∨ ∃ behind, sight = some
      (.ended ticket behind)) :
    Turns ws (seen ++ sight.toList) after := by
  have older : ∀ {earlier ticket found later},
      seen ++ sight.toList = earlier ++ .began ticket found :: later →
      ∃ rest, later = rest ++ sight.toList ∧
        seen = earlier ++ .began ticket found :: rest :=
    fun split => (split_grown split).resolve_left fun now => plain _ _ now.1
  constructor
  · intro earlier ticket found later split
    obtain ⟨rest, rfl, before⟩ := older split
    rcases turns.current before with busy | ⟨behind, ended⟩
    · rcases activity ticket busy with busy | ⟨behind, rfl⟩
      · exact .inl busy
      · exact .inr ⟨behind, List.mem_append_right _ List.mem_cons_self⟩
    · exact .inr ⟨behind, List.mem_append_left _ ended⟩
  · intro earlier ticket found between next found' later split
    rw [← List.cons_append, ← List.append_assoc] at split
    obtain ⟨rest, rfl, before⟩ := older split
    rw [List.append_assoc, List.cons_append] at before
    exact turns.apart before
  · intro earlier ticket found later split
    obtain ⟨rest, rfl, before⟩ := older split
    exact turns.continued before

/-- An idle worker may begin a job. -/
theorem Turns.begin (turns : Turns ws seen q) (idle : q.activity = .idle)
    (busy : after.activity = .busy ticket) :
    Turns ws (seen ++ (some (.began ticket (workspaceAfter ws seen))).toList)
      after := by
  have finished : ∀ {earlier other found later},
      seen = earlier ++ .began other found :: later → ∃ behind,
      .ended other behind ∈ later := by
    intro earlier other found later split
    refine (turns.current split).resolve_left ?_
    rw [idle]
    nofun
  constructor
  · intro earlier other found later split
    rcases split_grown split with ⟨same, -, -⟩ | ⟨rest, rfl, before⟩
    · cases same
      exact .inl busy
    · obtain ⟨behind, ended⟩ := finished before
      exact .inr ⟨behind, List.mem_append_left _ ended⟩
  · intro earlier other found between next found' later split
    rw [← List.cons_append, ← List.append_assoc] at split
    rcases split_grown split with ⟨-, -, before⟩ | ⟨rest, rfl, before⟩
    · exact finished before
    · rw [List.append_assoc, List.cons_append] at before
      exact turns.apart before
  · intro earlier other found later split
    rcases split_grown split with ⟨same, -, rfl⟩ | ⟨rest, rfl, before⟩
    · cases same
      rfl
    · exact turns.continued before

theorem Turns.move (turns : Turns ws seen q) (accounts : Accounts ws seen q)
    (move : q.Moves sight after) : Turns ws (seen ++ sight.toList) after := by
  cases move with
  | came | admitted | entered | turnedAway | received | stopped =>
      exact turns.keep nofun fun _ busy => .inl busy
  | gone idle =>
      refine turns.keep nofun ?_
      intro ticket busy
      rw [idle] at busy
      cases busy
  | ended busy =>
      refine turns.keep nofun ?_
      intro other current
      rw [busy] at current
      cases current
      exact .inr ⟨_, rfl⟩
  | began idle queue =>
      rw [accounts.workspace]
      exact turns.begin idle rfl

/-! ## Every run -/

/-- A work queue that nobody has come to. -/
def opened (ws : Workspace) : WorkQueue α :=
  { worker := { workspace := ws } }

/-- What holds of every run: of what was seen and the state it led to. -/
structure Sound (ws : Workspace) (seen : List (Sight α))
    (q : WorkQueue α) : Prop where
  accounts : Accounts ws seen q
  turns : Turns ws seen q
  clients : Clients seen q
  places : Places q
  promises : Promises q
  stories : Stories seen q
  late : ExcludesLate seen q

theorem sound_opened (ws : Workspace) :
    Sound ws [] (opened ws : WorkQueue α) where
  accounts := ⟨by simp [opened], rfl, rfl, rfl, rfl⟩
  turns := ⟨by simp, by simp, by simp⟩
  clients := ⟨by simp [opened, job?], by simp [opened, phase?]⟩
  places := ⟨by simp [opened, phase?, Request.Phase.Fits], List.nodup_nil⟩
  promises := ⟨by simp [opened], by simp [opened, phase?], nofun⟩
  stories := ⟨by simp [opened], nofun, by simp [opened, reply?],
    by simp [opened, phase?]⟩
  late := by simp [ExcludesLate]

theorem Sound.run (sound : Sound ws seen q) {events : List (Event α)}
    (run : q.run? events = some after) :
    Sound ws (seen ++ q.chronicle events) after := by
  refine chronicle_induction ?_ sound run
  intro seen q sight after sound move
  exact {
    accounts := sound.accounts.move move
    turns := sound.turns.move sound.accounts move
    clients := sound.clients.move move
    places := sound.places.move move
    promises := sound.promises.move move
    stories := sound.stories.move sound.accounts sound.clients move
    late := sound.late.move sound.accounts sound.places move }

theorem Sound.once (sound : Sound ws seen q) : (beginnings seen).Nodup := by
  have once := sound.places.once
  rw [sound.accounts.queued, List.nodup_append] at once
  rw [sound.accounts.begun]
  exact once.1

theorem Sound.inTurn (sound : Sound ws seen q) : InTurn ws seen where
  once := sound.once
  ordered := by
    rw [sound.accounts.begun, sound.accounts.entered, sound.accounts.queued]
    exact List.prefix_append _ _
  apart := sound.turns.apart
  continued := sound.turns.continued
  own := by
    intro ticket result returned
    have left := (sound.clients.returned ticket _).mp returned
    obtain ⟨job, found, same, told⟩ := sound.stories.served ticket result left
    refine ⟨?_, job, found, same, told⟩
    have begun : ticket ∈ beginnings seen :=
      List.mem_filterMap.mpr ⟨.began ticket found, told.subset (by simp), rfl⟩
    rw [sound.once.count, if_pos begun]

/-! ## Everybody can be served -/

/-- Whether an event is one of the worker at its work, or of the client with a
ticket. -/
def Event.serves (ticket : Nat) : Event α → Bool
  | .begin | .finish => true
  | .look other | .send other | .receive other => other == ticket
  | .arrive _ | .giveUp _ | .leave | .stop => false

/-- Worker and client may come from one state to another without anybody
else. -/
def Leads (ticket : Nat) (q after : WorkQueue α) : Prop :=
  ∃ more : List (Event α), more.all (Event.serves ticket) = true ∧
    q.run? more = some after

theorem Leads.refl (ticket : Nat) (q : WorkQueue α) : Leads ticket q q :=
  ⟨[], rfl, rfl⟩

theorem Leads.trans {middle : WorkQueue α} (first : Leads ticket q middle)
    (second : Leads ticket middle after) : Leads ticket q after := by
  obtain ⟨events, serve, run⟩ := first
  obtain ⟨more, serve', run'⟩ := second
  refine ⟨events ++ more, ?_, by rwa [run?_append, run]⟩
  rw [List.all_append, serve, serve', Bool.and_true]

theorem Leads.of_step {e : Event α} (serves : e.serves ticket = true)
    (stepped : q.step? e = some after) : Leads ticket q after :=
  ⟨[e], by simpa using serves, by rw [run?_cons, stepped]; rfl⟩

theorem Sound.leads (sound : Sound ws seen q) (leads : Leads ticket q after) :
    ∃ seen', Sound ws seen' after := by
  obtain ⟨more, -, run⟩ := leads
  exact ⟨_, sound.run run⟩

theorem exists_request {job : Job α} (brought : q.job? ticket = some job) :
    ∃ r, q.requests[ticket]? = some r := by
  obtain ⟨r, found, -⟩ := Option.map_eq_some_iff.mp brought
  exact ⟨r, found⟩

/-- A worker that does a job can end it. -/
theorem Sound.exists_finish (sound : Sound ws seen q) {other : Nat}
    (busy : q.activity = .busy other) (ticket : Nat) :
    ∃ after, Leads ticket q after ∧ after.activity = .idle ∧
      after.queue = q.queue ∧
      after.worker.stopped = q.worker.stopped ∧ after.phase? = q.phase? := by
  obtain ⟨job, told⟩ := sound.stories.busy other busy
  obtain ⟨r, found⟩ :=
    exists_request ((sound.clients.came other job).mp (told.subset (by simp)))
  refine ⟨(q.put other
    { r with reply := some (r.job q.worker.workspace).1 }).settled
    (r.job q.worker.workspace).2, .of_step (e := .finish) rfl ?_,
    rfl, rfl, rfl, ?_⟩
  · simp only [step?, finish?, busy, found, Option.map_some]
    rfl
  · funext ticket'
    change (q.put other _).phase? ticket' = _
    rw [phase?_put found]
    split
    next same => rw [same, phase?_eq found]
    next => rfl

/-- An idle worker can do all the jobs of the queue. -/
theorem Sound.exists_drained_of_idle (sound : Sound ws seen q)
    (idle : q.activity = .idle) (ticket : Nat) :
    ∃ after, Leads ticket q after ∧ after.activity = .idle ∧ after.queue = [] ∧
      after.worker.stopped = q.worker.stopped ∧ after.phase? = q.phase? := by
  induction waiting : q.queue generalizing q seen with
  | nil => exact ⟨q, .refl ticket q, idle, waiting, rfl, rfl⟩
  | cons other rest ih =>
      have begun : Leads ticket q
          { q with
            activity := .busy other, queue := rest,
            begun := q.begun ++ [other] } := by
        refine .of_step (e := .begin) rfl ?_
        simp only [step?, begin?, idle, waiting]
      obtain ⟨_, sound₁⟩ := sound.leads begun
      obtain ⟨next, finished, idle', queue, stopped, phases⟩ :=
        sound₁.exists_finish rfl ticket
      obtain ⟨_, sound₂⟩ := sound₁.leads finished
      obtain ⟨after, drained, idle'', empty, stopped', phases'⟩ :=
        ih sound₂ idle' queue
      exact ⟨after, begun.trans (finished.trans drained), idle'', empty,
        stopped'.trans stopped, phases'.trans phases⟩

/-- A worker that was not stopped can do all the jobs there are. -/
theorem Sound.exists_drained (sound : Sound ws seen q)
    (running : q.worker.stopped = false) (ticket : Nat) :
    ∃ after, Leads ticket q after ∧ after.activity = .idle ∧ after.queue = [] ∧
      after.worker.stopped = false ∧ after.phase? = q.phase? := by
  rw [← running]
  cases activity : q.activity with
  | idle => exact sound.exists_drained_of_idle activity ticket
  | busy other =>
      obtain ⟨next, finished, idle, -, stopped, phases⟩ :=
        sound.exists_finish activity ticket
      obtain ⟨_, sound'⟩ := sound.leads finished
      obtain ⟨after, drained, idle', empty, stopped', phases'⟩ :=
        sound'.exists_drained_of_idle idle ticket
      exact ⟨after, finished.trans drained, idle', empty,
        stopped'.trans stopped, phases'.trans phases⟩
  | gone =>
      have stopped := sound.promises.gone activity
      rw [running] at stopped
      cases stopped

theorem exists_request_of_phase? {phase : Request.Phase α}
    (there : q.phase? ticket = some phase) :
    ∃ r, q.requests[ticket]? = some r ∧ r.phase = phase :=
  Option.map_eq_some_iff.mp there

/-- Who waits can be served: once the queue is empty, its job was done. -/
theorem Sound.exists_served_of_waiting (sound : Sound ws seen q)
    (running : q.worker.stopped = false)
    (waiting : q.phase? ticket = some .waiting) :
    ∃ after result, Leads ticket q after ∧
      after.phase? ticket = some (.left (.done result)) := by
  obtain ⟨next, drained, idle, empty, -, phases⟩ :=
    sound.exists_drained running ticket
  obtain ⟨_, sound'⟩ := sound.leads drained
  rw [← phases] at waiting
  obtain ⟨r, found, phase⟩ := exists_request_of_phase? waiting
  have fits := sound'.places.fits ticket
  rw [waiting, sound'.accounts.queued, empty, List.append_nil] at fits
  obtain ⟨result, reply⟩ :=
    (sound'.promises.replied ticket fits).resolve_left (by simp [idle])
  rw [reply?, found, Option.bind_some] at reply
  refine ⟨next.put ticket { r with phase := .left (.done result) }, result,
    drained.trans (.of_step (e := .receive ticket)
      (beq_self_eq_true ticket) ?_), ?_⟩
  · simp only [step?, update?, found, Option.bind_some, phase, reply,
      Option.map_some]
    rfl
  · rw [phase?_put found, if_pos rfl]

theorem Sound.exists_served_of_sending (sound : Sound ws seen q)
    (running : q.worker.stopped = false)
    (sending : q.phase? ticket = some .sending) :
    ∃ after result, Leads ticket q after ∧
      after.phase? ticket = some (.left (.done result)) := by
  obtain ⟨next, drained, -, empty, running', phases⟩ :=
    sound.exists_drained running ticket
  rw [← phases] at sending
  obtain ⟨r, found, phase⟩ := exists_request_of_phase? sending
  have sent : Leads ticket q
      ((next.put ticket { r with phase := .waiting }).enqueue ticket) := by
    refine drained.trans
      (.of_step (e := .send ticket) (beq_self_eq_true ticket) ?_)
    have room : next.queue.length < capacity := by
      rw [empty]
      decide
    simp only [step?, room, if_true, update?, enqueue, found,
      Option.bind_some, phase, Option.map_some]
    rfl
  obtain ⟨_, sound'⟩ := sound.leads sent
  have waiting :
      ((next.put ticket { r with phase := .waiting }).enqueue ticket).phase?
        ticket = some .waiting := by
    change (next.put ticket { r with phase := .waiting }).phase? ticket = _
    rw [phase?_put found, if_pos rfl]
  obtain ⟨after, result, served, left⟩ :=
    sound'.exists_served_of_waiting running' waiting
  exact ⟨after, result, sent.trans served, left⟩

/-- As long as the worker was not stopped, everybody who came can be served,
without anything being done by others. -/
theorem Sound.exists_served (sound : Sound ws seen q)
    (running : q.worker.stopped = false) {job : Job α}
    (came : .came ticket job ∈ seen) :
    ∃ after result, Leads ticket q after ∧
      after.phase? ticket = some (.left (.done result)) := by
  obtain ⟨r, found⟩ := exists_request ((sound.clients.came ticket job).mp came)
  have there := phase?_eq found
  cases phase : r.phase with
  | arrived =>
      have looked : Leads ticket q
          (q.put ticket { r with phase := .sending }) := by
        refine .of_step (e := .look ticket) (beq_self_eq_true ticket) ?_
        simp only [step?, update?, found, Option.bind_some, phase,
          phaseAfterLook, running, Bool.false_eq_true, if_false,
          Option.map_some]
        rfl
      obtain ⟨_, sound'⟩ := sound.leads looked
      have sending : (q.put ticket { r with phase := .sending }).phase? ticket =
        some .sending := by
        rw [phase?_put found, if_pos rfl]
      obtain ⟨after, result, served, left⟩ :=
        sound'.exists_served_of_sending running sending
      exact ⟨after, result, looked.trans served, left⟩
  | sending =>
      exact sound.exists_served_of_sending running
        (there.trans (congrArg some phase))
  | waiting =>
      exact sound.exists_served_of_waiting running
        (there.trans (congrArg some phase))
  | left result =>
      rw [phase] at there
      cases result with
      | stopped =>
          have stopped := sound.promises.dismissed ticket there
          rw [running] at stopped
          cases stopped
      | done result => exact ⟨q, result, .refl ticket q, there⟩

/-! ## The whole -/

/-- A client is turned away: its job is never done, it leaves only because the
worker was stopped, and if it has not left it can do so at once. -/
structure TurnsAway (seen : List (Sight α)) (q : WorkQueue α)
    (ticket : Nat) : Prop where
  notEntered : ticket ∉ entries seen
  notBegun : ticket ∉ beginnings seen
  stopped : ∀ result, .returned ticket result ∈ seen → result = .stopped
  leaves : .returned ticket .stopped ∈ seen ∨
    ∃ after, q.step? (.look ticket) = some after ∧
      q.sight? (.look ticket) after = some (.returned ticket .stopped)

theorem Sound.turnsAway (sound : Sound ws seen q)
    (stopped : q.worker.stopped = true) (excludes : q.Excludes ticket) :
    TurnsAway seen q ticket := by
  obtain ⟨absent, phase⟩ := excludes
  have notEntered : ticket ∉ entries seen := by rwa [sound.accounts.entered]
  refine ⟨notEntered, fun begun =>
    notEntered (sound.inTurn.ordered.subset begun), ?_, ?_⟩
  · intro result returned
    have left := (sound.clients.returned ticket result).mp returned
    rw [left] at phase
    simpa using phase
  · rcases phase with arrived | left
    · right
      obtain ⟨r, found, phase⟩ := exists_request_of_phase? arrived
      refine ⟨q.put ticket { r with phase := .left .stopped }, ?_, ?_⟩
      · simp only [step?, update?, found, Option.bind_some, phase,
          phaseAfterLook, stopped, if_true, Option.map_some]
        rfl
      · simp only [sight?, result?_put found, Option.map_some]
    · exact .inl ((sound.clients.returned ticket .stopped).mpr left)

/-- Whatever clients come and go, and whenever the worker is stopped: jobs are
done in turn; who comes after the worker was stopped is turned away; and before
that everybody who came can be served, also after jobs that broke off, by the
worker and the client alone. -/
theorem jobs_take_turns (ws : Workspace) (events : List (Event α))
    (run : (opened ws).run? events = some q) :
    InTurn ws ((opened ws).chronicle events) ∧
    (∀ earlier ticket job later,
      (opened ws).chronicle events = earlier ++ .came ticket job :: later →
      .stopped ∈ earlier → TurnsAway ((opened ws).chronicle events) q ticket) ∧
    (.stopped ∉ (opened ws).chronicle events → ∀ ticket job,
      .came ticket job ∈ (opened ws).chronicle events →
      ∃ more after result, more.all (Event.serves ticket) = true ∧
        (opened ws).run? (events ++ more) = some after ∧
        .returned ticket (.done result) ∈
          (opened ws).chronicle (events ++ more)) := by
  have sound : Sound ws ((opened ws).chronicle events) q :=
    (sound_opened ws).run run
  refine ⟨sound.inTurn, ?_, ?_⟩
  · intro earlier ticket job later split stopped
    have was : .stopped ∈ (opened ws).chronicle events := by
      rw [split]
      exact List.mem_append_left _ stopped
    exact sound.turnsAway (sound.accounts.stopped.mp was)
      (sound.late earlier ticket job later split stopped)
  · intro running ticket job came
    have notStopped : q.worker.stopped = false := by
      rw [← Bool.not_eq_true, ← sound.accounts.stopped]
      exact running
    obtain ⟨after, result, ⟨more, serve, run'⟩, left⟩ :=
      sound.exists_served notStopped came
    have sound' := sound.run run'
    rw [← chronicle_append run] at sound'
    exact ⟨more, after, result, serve, by rwa [run?_append, run],
      (sound'.clients.returned ticket _).mpr left⟩

/-- Two clients, the first of which brings a job that breaks off and has to let
the other one go ahead.  When both are gone the worker is stopped, and somebody
comes too late. -/
def failing : List (Event Nat) :=
  [.arrive (Job.breakOff (Text.ofString "boom")), .arrive fun ws =>
    (.ok ws.entries.length, ws),
    .look 0, .look 1, .send 1, .begin, .send 0, .finish, .begin, .finish,
    .receive 0, .receive 1, .stop, .arrive fun ws => (.ok 0, ws), .look 2]

theorem jobs_take_turns_failing :
    ∃ q, (opened {}).run? failing = some q ∧
      InTurn {} ((opened {}).chronicle failing) ∧
      beginnings ((opened {}).chronicle failing) = [1, 0] ∧
      .returned 0 (.done (.error (Text.ofString "boom"))) ∈
        (opened {}).chronicle failing ∧
      .returned 1 (.done (.ok 0)) ∈ (opened {}).chronicle failing ∧
      2 ∉ beginnings ((opened {}).chronicle failing) ∧
      .returned 2 .stopped ∈ (opened {}).chronicle failing := by
  obtain ⟨inTurn, late, -⟩ := jobs_take_turns {} failing rfl
  have away := late (((opened {}).chronicle failing).take 11) 2
    (fun ws => (.ok 0, ws))
    [.returned 2 .stopped] rfl (List.mem_of_getElem? (i := 10) rfl)
  exact ⟨_, rfl, inTurn, rfl, List.mem_of_getElem? (i := 8) rfl,
    List.mem_of_getElem? (i := 9) rfl, away.notBegun,
    List.mem_of_getElem? (i := 12) rfl⟩

end WorkQueue

end WordMachine.Editor
