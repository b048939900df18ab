import WordMachine.Proofs.Editor.Chronicle

/-!
# Tickets

What a chronicle tells about each client of a work queue and its job.  A ticket
goes a way of its own: its client comes, its job enters the queue, is begun and
ends, and the client leaves with the result.  `WorkQueue.Stories` says that what
the state shows of a ticket was seen in this order; the other invariants say
that it takes no step twice, that a job that was begun gets its reply, and that
clients who come too late are excluded.
-/

namespace WordMachine.Editor

variable {α : Type}

/-- A client that waits has its job in the queue or behind it, one that did not
send it yet has not. -/
def Request.Phase.Fits (entered : Prop) : Option (Request.Phase α) → Prop
  | some .waiting => entered
  | some (.left _) => True
  | some .arrived | some .sending | none => ¬ entered

namespace WorkQueue

variable {ws : Workspace} {seen : List (Sight α)} {q after : WorkQueue α}
  {sight : Option (Sight α)} {ticket : Nat}

/-! ## Views -/

def job? (q : WorkQueue α) (ticket : Nat) : Option (Job α) :=
  q.requests[ticket]?.map (·.job)

/-- How far the client with a ticket is. -/
def phase? (q : WorkQueue α) (ticket : Nat) : Option (Request.Phase α) :=
  q.requests[ticket]?.map (·.phase)

def reply? (q : WorkQueue α) (ticket : Nat) : Option (Except Text α) :=
  q.requests[ticket]?.bind (·.reply)

theorem job?_eq {r : Request α} (found : q.requests[ticket]? = some r) :
    q.job? ticket = some r.job := by
  rw [job?, found, Option.map_some]

theorem phase?_eq {r : Request α} (found : q.requests[ticket]? = some r) :
    q.phase? ticket = some r.phase := by
  rw [phase?, found, Option.map_some]

theorem job?_put {r r' : Request α} (found : q.requests[ticket]? = some r)
    (same : r'.job = r.job) : (q.put ticket r').job? = q.job? := by
  funext other
  unfold job?
  rw [getElem?_put found]
  split
  next equal => rw [equal, found, Option.map_some, Option.map_some, same]
  next => rfl

theorem phase?_put {r : Request α} (found : q.requests[ticket]? = some r)
    (r' : Request α) (other : Nat) :
    (q.put ticket r').phase? other = if other = ticket then some r'.phase
      else q.phase? other := by
  simp only [phase?, getElem?_put found, apply_ite (Option.map _),
    Option.map_some]

theorem reply?_put {r : Request α} (found : q.requests[ticket]? = some r)
    (r' : Request α) (other : Nat) :
    (q.put ticket r').reply? other = if other = ticket then r'.reply
      else q.reply? other := by
  rw [reply?, getElem?_put found]
  split
  next => rfl
  next => rfl

/-- The requests after a client came, who gets the next ticket. -/
theorem getElem?_came (requests : List (Request α)) (r : Request α)
    (other : Nat) :
    (requests ++ [r])[other]? = if other = requests.length then some r
      else requests[other]? := by
  split
  next same => rw [same, List.getElem?_concat_length]
  next different =>
    rcases Nat.lt_or_gt_of_ne different with below | above
    · rw [List.getElem?_append_left below]
    · rw [List.getElem?_eq_none (by simpa using Nat.succ_le_of_lt above),
        List.getElem?_eq_none (Nat.le_of_lt above)]

/-! ## Clients -/

/-- What the queue holds about each ticket is what was seen of its client. -/
structure Clients (seen : List (Sight α)) (q : WorkQueue α) : Prop where
  came : ∀ ticket job, .came ticket job ∈ seen ↔ q.job? ticket = some job
  returned : ∀ ticket result, .returned ticket result ∈ seen ↔
    q.phase? ticket = some (.left result)

/-- Sights of the queue and the worker tell nothing about clients. -/
theorem Clients.other (clients : Clients seen q) {x : Sight α}
    (notCame : ∀ ticket job, x ≠ .came ticket job)
    (notReturned : ∀ ticket result, x ≠ .returned ticket result)
    (job : after.job? = q.job?) (phase : after.phase? = q.phase?) :
    Clients (seen ++ [x]) after := by
  constructor
  · intro ticket brought
    rw [job, ← clients.came, List.mem_append, List.mem_singleton]
    exact or_iff_left (notCame ticket brought).symm
  · intro ticket result
    rw [phase, ← clients.returned, List.mem_append, List.mem_singleton]
    exact or_iff_left (notReturned ticket result).symm

/-- A request may change as long as its job stays and its client does not
leave. -/
theorem Clients.put (clients : Clients seen q) {r r' : Request α}
    (found : q.requests[ticket]? = some r) (job : r'.job = r.job)
    (stays : ∀ result, r'.phase = .left result ↔ r.phase = .left result) :
    Clients seen (q.put ticket r') := by
  constructor
  · intro other brought
    rw [job?_put found job, clients.came]
  · intro other result
    rw [phase?_put found, clients.returned]
    split
    next same =>
      rw [same, phase?_eq found, Option.some_inj, Option.some_inj, stays]
    next => rfl

/-- A client may leave. -/
theorem Clients.leave (clients : Clients seen q) {r r' : Request α}
    {result : Request.Result α} (found : q.requests[ticket]? = some r)
    (job : r'.job = r.job) (present : ∀ result, r.phase ≠ .left result)
    (left : r'.phase = .left result) :
    Clients (seen ++ [.returned ticket result]) (q.put ticket r') := by
  constructor
  · intro other brought
    rw [job?_put found job, ← clients.came, List.mem_append, List.mem_singleton]
    exact or_iff_left nofun
  · intro other result'
    rw [phase?_put found, List.mem_append, List.mem_singleton, clients.returned]
    split
    next same => simp [same, phase?_eq found, present, left, eq_comm]
    next different => simp [different]

/-- A client may come. -/
theorem Clients.come (clients : Clients seen q) (job : Job α) :
    Clients (seen ++ [.came q.requests.length job])
      { q with requests := q.requests ++ [{ job := job }] } := by
  constructor
  · intro other brought
    have unused : q.job? q.requests.length = none := by simp [job?]
    rw [List.mem_append, List.mem_singleton, clients.came]
    simp only [job?, getElem?_came] at unused ⊢
    split
    next same => simp [same, eq_comm]
    next different => simp [different]
  · intro other result
    rw [List.mem_append, List.mem_singleton, clients.returned]
    simp only [phase?, getElem?_came]
    split
    next same => simp [same]
    next different => simp

theorem Clients.move (clients : Clients seen q) (move : q.Moves sight after) :
    Clients (seen ++ sight.toList) after := by
  cases move with
  | came job => exact clients.come job
  | admitted found phase =>
      rw [Option.toList_none, List.append_nil]
      exact clients.put found rfl (by simp [phase])
  | @entered ticket r found phase =>
      have kept : Clients seen (q.put ticket { r with phase := .waiting }) :=
        clients.put found rfl (by simp [phase])
      exact kept.other nofun nofun rfl rfl
  | turnedAway found present => exact clients.leave found rfl present rfl
  | received found phase => exact clients.leave found rfl (by simp [phase]) rfl
  | @ended ticket r busy found =>
      have kept : Clients seen
          (q.put ticket
            { r with reply := some (r.job q.worker.workspace).1 }) :=
        clients.put found rfl fun _ => Iff.rfl
      exact kept.other nofun nofun rfl rfl
  | gone =>
      rw [Option.toList_none, List.append_nil]
      exact ⟨clients.came, clients.returned⟩
  | began | stopped => exact clients.other nofun nofun rfl rfl

/-! ## The way of a ticket -/

/-- Where the tickets are: each enters the queue once, when it is sent. -/
structure Places (q : WorkQueue α) : Prop where
  fits : ∀ ticket, Request.Phase.Fits (ticket ∈ q.entered) (q.phase? ticket)
  once : q.entered.Nodup

theorem phase?_come (q : WorkQueue α) (job : Job α) (other : Nat) :
    phase? { q with requests := q.requests ++ [{ job := job }] } other =
      if other = q.requests.length then some .arrived else q.phase? other := by
  simp only [phase?, getElem?_came]
  split
  next => rfl
  next => rfl

theorem phase?_length (q : WorkQueue α) :
    q.phase? q.requests.length = none := by
  simp [phase?]

theorem Places.not_mem (places : Places q) {r : Request α}
    (found : q.requests[ticket]? = some r)
    (phase : r.phase = .arrived ∨ r.phase = .sending) :
    ticket ∉ q.entered := by
  have fits := places.fits ticket
  rw [phase?_eq found] at fits
  rcases phase with phase | phase
  · rwa [phase] at fits
  · rwa [phase] at fits

theorem Places.put (places : Places q) {r r' : Request α}
    (found : q.requests[ticket]? = some r)
    (fits : Request.Phase.Fits (ticket ∈ q.entered) (some r'.phase)) :
    Places (q.put ticket r') := by
  refine ⟨?_, places.once⟩
  intro other
  rw [phase?_put found]
  split
  next same => exact same ▸ fits
  next => exact places.fits other

theorem Places.enter (places : Places q) {r r' : Request α}
    (found : q.requests[ticket]? = some r) (phase : r.phase = .sending)
    (waiting : r'.phase = .waiting) :
    Places ((q.put ticket r').enqueue ticket) := by
  have absent := places.not_mem found (.inr phase)
  constructor
  · intro other
    have fits := places.fits other
    change Request.Phase.Fits (other ∈ q.entered ++ [ticket])
      ((q.put ticket r').phase? other)
    rw [phase?_put found]
    split
    next same => simp [waiting, Request.Phase.Fits, same]
    next different => simpa [different] using fits
  · change (q.entered ++ [ticket]).Nodup
    rw [List.nodup_append]
    refine ⟨places.once, by simp, ?_⟩
    intro other member last isLast same
    rw [List.mem_singleton.mp isLast] at same
    exact absent (same ▸ member)

theorem Places.move (places : Places q) (move : q.Moves sight after) :
    Places after := by
  cases move with
  | came job =>
      refine ⟨?_, places.once⟩
      intro other
      have fits := places.fits other
      rw [phase?_come]
      split
      next same =>
        rw [same, phase?_length] at fits
        rwa [same]
      next => exact fits
  | admitted found phase =>
      exact places.put found (places.not_mem found (.inl phase))
  | entered found phase => exact places.enter found phase rfl
  | turnedAway found | received found => exact places.put found trivial
  | @ended ticket r busy found =>
      have fits := places.fits ticket
      rw [phase?_eq found] at fits
      have kept : Places (q.put ticket
          { r with reply := some (r.job q.worker.workspace).1 }) :=
        places.put found fits
      exact ⟨kept.fits, kept.once⟩
  | began | gone | stopped => exact ⟨places.fits, places.once⟩

/-- Jobs that were begun have a reply as soon as the worker has ended them;
clients are turned away and the worker goes only after it was stopped. -/
structure Promises (q : WorkQueue α) : Prop where
  replied : ∀ ticket ∈ q.begun,
    q.activity = .busy ticket ∨ ∃ result, q.reply? ticket = some result
  dismissed : ∀ ticket, q.phase? ticket = some (.left .stopped) →
    q.worker.stopped = true
  gone : q.activity = .gone → q.worker.stopped = true

theorem reply?_come (q : WorkQueue α) (job : Job α) (other : Nat) :
    reply? { q with requests := q.requests ++ [{ job := job }] } other =
      q.reply? other := by
  simp only [reply?, getElem?_came]
  split
  next same => simp [same]
  next => rfl

/-- A change of phase breaks no promise, unless it turns a client away. -/
theorem Promises.rephase (promises : Promises q) {r : Request α}
    (found : q.requests[ticket]? = some r) {phase : Request.Phase α}
    (allowed : phase = .left .stopped → q.worker.stopped = true) :
    Promises (q.put ticket { r with phase := phase }) := by
  refine ⟨?_, ?_, promises.gone⟩
  · intro other begun
    rw [reply?_put found]
    refine (promises.replied other begun).imp_right ?_
    rintro ⟨result, reply⟩
    refine ⟨result, ?_⟩
    split
    next same =>
      rw [same, reply?, found] at reply
      exact reply
    next => exact reply
  · intro other left
    rw [phase?_put found] at left
    split at left
    next => exact allowed (Option.some.inj left)
    next => exact promises.dismissed other left

theorem Promises.end (promises : Promises q) {r : Request α}
    {result : Except Text α} (busy : q.activity = .busy ticket)
    (found : q.requests[ticket]? = some r)
    (behind : Workspace) :
    Promises ((q.put ticket { r with reply := some result }).settled
      behind) := by
  refine ⟨?_, ?_, nofun⟩
  · intro other begun
    right
    change ∃ result', (q.put ticket { r with reply := some result }).reply?
      other = some result'
    rw [reply?_put found]
    split
    next => exact ⟨result, rfl⟩
    next different =>
      refine (promises.replied other begun).resolve_left ?_
      rw [busy]
      rintro (_ | _)
      exact different rfl
  · intro other left
    change (q.put ticket { r with reply := some result }).phase? other =
      _ at left
    rw [phase?_put found] at left
    split at left
    next same => exact promises.dismissed ticket ((phase?_eq found).trans left)
    next => exact promises.dismissed other left

theorem Promises.move (promises : Promises q) (move : q.Moves sight after) :
    Promises after := by
  cases move with
  | came job =>
      refine ⟨?_, ?_, promises.gone⟩
      · intro other begun
        rw [reply?_come]
        exact promises.replied other begun
      · intro other left
        rw [phase?_come] at left
        split at left
        next => cases left
        next => exact promises.dismissed other left
  | admitted found => exact promises.rephase found nofun
  | @entered ticket r found =>
      have kept : Promises (q.put ticket { r with phase := .waiting }) :=
        promises.rephase found nofun
      exact ⟨kept.replied, kept.dismissed, kept.gone⟩
  | turnedAway found _ stopped => exact promises.rephase found fun _ => stopped
  | received found => exact promises.rephase found nofun
  | @began ticket rest idle queue =>
      refine ⟨?_, promises.dismissed, nofun⟩
      intro other begun
      rcases List.mem_append.mp begun with before | now
      · have replied := promises.replied other before
        rw [idle] at replied
        exact .inr (replied.resolve_left nofun)
      · exact .inl (by rw [List.mem_singleton.mp now])
  | ended busy found => exact promises.end busy found _
  | gone idle stopped =>
      refine ⟨?_, promises.dismissed, fun _ => stopped⟩
      intro other begun
      have replied := promises.replied other begun
      rw [idle] at replied
      exact .inr (replied.resolve_left nofun)
  | stopped => exact ⟨promises.replied, fun _ _ => rfl, fun _ => rfl⟩

/-! ## Stories -/

/-- What was seen of each ticket, in the order in which it must have been
seen. -/
structure Stories (seen : List (Sight α)) (q : WorkQueue α) : Prop where
  entered : ∀ ticket ∈ q.entered,
    ∃ job, List.Sublist [.came ticket job, .entered ticket] seen
  busy : ∀ ticket, q.activity = .busy ticket →
    ∃ job, List.Sublist
      [.came ticket job, .entered ticket, .began ticket q.worker.workspace] seen
  replied : ∀ ticket result, q.reply? ticket = some result →
    ∃ job found, result = (job found).1 ∧
      List.Sublist [.came ticket job, .entered ticket, .began ticket found,
        .ended ticket (job found).2] seen
  served : ∀ ticket result, q.phase? ticket = some (.left (.done result)) →
    ∃ job found, result = (job found).1 ∧
      List.Sublist [.came ticket job, .entered ticket, .began ticket found,
        .ended ticket (job found).2, .returned ticket (.done result)] seen

/-- A story stays told. -/
theorem Stories.grow (stories : Stories seen q) (more : List (Sight α)) :
    Stories (seen ++ more) q := by
  have grown : seen.Sublist (seen ++ more) := List.sublist_append_left seen more
  constructor
  · intro ticket entered
    obtain ⟨job, told⟩ := stories.entered ticket entered
    exact ⟨job, told.trans grown⟩
  · intro ticket busy
    obtain ⟨job, told⟩ := stories.busy ticket busy
    exact ⟨job, told.trans grown⟩
  · intro ticket result reply
    obtain ⟨job, found, same, told⟩ := stories.replied ticket result reply
    exact ⟨job, found, same, told.trans grown⟩
  · intro ticket result left
    obtain ⟨job, found, same, told⟩ := stories.served ticket result left
    exact ⟨job, found, same, told.trans grown⟩

/-- A story goes on with what is seen next. -/
theorem sublist_grown {story : List (Sight α)} (told : story.Sublist seen)
    (x : Sight α) :
    (story ++ [x]).Sublist (seen ++ [x]) :=
  told.append (List.Sublist.refl [x])

theorem Stories.rephase (stories : Stories seen q) {r : Request α}
    (found : q.requests[ticket]? = some r) {phase : Request.Phase α}
    (served : ∀ result, phase = .left (.done result) →
      ∃ job found, result = (job found).1 ∧
        List.Sublist [.came ticket job, .entered ticket, .began ticket found,
          .ended ticket (job found).2, .returned ticket (.done result)] seen) :
    Stories seen (q.put ticket { r with phase := phase }) := by
  refine ⟨stories.entered, stories.busy, ?_, ?_⟩
  · intro other result reply
    rw [reply?_put found] at reply
    split at reply
    next same =>
      refine stories.replied other result ?_
      rw [same, reply?, found]
      exact reply
    next => exact stories.replied other result reply
  · intro other result left
    rw [phase?_put found] at left
    split at left
    next same => exact same ▸ served result (Option.some.inj left)
    next => exact stories.served other result left

theorem Stories.move (stories : Stories seen q) (accounts : Accounts ws seen q)
    (clients : Clients seen q) (move : q.Moves sight after) :
    Stories (seen ++ sight.toList) after := by
  have kept := stories.grow sight.toList
  cases move with
  | came job =>
      refine ⟨kept.entered, kept.busy, ?_, ?_⟩
      · intro other result reply
        rw [reply?_come] at reply
        exact kept.replied other result reply
      · intro other result left
        rw [phase?_come] at left
        split at left
        next => cases left
        next => exact kept.served other result left
  | admitted found => exact kept.rephase found nofun
  | @entered ticket r found =>
      have came := (clients.came ticket r.job).mpr (job?_eq found)
      have now : Stories (seen ++ [.entered ticket])
          (q.put ticket { r with phase := .waiting }) :=
        kept.rephase found nofun
      refine ⟨?_, now.busy, now.replied, now.served⟩
      intro other member
      rcases List.mem_append.mp member with before | last
      · exact now.entered other before
      · rw [List.mem_singleton.mp last]
        exact ⟨r.job, sublist_grown (List.singleton_sublist.mpr came) _⟩
  | turnedAway found => exact kept.rephase found nofun
  | @received ticket r result found phase reply =>
      refine kept.rephase found ?_
      rintro _ (_ | _)
      obtain ⟨job, found, same, told⟩ :=
        stories.replied ticket result (by rw [reply?, found]; exact reply)
      exact ⟨job, found, same, sublist_grown told _⟩
  | @began ticket rest idle queue =>
      refine ⟨kept.entered, ?_, kept.replied, kept.served⟩
      rintro _ (_ | _)
      have member : ticket ∈ q.entered := by
        rw [accounts.queued, queue]
        exact List.mem_append_right _ List.mem_cons_self
      obtain ⟨job, told⟩ := stories.entered ticket member
      exact ⟨job, sublist_grown told _⟩
  | @ended ticket r busy found =>
      obtain ⟨job, told⟩ := stories.busy ticket busy
      have same : job = r.job := by
        have came := (clients.came ticket job).mp
          (told.subset List.mem_cons_self)
        exact Option.some.inj (came.symm.trans (job?_eq found))
      subst same
      refine ⟨kept.entered, nofun, ?_, ?_⟩
      · intro other result reply
        change (q.put ticket _).reply? other = _ at reply
        rw [reply?_put found] at reply
        split at reply
        next here =>
          cases reply
          rw [here]
          exact ⟨r.job, _, rfl, sublist_grown told _⟩
        next => exact kept.replied other result reply
      · intro other result left
        change (q.put ticket _).phase? other = _ at left
        rw [phase?_put found] at left
        split at left
        next here =>
          exact kept.served other result (here ▸ (phase?_eq found).trans left)
        next => exact kept.served other result left
  | gone => exact ⟨kept.entered, nofun, kept.replied, kept.served⟩
  | stopped => exact ⟨kept.entered, kept.busy, kept.replied, kept.served⟩

/-! ## Clients that come too late -/

/-- A client that is turned away, or will be, without its job having entered the
queue. -/
def Excludes (q : WorkQueue α) (ticket : Nat) : Prop :=
  ticket ∉ q.entered ∧
    (q.phase? ticket = some .arrived ∨ q.phase? ticket = some (.left .stopped))

/-- Who comes after the worker was stopped is excluded. -/
def ExcludesLate (seen : List (Sight α)) (q : WorkQueue α) : Prop :=
  ∀ earlier ticket job later, seen = earlier ++ .came ticket job :: later →
    .stopped ∈ earlier → q.Excludes ticket

theorem Excludes.rephase (excludes : q.Excludes ticket) {other : Nat}
    {r r' : Request α} (found : q.requests[other]? = some r)
    (change : r.phase = .arrived ∨ r.phase = .left .stopped →
      r'.phase = .arrived ∨ r'.phase = .left .stopped) :
    (q.put other r').Excludes ticket := by
  refine ⟨excludes.1, ?_⟩
  rw [phase?_put found]
  split
  next same =>
    have phase := excludes.2
    rw [same, phase?_eq found] at phase
    simpa using change (by simpa using phase)
  next => exact excludes.2

/-- Once the worker was stopped, an excluded client stays so. -/
theorem Excludes.move (excludes : q.Excludes ticket)
    (stopped : q.worker.stopped = true) (move : q.Moves sight after) :
    after.Excludes ticket := by
  cases move with
  | came job =>
      refine ⟨excludes.1, ?_⟩
      rw [phase?_come]
      split
      next => exact .inl rfl
      next => exact excludes.2
  | admitted _ _ running =>
      rw [running] at stopped
      cases stopped
  | @entered other r found phase =>
      have kept : (q.put other { r with phase := .waiting }).Excludes ticket :=
        excludes.rephase found (by simp [phase])
      refine ⟨?_, kept.2⟩
      intro member
      rcases List.mem_append.mp member with before | last
      · exact excludes.1 before
      · have sending := phase?_eq found
        rw [← List.mem_singleton.mp last] at sending
        simpa [sending, phase] using excludes.2
  | turnedAway found => exact excludes.rephase found fun _ => .inr rfl
  | received found phase => exact excludes.rephase found (by simp [phase])
  | @ended other r busy found =>
      have kept : (q.put other
          { r with reply := some (r.job q.worker.workspace).1 }).Excludes
          ticket := excludes.rephase found id
      exact kept
  | began | gone | stopped => exact excludes

theorem ExcludesLate.move (late : ExcludesLate seen q)
    (accounts : Accounts ws seen q) (places : Places q)
    (move : q.Moves sight after) :
    ExcludesLate (seen ++ sight.toList) after := by
  intro earlier ticket job later split stopped
  rcases split_grown split with ⟨rfl, -, rfl⟩ | ⟨rest, -, before⟩
  · -- Only the client that comes now is new, and nobody knows its ticket yet.
    cases move
    have fits := places.fits q.requests.length
    rw [phase?_length] at fits
    refine ⟨fits, .inl ?_⟩
    rw [phase?_come, if_pos rfl]
  · have was : .stopped ∈ seen := by
      rw [before]
      exact List.mem_append_left _ stopped
    exact (late _ _ _ _ before stopped).move (accounts.stopped.mp was) move

end WorkQueue

end WordMachine.Editor
