import WordMachine.Editor.WorkQueue

/-!
# What is seen of a work queue

A run of a work queue can be told by what is seen of it: clients come and go,
jobs enter the queue, are begun and end.  `WorkQueue.Moves` says once what an
event can do to the queue and what is seen of it then, and `WorkQueue.chronicle`
collects what is seen of a whole run.
-/

namespace WordMachine.Editor

inductive Sight (α : Type) where
  /-- A client comes with a job. -/
  | came (ticket : Nat) (job : Job α)
  /-- A job enters the queue. -/
  | entered (ticket : Nat)
  /-- The worker begins a job, which finds a workspace. -/
  | began (ticket : Nat) (found : Workspace)
  /-- The worker ends a job, which leaves a workspace behind. -/
  | ended (ticket : Nat) (behind : Workspace)
  /-- A client leaves. -/
  | returned (ticket : Nat) (result : Request.Result α)
  /-- The worker is stopped. -/
  | stopped

variable {α : Type}

/-! ## Reading a chronicle -/

def Sight.entered? : Sight α → Option Nat
  | .entered ticket => some ticket
  | _ => none

def Sight.began? : Sight α → Option Nat
  | .began ticket _ => some ticket
  | _ => none

/-- The tickets of the jobs that entered the queue, in this order. -/
def entries (seen : List (Sight α)) : List Nat :=
  seen.filterMap Sight.entered?

/-- The tickets of the jobs that were begun, in this order. -/
def beginnings (seen : List (Sight α)) : List Nat :=
  seen.filterMap Sight.began?

/-- The workspace that the last job to end left behind. -/
def workspaceAfter (ws : Workspace) (seen : List (Sight α)) : Workspace :=
  seen.foldl (fun ws sight => match sight with
    | .ended _ behind => behind
    | _ => ws) ws

theorem entries_append (seen more : List (Sight α)) :
    entries (seen ++ more) = entries seen ++ entries more :=
  List.filterMap_append

theorem beginnings_append (seen more : List (Sight α)) :
    beginnings (seen ++ more) = beginnings seen ++ beginnings more :=
  List.filterMap_append

theorem workspaceAfter_append (ws : Workspace) (seen more : List (Sight α)) :
    workspaceAfter ws (seen ++ more) =
      workspaceAfter (workspaceAfter ws seen) more :=
  List.foldl_append

/-- In a list that has grown, something was there before or is what was
added. -/
theorem split_grown {β : Type} {seen earlier later : List β}
    {x : Option β} {y : β} (split : seen ++ x.toList = earlier ++ y :: later) :
    (x = some y ∧ later = [] ∧ seen = earlier) ∨
      ∃ rest, later = rest ++ x.toList ∧ seen = earlier ++ y :: rest := by
  cases x with
  | none =>
      rw [Option.toList_none, List.append_nil] at split
      exact .inr ⟨later, (List.append_nil later).symm, split⟩
  | some x =>
      rcases List.eq_nil_or_concat later with rfl | ⟨rest, z, rfl⟩
      · obtain ⟨same, last⟩ := List.append_inj' split rfl
        exact .inl ⟨congrArg some (List.cons.inj last).1, rfl, same⟩
      · rw [List.concat_eq_append, ← List.cons_append,
          ← List.append_assoc] at split
        obtain ⟨same, last⟩ := List.append_inj' split rfl
        obtain rfl := (List.cons.inj last).1
        exact .inr ⟨rest, List.concat_eq_append, same⟩

/-! ## Writing a chronicle -/

def Activity.ticket? : Activity → Option Nat
  | .busy ticket => some ticket
  | .idle | .gone => none

namespace WorkQueue

/-- What the client of a request left with, if it has left. -/
def result? (q : WorkQueue α) (ticket : Nat) : Option (Request.Result α) :=
  match q.requests[ticket]? with
  | some { phase := .left result, .. } => some result
  | _ => none

/-- What is seen of an event that leads from one state to another. -/
def sight? (before : WorkQueue α) (e : Event α) (after : WorkQueue α) :
    Option (Sight α) :=
  match e with
  | .arrive job => some (.came before.requests.length job)
  | .send ticket => some (.entered ticket)
  | .look ticket | .giveUp ticket | .receive ticket =>
    (after.result? ticket).map (.returned ticket)
  | .begin => after.activity.ticket?.map (.began · before.worker.workspace)
  | .finish => before.activity.ticket?.map (.ended · after.worker.workspace)
  | .leave => none
  | .stop => some .stopped

/-- What is seen of events in a row, as far as they can happen. -/
def chronicle (q : WorkQueue α) : List (Event α) → List (Sight α)
  | [] => []
  | e :: events =>
    match q.step? e with
    | none => []
    | some after => (q.sight? e after).toList ++ after.chronicle events

/-! ## What an event does -/

/-- The state with a request in the place of another one. -/
def put (q : WorkQueue α) (ticket : Nat) (r : Request α) : WorkQueue α :=
  { q with requests := q.requests.set ticket r }

/-- The state in which the worker has ended its job and left a workspace
behind. -/
def settled (q : WorkQueue α) (behind : Workspace) : WorkQueue α :=
  { q with worker := { q.worker with workspace := behind }, activity := .idle }

theorem getElem?_put {q : WorkQueue α} {ticket : Nat} {r : Request α}
    (found : q.requests[ticket]? = some r) (r' : Request α) (other : Nat) :
    (q.put ticket r').requests[other]? =
      if other = ticket then some r' else q.requests[other]? := by
  obtain ⟨inside, -⟩ := List.getElem?_eq_some_iff.mp found
  simp only [put, List.getElem?_set, inside, if_true, eq_comm]

/-- What can happen to a work queue, and what is seen of it. -/
inductive Moves (q : WorkQueue α) : Option (Sight α) → WorkQueue α → Prop where
  | came (job : Job α) :
      Moves q (some (.came q.requests.length job))
        { q with requests := q.requests ++ [{ job := job }] }
  /-- A client finds the worker at work. -/
  | admitted {ticket : Nat} {r : Request α}
      (found : q.requests[ticket]? = some r)
      (phase : r.phase = .arrived) (running : q.worker.stopped = false) :
      Moves q none (q.put ticket { r with phase := .sending })
  | entered {ticket : Nat} {r : Request α}
      (found : q.requests[ticket]? = some r)
      (phase : r.phase = .sending) :
      Moves q (some (.entered ticket))
        ((q.put ticket { r with phase := .waiting }).enqueue ticket)
  /-- A client sees that the worker was stopped. -/
  | turnedAway {ticket : Nat} {r : Request α}
      (found : q.requests[ticket]? = some r)
      (present : ∀ result, r.phase ≠ .left result)
      (stopped : q.worker.stopped = true) :
      Moves q (some (.returned ticket .stopped))
        (q.put ticket { r with phase := .left .stopped })
  /-- A client gets its result. -/
  | received {ticket : Nat} {r : Request α} {result : Except Text α}
      (found : q.requests[ticket]? = some r) (phase : r.phase = .waiting)
      (reply : r.reply = some result) :
      Moves q (some (.returned ticket (.done result)))
        (q.put ticket { r with phase := .left (.done result) })
  | began {ticket : Nat} {rest : List Nat} (idle : q.activity = .idle)
      (queue : q.queue = ticket :: rest) :
      Moves q (some (.began ticket q.worker.workspace))
        { q with
          activity := .busy ticket
          queue := rest
          begun := q.begun ++ [ticket] }
  | ended {ticket : Nat} {r : Request α} (busy : q.activity = .busy ticket)
      (found : q.requests[ticket]? = some r) :
      Moves q (some (.ended ticket (r.job q.worker.workspace).2))
        ((q.put ticket
            { r with reply := some (r.job q.worker.workspace).1 }).settled
          (r.job q.worker.workspace).2)
  /-- The worker goes. -/
  | gone (idle : q.activity = .idle) (stopped : q.worker.stopped = true) :
      Moves q none { q with activity := .gone }
  | stopped : Moves q (some .stopped) { q with worker := q.worker.stop }

variable {q after : WorkQueue α} {ticket : Nat} {ws : Workspace}
  {seen : List (Sight α)} {sight : Option (Sight α)}

theorem update?_eq_some {change : Request α → Option (Request α)}
    (updated : q.update? ticket change = some after) :
    ∃ r r', q.requests[ticket]? = some r ∧ change r = some r' ∧
      after = q.put ticket r' := by
  obtain ⟨r', changed, rfl⟩ := Option.map_eq_some_iff.mp updated
  obtain ⟨r, found, allowed⟩ := Option.bind_eq_some_iff.mp changed
  exact ⟨r, r', found, allowed, rfl⟩

theorem result?_put {r r' : Request α} (found : q.requests[ticket]? = some r) :
    (q.put ticket r').result? ticket =
      match r'.phase with
      | .left result => some result
      | _ => none := by
  obtain ⟨job, phase, reply⟩ := r'
  simp only [result?, getElem?_put found, if_true]
  cases phase <;> rfl

/-- An event that can happen is one of the moves. -/
theorem moves_of_step? {e : Event α} (stepped : q.step? e = some after) :
    q.Moves (q.sight? e after) after := by
  cases e with
  | arrive job =>
      cases stepped
      exact .came job
  | look ticket =>
      obtain ⟨r, r', found, changed, rfl⟩ := update?_eq_some stepped
      split at changed
      next phase =>
        cases changed
        simp only [sight?, result?_put found, phaseAfterLook]
        cases stopped : q.worker.stopped with
        | false => exact .admitted found phase stopped
        | true => exact .turnedAway found (by rw [phase]; nofun) stopped
      next => cases changed
  | send ticket =>
      simp only [step?] at stepped
      split at stepped
      next =>
        obtain ⟨r, r', found, changed, rfl⟩ := update?_eq_some stepped
        split at changed
        next phase =>
          cases changed
          exact .entered found phase
        next => cases changed
      next => cases stepped
  | giveUp ticket =>
      simp only [step?] at stepped
      split at stepped
      next stopped =>
        obtain ⟨r, r', found, changed, rfl⟩ := update?_eq_some stepped
        simp only [sight?, result?_put found]
        split at changed
        next phase =>
          cases changed
          exact .turnedAway found (by rw [phase]; nofun) stopped
        next phase =>
          cases changed
          exact .turnedAway found (by rw [phase]; nofun) stopped
        next => cases changed
      next => cases stepped
  | receive ticket =>
      obtain ⟨r, r', found, changed, rfl⟩ := update?_eq_some stepped
      simp only [sight?, result?_put found]
      split at changed
      next result phase reply =>
        cases changed
        exact .received found phase reply
      next => cases changed
  | begin =>
      simp only [step?, begin?] at stepped
      split at stepped
      next ticket rest idle queue =>
        cases stepped
        exact .began idle queue
      next => cases stepped
  | finish =>
      simp only [step?, finish?] at stepped
      split at stepped
      next ticket busy =>
        obtain ⟨r, found, rfl⟩ := Option.map_eq_some_iff.mp stepped
        simp only [sight?, busy]
        exact .ended busy found
      next => cases stepped
  | leave =>
      simp only [step?] at stepped
      split at stepped
      next allowed =>
        cases stepped
        exact .gone allowed.1 allowed.2
      next => cases stepped
  | stop =>
      cases stepped
      exact .stopped

/-! ## Runs -/

/-- What holds at the start and is kept up by every move holds after a run, of
what was seen of it and the state that it led to. -/
theorem chronicle_induction {motive : List (Sight α) → WorkQueue α → Prop}
    (move : ∀ seen q sight after, motive seen q → q.Moves sight after →
      motive (seen ++ sight.toList) after)
    {start : WorkQueue α} {seen : List (Sight α)} (initial : motive seen start)
    {events : List (Event α)} (run : start.run? events = some q) :
    motive (seen ++ start.chronicle events) q := by
  induction events generalizing start seen with
  | nil =>
      cases run
      rwa [chronicle, List.append_nil]
  | cons e events ih =>
      rw [run?_cons] at run
      obtain ⟨next, stepped, rest⟩ := Option.bind_eq_some_iff.mp run
      have kept := ih (move seen start _ next initial (moves_of_step? stepped))
        rest
      rwa [chronicle, stepped, ← List.append_assoc]

theorem chronicle_append {events more : List (Event α)} {start : WorkQueue α}
    (run : start.run? events = some q) :
    start.chronicle (events ++ more) = start.chronicle events ++
      q.chronicle more := by
  induction events generalizing start with
  | nil =>
      cases run
      rfl
  | cons e events ih =>
      rw [run?_cons] at run
      obtain ⟨next, stepped, rest⟩ := Option.bind_eq_some_iff.mp run
      simp only [List.cons_append, chronicle, stepped, ih rest,
        List.append_assoc]

/-! ## What is remembered -/

/-- What the queue remembers is what was seen. -/
structure Accounts (ws : Workspace) (seen : List (Sight α))
    (q : WorkQueue α) : Prop where
  stopped : .stopped ∈ seen ↔ q.worker.stopped = true
  workspace : q.worker.workspace = workspaceAfter ws seen
  entered : entries seen = q.entered
  begun : beginnings seen = q.begun
  queued : q.entered = q.begun ++ q.queue

theorem Accounts.move (accounts : Accounts ws seen q)
    (move : q.Moves sight after) :
    Accounts ws (seen ++ sight.toList) after := by
  have stopped : .stopped ∈ seen ++ sight.toList ↔
      q.worker.stopped = true ∨ .stopped ∈ sight.toList := by
    rw [List.mem_append, accounts.stopped]
  have workspace := workspaceAfter_append ws seen sight.toList
  have entered := entries_append seen sight.toList
  have begun := beginnings_append seen sight.toList
  rw [← accounts.workspace] at workspace
  rw [accounts.entered] at entered
  rw [accounts.begun] at begun
  cases move with
  | came | admitted | turnedAway | received | ended | gone =>
      exact {
        stopped := stopped.trans (or_iff_left (by simp))
        workspace := workspace.symm
        entered := entered.trans (List.append_nil _)
        begun := begun.trans (List.append_nil _)
        queued := accounts.queued }
  | @entered ticket =>
      exact {
        stopped := stopped.trans (or_iff_left (by simp))
        workspace := workspace.symm
        entered := entered
        begun := begun.trans (List.append_nil _)
        queued := by
          show q.entered ++ [ticket] = q.begun ++ (q.queue ++ [ticket])
          rw [accounts.queued, List.append_assoc] }
  | @began ticket rest _ queue =>
      exact {
        stopped := stopped.trans (or_iff_left (by simp))
        workspace := workspace.symm
        entered := entered.trans (List.append_nil _)
        begun := begun
        queued := by
          show q.entered = q.begun ++ [ticket] ++ rest
          rw [accounts.queued, queue, List.append_assoc,
            List.singleton_append] }
  | stopped =>
      exact {
        stopped := stopped.trans (iff_of_true (.inr List.mem_cons_self) rfl)
        workspace := workspace.symm
        entered := entered.trans (List.append_nil _)
        begun := begun.trans (List.append_nil _)
        queued := accounts.queued }

end WorkQueue

end WordMachine.Editor
