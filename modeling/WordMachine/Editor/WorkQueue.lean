import WordMachine.Editor.Workspace

/-!
# Work from many clients

Any number of clients give jobs to one worker.  A job waits in a queue of
limited length until the worker takes it out and does it; its client waits for
the result.  Once the worker is stopped, clients need not wait any longer and
the worker need not take another job.

The state changes by single events.  A list of events is one of the orders in
which the actions of the clients, of the worker and of those who stop it may
fall, and `WorkQueue.step?` refuses an event that cannot happen.
-/

namespace WordMachine.Editor

/-- What a client leaves with. -/
inductive Request.Result (α : Type) where
  /-- The worker was stopped. -/
  | stopped
  /-- The job was done to its end, or broke off with a message. -/
  | done (result : Except Text α)

/-- How far a client is with its job. -/
inductive Request.Phase (α : Type) where
  /-- It comes with a job. -/
  | arrived
  /-- It found the worker at work and waits for a place in the queue. -/
  | sending
  /-- It waits for the result. -/
  | waiting
  | left (result : Request.Result α)

/-- A job brought by a client. -/
structure Request (α : Type) where
  job : Job α
  phase : Request.Phase α := .arrived
  /-- The result, once the job is done. -/
  reply : Option (Except Text α) := none

/-- What the worker is doing. -/
inductive Activity where
  | idle
  /-- Doing the job of a request. -/
  | busy (ticket : Nat)
  /-- Gone for good. -/
  | gone
  deriving DecidableEq, Repr

/-- Clients, a queue and a worker. -/
structure WorkQueue (α : Type) where
  worker : Worker := {}
  activity : Activity := .idle
  /-- All requests in the order of their arrival.  The place of a request in
  this list is its ticket. -/
  requests : List (Request α) := []
  /-- The tickets in the queue, the oldest first. -/
  queue : List Nat := []
  /-- The tickets that ever entered the queue, in this order. -/
  entered : List Nat := []
  /-- The tickets whose jobs were begun, in this order. -/
  begun : List Nat := []

namespace WorkQueue

variable {α : Type}

/-- How many jobs may wait. -/
def capacity : Nat := 64

inductive Event (α : Type) where
  /-- A client comes with a job. -/
  | arrive (job : Job α)
  /-- A client looks whether the worker was stopped. -/
  | look (ticket : Nat)
  /-- A client puts its job into the queue. -/
  | send (ticket : Nat)
  /-- A client sees that the worker was stopped and waits no longer. -/
  | giveUp (ticket : Nat)
  /-- A client gets its result. -/
  | receive (ticket : Nat)
  /-- The worker begins the oldest job of the queue. -/
  | begin
  /-- The worker ends its job and lays out the result. -/
  | finish
  /-- The worker sees that it was stopped and goes. -/
  | leave
  /-- Somebody stops the worker. -/
  | stop

/-- Change the request with a ticket, if `change` allows it. -/
def update? (q : WorkQueue α) (ticket : Nat)
    (change : Request α → Option (Request α)) :
    Option (WorkQueue α) :=
  (q.requests[ticket]?.bind change).map fun r =>
    { q with requests := q.requests.set ticket r }

def phaseAfterLook (q : WorkQueue α) : Request.Phase α :=
  if q.worker.stopped then .left .stopped else .sending

def enqueue (q : WorkQueue α) (ticket : Nat) : WorkQueue α :=
  { q with queue := q.queue ++ [ticket], entered := q.entered ++ [ticket] }

def begin? (q : WorkQueue α) : Option (WorkQueue α) :=
  match q.activity, q.queue with
  | .idle, ticket :: rest =>
    some { q with
      activity := .busy ticket, queue := rest, begun := q.begun ++ [ticket] }
  | _, _ => none

def finish? (q : WorkQueue α) : Option (WorkQueue α) :=
  match q.activity with
  | .busy ticket =>
    q.requests[ticket]?.map fun r =>
      let (result, ws) := r.job q.worker.workspace
      { q with
        worker := { q.worker with workspace := ws }
        activity := .idle
        requests := q.requests.set ticket { r with reply := some result } }
  | _ => none

/-- The state after an event, if it can happen. -/
def step? (q : WorkQueue α) : Event α → Option (WorkQueue α)
  | .arrive job => some { q with requests := q.requests ++ [{ job := job }] }
  | .look ticket => q.update? ticket fun r =>
    match r.phase with
    | .arrived => some { r with phase := q.phaseAfterLook }
    | _ => none
  | .send ticket =>
    if q.queue.length < capacity then
      (q.enqueue ticket).update? ticket fun r =>
        match r.phase with
        | .sending => some { r with phase := .waiting }
        | _ => none
    else none
  | .giveUp ticket =>
    if q.worker.stopped then
      q.update? ticket fun r =>
        match r.phase with
        | .sending | .waiting => some { r with phase := .left .stopped }
        | _ => none
    else none
  | .receive ticket => q.update? ticket fun r =>
    match r.phase, r.reply with
    | .waiting, some result => some { r with phase := .left (.done result) }
    | _, _ => none
  | .begin => q.begin?
  | .finish => q.finish?
  | .leave =>
    if q.activity = .idle ∧ q.worker.stopped then
      some { q with activity := .gone } else none
  | .stop => some { q with worker := q.worker.stop }

/-- The state after events in a row, if all of them can happen. -/
def run? (q : WorkQueue α) (events : List (Event α)) : Option (WorkQueue α) :=
  events.foldlM step? q

@[simp] theorem run?_nil (q : WorkQueue α) : q.run? [] = some q := rfl

@[simp] theorem run?_cons (q : WorkQueue α) (e : Event α)
    (events : List (Event α)) :
    q.run? (e :: events) = (q.step? e).bind (·.run? events) := rfl

theorem run?_append (q : WorkQueue α) (events more : List (Event α)) :
    q.run? (events ++ more) = (q.run? events).bind (·.run? more) :=
  List.foldlM_append

end WorkQueue

end WordMachine.Editor
