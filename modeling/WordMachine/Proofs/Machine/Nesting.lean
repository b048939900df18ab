import Mathlib.Algebra.Group.Nat.Defs
import WordMachine.Proofs.Machine.History
import WordMachine.Proofs.Machine.Reachable

/-!
# Calls and returns nest

Which calls are pending can be told from the instructions carried out so far,
without a stack: a call is returned from by the first return behind it that no
later call claims.  `CallEvent.pending` goes by this rule.  The call stack holds
the resume addresses of exactly these calls, whatever the program does to its
memory meanwhile.

The proof splits the past at its pending calls.  What lies between two of them,
and behind the last, is balanced: every call there is returned from.
-/

namespace WordMachine

/-- What an instruction means for the nesting of calls. -/
inductive CallEvent where
  /-- A call to an address of memory, made by the instruction at `address`. -/
  | call (address : Int)
  | ret
  | other
  deriving DecidableEq, Repr

namespace CallEvent

/-- Whether a call is returned from in the events behind it, `depth` later calls
of which have to be returned from first. -/
def isReturned : (depth : Nat) → List CallEvent → Bool
  | _, [] => false
  | depth, .call _ :: rest => isReturned (depth + 1) rest
  | 0, .ret :: _ => true
  | depth + 1, .ret :: rest => isReturned depth rest
  | depth, .other :: rest => isReturned depth rest

/-- The addresses of the calls that are not returned from, oldest first. -/
def pending : List CallEvent → List Int
  | [] => []
  | .call address :: rest =>
    if isReturned 0 rest then pending rest else address :: pending rest
  | .ret :: rest => pending rest
  | .other :: rest => pending rest

/-- Every call is returned from, and every return is from one of the calls. -/
inductive Balanced : List CallEvent → Prop where
  | nil : Balanced []
  | other {events : List CallEvent} :
      Balanced events → Balanced (events ++ [.other])
  | returned {events inner : List CallEvent} (address : Int) : Balanced events →
      Balanced inner → Balanced (events ++ .call address :: (inner ++ [.ret]))

/-- The calls at the given addresses are pending, oldest first, with balanced
events before, between and behind them. -/
inductive Nested : List CallEvent → List Int → Prop where
  | settled {events : List CallEvent} : Balanced events → Nested events []
  | call {events inner : List CallEvent} {addresses : List Int}
      (address : Int) :
      Nested events addresses → Balanced inner →
      Nested (events ++ .call address :: inner) (addresses ++ [address])

variable {events inner rest : List CallEvent} {addresses : List Int}

/-! ## Balanced events -/

theorem Balanced.append (front : Balanced events) (back : Balanced inner) :
    Balanced (events ++ inner) := by
  induction back with
  | nil => simpa using front
  | other _ ih =>
      rw [← List.append_assoc]
      exact ih.other
  | returned address _ inner ih _ =>
      rw [← List.append_assoc]
      exact ih.returned address inner

/-- Balanced events neither return from an earlier call nor leave a call
pending. -/
theorem Balanced.isReturned_append (balanced : Balanced events) (depth : Nat)
    (rest : List CallEvent) :
    isReturned depth (events ++ rest) = isReturned depth rest := by
  induction balanced generalizing depth rest with
  | nil => rfl
  | other _ ih =>
      rw [List.append_assoc, ih]
      rfl
  | returned address _ _ front inner =>
      rw [List.append_assoc, front, List.cons_append, List.append_assoc]
      exact inner (depth + 1) _

theorem Balanced.pending_append (balanced : Balanced events)
    (rest : List CallEvent) :
    pending (events ++ rest) = pending rest := by
  induction balanced generalizing rest with
  | nil => rfl
  | other _ ih =>
      rw [List.append_assoc, ih]
      rfl
  | returned address _ inside front inner =>
      have returned : isReturned 0 (_ ++ ([.ret] ++ rest)) = true :=
        inside.isReturned_append 0 ([.ret] ++ rest)
      rw [List.append_assoc, front, List.cons_append, List.append_assoc,
        pending, if_pos returned, inner]
      rfl

/-! ## Pending calls -/

/-- Events that return from no earlier call change nothing about what is
returned from before them. -/
theorem isReturned_append
    (never : ∀ depth, isReturned depth rest = false) (depth : Nat)
    (events : List CallEvent) :
    isReturned depth (events ++ rest) = isReturned depth events := by
  fun_induction isReturned depth events with
  | case1 depth => exact never depth
  | case2 depth address events ih => exact ih
  | case3 events => rfl
  | case4 depth events ih => exact ih
  | case5 depth events ih => exact ih

theorem pending_append (never : ∀ depth, isReturned depth rest = false)
    (events : List CallEvent) :
    pending (events ++ rest) = pending events ++ pending rest := by
  fun_induction pending events with
  | case1 => rfl
  | case2 address events returned ih =>
      rw [List.cons_append, pending, isReturned_append never,
        if_pos returned, ih]
  | case3 address events waiting ih =>
      rw [List.cons_append, pending, isReturned_append never,
        if_neg waiting, ih]
      rfl
  | case4 events ih => exact ih
  | case5 events ih => exact ih

/-- A call with balanced events behind it returns from nothing and is
pending. -/
theorem Balanced.isReturned_call (balanced : Balanced inner) (address : Int)
    (depth : Nat) :
    isReturned depth (.call address :: inner) = false := by
  have nothing := balanced.isReturned_append (depth + 1) []
  rw [List.append_nil] at nothing
  exact nothing

theorem Balanced.pending_call (balanced : Balanced inner) (address : Int) :
    pending (.call address :: inner) = [address] := by
  have unreturned := balanced.isReturned_append 0 []
  have nothing := balanced.pending_append []
  rw [List.append_nil] at unreturned nothing
  rw [pending, unreturned, nothing]
  rfl

theorem Nested.pending_eq (nested : Nested events addresses) :
    pending events = addresses := by
  induction nested with
  | settled balanced =>
      have nothing := balanced.pending_append []
      rw [List.append_nil] at nothing
      exact nothing
  | call address _ balanced ih =>
      rw [pending_append (balanced.isReturned_call address),
        balanced.pending_call, ih]

/-! ## One more event -/

/-- Balanced events may follow at any time. -/
theorem Nested.append (nested : Nested events addresses)
    (balanced : Balanced rest) :
    Nested (events ++ rest) addresses := by
  cases nested with
  | settled front => exact .settled (front.append balanced)
  | call address before inner =>
      rw [List.append_assoc]
      exact .call address before (inner.append balanced)

theorem Nested.other (nested : Nested events addresses) :
    Nested (events ++ [.other]) addresses :=
  nested.append (Balanced.nil.other)

/-- A return is from the latest pending call. -/
theorem Nested.ret {address : Int}
    (nested : Nested events (addresses ++ [address])) :
    Nested (events ++ [.ret]) addresses ∧
      ∃ earlier inner, events = earlier ++ .call address :: inner ∧
        Balanced inner := by
  generalize all : addresses ++ [address] = pending at nested
  cases nested with
  | settled balanced => simp at all
  | call latest before inner =>
      obtain ⟨rfl, same⟩ := List.append_inj' all rfl
      cases same
      refine ⟨?_, _, _, rfl, inner⟩
      rw [List.append_assoc]
      exact before.append (Balanced.nil.returned address inner)

end CallEvent

open CallEvent (Balanced Nested)

def Transition.callEvent (t : Transition) : CallEvent :=
  match t.instruction.op with
  | .call =>
    if t.instruction.immediate < NativeAddress.base then
      .call t.before.pc else .other
  | .ret => .ret
  | _ => .other

namespace Machine

variable {natives : Natives} {cancelled : Nat → Bool} {m m' start : Machine}
  {trace : List Transition}

/-! ## Steps -/

/-- The calls at the given addresses are pending in a machine. -/
def Resumes (m : Machine) (addresses : List Int) : Prop :=
  m.calls.bottomFirst.map Int64.toInt = addresses.map (· + 2)

/-- How a step moves the pending calls, if native functions leave them alone. -/
inductive CallStep (natives : Natives) (cancelled : Nat → Bool)
    (m : Machine) : Prop where
  | call {t : Transition} (taken : m.transition? natives cancelled = some t)
      (event : t.callEvent = .call m.pc)
      (inside : 0 ≤ m.pc ∧ m.pc + 2 ≤ m.memory.size)
      (calls : (m.step natives cancelled).1.calls.words =
        Int64.ofInt (m.pc + 2) :: m.calls.words)
  | ret {t : Transition} {address : Word}
      (taken : m.transition? natives cancelled = some t)
      (event : t.callEvent = .ret)
      (calls : m.calls.words =
        address :: (m.step natives cancelled).1.calls.words)
      (pc : (m.step natives cancelled).1.pc = address.toInt)
  | other (event : ∀ t, m.transition? natives cancelled = some t →
      t.callEvent = .other)
      (calls : (m.step natives cancelled).1.calls = m.calls)

/-- A call that succeeds is to an address of memory if it is not to a native
function. -/
theorem Ready.lt_base {w target : Word} (ready : m.Ready w .call target)
    (ordinary : ¬ m.CallsNative natives)
    (stepped : m.step natives cancelled = (m', none)) :
    target < NativeAddress.base := by
  refine Int64.not_le.mp fun reserved => ?_
  rw [step_of_ready _ _ ready, execute, calling, if_pos reserved] at stepped
  cases found : natives.get? target with
  | some native => exact ordinary (ready.callsNative reserved found)
  | none =>
      rw [found] at stepped
      cases stepped

theorem callStep (cancelled : Nat → Bool)
    (native : m.CallsNative natives →
      m.Undisturbed (m.step natives cancelled).1) :
    CallStep natives cancelled m := by
  cases stepShape natives cancelled m with
  | native calls reserved transition =>
      refine .other ?_ (native calls).calls
      intro t taken
      rw [Transition.callEvent, transition t taken]
      exact if_neg (Int64.not_lt.mpr reserved)
  | failed stepped transition untouched =>
      refine .other ?_ (by rw [stepped]; exact untouched.calls)
      intro t taken
      rw [transition] at taken
      cases taken
  | @carriedOut w immediate op after ready ordinary stepped transition effect =>
      by_cases isCall : op = .call
      · subst isCall
        refine .call transition ?_ ready.bounds
          (by rw [stepped]; exact effect.called rfl)
        exact if_pos (ready.lt_base ordinary stepped)
      · by_cases isReturn : op = .ret
        · subst isReturn
          obtain ⟨address, words⟩ := effect.returned rfl
          refine .ret transition rfl (by rw [stepped]; exact words) ?_
          rw [stepped, effect.pc, diversion?, words]
          rfl
        · refine .other ?_ (by rw [stepped]; exact effect.calls isCall isReturn)
          intro t taken
          cases transition.symm.trans taken
          unfold Transition.callEvent
          split
          next called => exact absurd called isCall
          next returned => exact absurd returned isReturn
          next => rfl

/-! ## Histories -/

theorem resumes_push {addresses : List Int} {address : Int}
    (resumes : m.Resumes addresses)
    (isWord : (Int64.ofInt (address + 2)).toInt = address + 2)
    (calls : m'.calls.words = Int64.ofInt (address + 2) :: m.calls.words) :
    m'.Resumes (addresses ++ [address]) := by
  unfold Resumes Stack.bottomFirst at resumes ⊢
  rw [calls, List.reverse_cons, List.map_append, resumes, List.map_append,
    List.map_singleton, List.map_singleton, isWord]

theorem resumes_pop {addresses : List Int} {resume : Word}
    (resumes : m.Resumes addresses)
    (calls : m.calls.words = resume :: m'.calls.words) :
    ∃ earlier address, addresses = earlier ++ [address] ∧
      resume.toInt = address + 2 ∧ m'.Resumes earlier := by
  unfold Resumes Stack.bottomFirst at resumes
  rw [calls, List.reverse_cons, List.map_append, List.map_singleton] at resumes
  obtain ⟨earlier, last, rfl, front, back⟩ :=
    List.map_eq_append_iff.mp resumes.symm
  obtain ⟨address, rfl, same⟩ := List.map_eq_singleton_iff.mp back
  exact ⟨earlier, address, rfl, same.symm, front.symm⟩

/-- The pending calls of a machine are those of its history. -/
theorem History.nested (fits : start.memory.size < 2 ^ 63)
    (fresh : start.calls.words = []) (history : History natives start trace m) :
    ∃ addresses, Nested (trace.map Transition.callEvent) addresses ∧
      m.Resumes addresses := by
  induction history with
  | start =>
      exact ⟨[], .settled .nil, by simp [Resumes, Stack.bottomFirst, fresh]⟩
  | outside before undisturbed ih =>
      obtain ⟨addresses, nested, resumes⟩ := ih
      exact ⟨addresses, nested, by rwa [Resumes, undisturbed.calls]⟩
  | @step trace m cancelled before native ih =>
      obtain ⟨addresses, nested, resumes⟩ := ih
      have size := before.memory_size
      rw [List.map_append]
      cases callStep cancelled native with
      | call taken event inside calls =>
          rw [taken, Option.toList_some, List.map_singleton, event]
          have isWord : (Int64.ofInt (m.pc + 2)).toInt = m.pc + 2 :=
            Int64.toInt_ofInt_of_le (by omega) (by omega)
          exact ⟨_, nested.call m.pc .nil, resumes_push resumes isWord calls⟩
      | ret taken event calls pc =>
          obtain ⟨earlier, address, rfl, -, popped⟩ := resumes_pop resumes calls
          rw [taken, Option.toList_some, List.map_singleton, event]
          exact ⟨earlier, nested.ret.1, popped⟩
      | other event calls =>
          have kept : (m.step natives cancelled).1.Resumes addresses := by
            rwa [Resumes, calls]
          cases taken : m.transition? natives cancelled with
          | none =>
              rw [Option.toList_none, List.map_nil, List.append_nil]
              exact ⟨addresses, nested, kept⟩
          | some t =>
              rw [Option.toList_some, List.map_singleton, event t taken]
              exact ⟨addresses, nested.other, kept⟩

theorem calls_of_load {program : Array Word}
    (loaded : m.load program = .ok start) :
    start.calls.words = [] := by
  unfold load at loaded
  split at loaded
  · cases loaded
    rfl
  · cases loaded

theorem ready_return (atReturn : m.wordAt? m.pc = some Opcode.ret.code) :
    m.Ready Opcode.ret.code .ret 0 :=
  ⟨atReturn, rfl, rfl, Nat.zero_le _⟩

/-- A return with nothing to return to fails. -/
theorem step_return_without_call (cancelled : Nat → Bool)
    (atReturn : m.wordAt? m.pc = some Opcode.ret.code)
    (empty : m.calls.words = []) :
    m.step natives cancelled =
      (m.traced .ret 0, some ⟨m.pc, Opcode.ret.code,
        .root .returnWithoutCall⟩) := by
  have traced : (m.traced .ret 0).calls.words = [] := by
    rw [traced_eq]; exact empty
  rw [step_of_ready _ _ (ready_return atReturn), execute, returning, traced]
  rfl

/-- Calls and returns nest.  Whatever is in memory, the call stack of a machine
that has loaded a program holds the addresses behind the calls that were made
and not returned from.  A return goes on behind the latest of these, fails if
there is none, and nothing but calls and returns that succeed changes the call
stack.  Memory is bounded because an address behind a call has to be a word.
Runs are histories. -/
theorem calls_nest {m start s : Machine} {program : Array Word}
    {trace : List Transition} (fits : m.memory.size < 2 ^ 63)
    (loaded : m.load program = .ok start)
    (history : History Natives.standard start trace s) :
    s.calls.bottomFirst.map Int64.toInt =
        (CallEvent.pending (trace.map Transition.callEvent)).map (· + 2) ∧
      (∀ cancelled after, s.wordAt? s.pc = some Opcode.ret.code →
        s.step Natives.standard cancelled = (after, none) →
        ∃ earlier address inner,
          trace.map Transition.callEvent = earlier ++ .call address :: inner ∧
            Balanced inner ∧ after.pc = address + 2) ∧
      (∀ cancelled, s.wordAt? s.pc = some Opcode.ret.code →
        CallEvent.pending (trace.map Transition.callEvent) = [] →
        ∃ after, s.step Natives.standard cancelled =
          (after, some ⟨s.pc, Opcode.ret.code, .root .returnWithoutCall⟩)) ∧
      (∀ cancelled,
        (∀ t, s.transition? Natives.standard cancelled = some t →
          t.callEvent = .other) →
        (s.step Natives.standard cancelled).1.calls = s.calls) ∧
      ∀ watch fuel, ∃ more, History Natives.standard start (trace ++ more)
        (s.run Natives.standard watch fuel).1 := by
  have size : start.memory.size = m.memory.size :=
    (withinBounds_of_load loaded).memory
  obtain ⟨addresses, nested, resumes⟩ :=
    history.nested (by omega) (calls_of_load loaded)
  rw [nested.pending_eq]
  refine ⟨resumes, ?_, ?_, ?_, fun watch fuel => history.runFrom watch fuel 0⟩
  · intro cancelled after atReturn stepped
    have taken := transition?_of_success (ready_return atReturn) stepped
    cases callStep cancelled (undisturbed_of_standard cancelled) with
    | call taken' event inside calls =>
        cases taken.symm.trans taken'
        cases event
    | other event calls => cases event _ taken
    | ret taken' event calls pc =>
        obtain ⟨earlier, address, rfl, same, -⟩ := resumes_pop resumes calls
        obtain ⟨-, before, inner, split, balanced⟩ := nested.ret
        rw [stepped, same] at pc
        exact ⟨before, address, inner, split, balanced, pc⟩
  · rintro cancelled atReturn rfl
    have empty : s.calls.words = [] := by
      simpa [Resumes, Stack.bottomFirst] using resumes
    exact ⟨_, step_return_without_call cancelled atReturn empty⟩
  · intro cancelled ordinary
    cases callStep cancelled (undisturbed_of_standard cancelled) with
    | call taken event inside calls =>
        rw [ordinary _ taken] at event
        cases event
    | ret taken event calls pc =>
        rw [ordinary _ taken] at event
        cases event
    | other event calls => exact calls

/-- Eight words of memory and room for two pending calls. -/
def twoDeep : Machine where
  memory := Array.replicate 8 0
  limits := { calls := 2 }

/-- A program that calls its fourth word, where the seventh is called; both
return. -/
def nestedCalls : Array Word :=
  #[Opcode.call.code, 3, Opcode.halt.code, Opcode.call.code, 6, Opcode.ret.code,
    Opcode.ret.code]

theorem calls_nest_returning :
    ∃ start s trace, twoDeep.load nestedCalls = .ok start ∧
      History Natives.standard start trace s ∧
      trace.map Transition.callEvent = [.call 0, .call 3, .ret] ∧
      s.calls.bottomFirst.map Int64.toInt = [2] ∧
      ∃ after earlier address inner, s.step Natives.standard (fun _ => false) =
        (after, none) ∧
        [.call 0, .call 3, .ret] = earlier ++ .call address :: inner ∧
          Balanced inner ∧
        after.pc = address + 2 ∧ after.pc = 2 := by
  obtain ⟨start, s, trace, loaded, history, events, atReturn, after,
      stepped, pc⟩ :
      ∃ start s trace, twoDeep.load nestedCalls = .ok start ∧
        History Natives.standard start trace s ∧
        trace.map Transition.callEvent = [.call 0, .call 3, .ret] ∧
        s.wordAt? s.pc = some Opcode.ret.code ∧
        ∃ after, s.step Natives.standard (fun _ => false) = (after, none) ∧
          after.pc = 2 :=
    ⟨_, _, _, rfl,
      ((History.start.step (fun _ => false) (undisturbed_of_standard _)).step
        (fun _ => false) (undisturbed_of_standard _)).step (fun _ =>
          false) (undisturbed_of_standard _),
      rfl, rfl, _, rfl, rfl⟩
  obtain ⟨pending, returns, -⟩ := calls_nest (by decide) loaded history
  obtain ⟨earlier, address, inner, split, balanced, resumed⟩ :=
    returns _ after atReturn stepped
  rw [events] at pending split
  exact ⟨start, s, trace, loaded, history, events, pending, after, earlier,
    address, inner, stepped, split, balanced, resumed, pc⟩

end Machine

end WordMachine
