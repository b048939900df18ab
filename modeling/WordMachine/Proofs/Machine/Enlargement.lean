import WordMachine.Proofs.Machine.Alike
import WordMachine.Proofs.Machine.Reachable

/-!
# Machines with more room

A machine looks at the size of its memory and at the limits of its stacks only
to fail.  So a program that reaches its end does the same on a machine with more
room, and does not touch the words that were added.
-/

namespace WordMachine

/-- Room to be added to a machine. -/
structure Room where
  words : Nat
  stack : Nat
  calls : Nat

/-- The machine with zero words behind its memory and higher limits for its
stacks. -/
def Machine.enlarged (m : Machine) (r : Room) : Machine :=
  { m with
    memory := m.memory ++ Array.replicate r.words 0
    limits := { m.limits with
      stack := m.limits.stack + r.stack
      calls := m.limits.calls + r.calls } }

/-- If the first outcome, that of an instruction on memory of the given size, is
a success, the memory has kept its size and the second outcome is the same with
more room. -/
def Outcome.Scales (r : Room) (size : Nat) : Outcome → Outcome → Prop
  | .proceed after next, outcome =>
    outcome = .proceed (after.enlarged r) next ∧ after.memory.size = size
  | .fail _ _, _ => True

/-! ## Reading memory -/

section Append

variable {memory : Array Word} {p : Nat} (extra : Array Word)

theorem lt_size_append (inside : p < memory.size) :
    p < (memory ++ extra).size := by
  rw [Array.size_append]
  exact Nat.lt_add_right _ inside

theorem index?_append {address : Word}
    (found : address.index? memory.size = some p) :
    address.index? (memory ++ extra).size = some p := by
  have larger := lt_size_append extra (Word.index?_lt found)
  grind [Word.index?]

/-- A string that is ended inside memory does not depend on what is behind
it. -/
theorem StringLiteral.decodeFrom_append {start : Word} {done : List Char}
    (ended : (decodeFrom memory start p done).2 = none) :
    decodeFrom (memory ++ extra) start p done =
      decodeFrom memory start p done := by
  fun_induction decodeFrom memory start p done with
  | case1 p done inside w zero =>
      rw [decodeFrom, dif_pos (lt_size_append extra inside)]
      simp only [Array.getElem_append_left inside]
      rw [if_pos zero]
  | case2 p done inside w nonzero ih =>
      rw [decodeFrom, dif_pos (lt_size_append extra inside)]
      simp only [Array.getElem_append_left inside]
      rw [if_neg nonzero]
      exact ih ended
  | case3 => cases ended

theorem StringLiteral.decode_append {address : Word}
    (ended : (decode memory address).2 = none) :
    decode (memory ++ extra) address = decode memory address := by
  unfold decode at ended ⊢
  cases found : address.index? memory.size with
  | none =>
      rw [found] at ended
      cases ended
  | some p =>
      rw [found] at ended
      rw [index?_append extra found]
      exact decodeFrom_append extra ended

namespace Printf

theorem operandText_append {d operand : Word} {text : Text}
    (written : operandText memory d operand = .ok text) :
    operandText (memory ++ extra) d operand = .ok text := by
  by_cases string : d.toInt = 115
  · simp only [operandText, string] at written ⊢
    rcases decoded : StringLiteral.decode memory operand with
      ⟨decodedText, _ | fault⟩
    · rw [StringLiteral.decode_append extra (by rw [decoded]), decoded]
      rwa [decoded] at written
    · rw [decoded] at written
      cases written
  · rw [← written]
    grind [operandText]

theorem directive_append {d : Word} {state : Progress}
    (carried : (directive memory d state).2 = none) :
    directive (memory ++ extra) d state = directive memory d state := by
  cases takes : takesOperand d with
  | false => simp [directive, takes]
  | true =>
      cases words : state.stack.words with
      | nil => simp [directive, takes, words]
      | cons operand rest =>
          cases written : operandText memory d operand with
          | ok text =>
              simp [directive, takes, words, written,
                operandText_append extra written]
          | error fault => simp [directive, takes, words, written] at carried

/-- A format that is read to its end does not depend on what is behind
memory. -/
theorem formatFrom_append {state : Progress}
    (read : ∀ fault, (formatFrom memory p state).2 ≠ .failed fault) :
    formatFrom (memory ++ extra) p state = formatFrom memory p state := by
  fun_induction formatFrom memory p state with
  | case1 p state inside w zero =>
      rw [formatFrom, dif_pos (lt_size_append extra inside)]
      simp only [Array.getElem_append_left inside]
      rw [if_pos zero]
  | case2 p state inside w nonzero plain ih =>
      rw [formatFrom, dif_pos (lt_size_append extra inside)]
      simp only [Array.getElem_append_left inside]
      rw [if_neg nonzero, if_pos plain]
      exact ih read
  | case3 p state inside w nonzero percent behind d zero =>
      rw [formatFrom, dif_pos (lt_size_append extra inside)]
      simp only [Array.getElem_append_left inside,
        Array.getElem_append_left behind]
      rw [if_neg nonzero, if_neg percent,
        dif_pos (lt_size_append extra behind), if_pos zero]
  | case4 p state inside w nonzero percent behind d nonzero' after
      fault carried =>
      exact absurd rfl (read fault)
  | case5 p state inside w nonzero percent behind d nonzero' after carried ih =>
      rw [formatFrom, dif_pos (lt_size_append extra inside)]
      simp only [Array.getElem_append_left inside,
        Array.getElem_append_left behind]
      rw [if_neg nonzero, if_neg percent, dif_pos (lt_size_append extra behind),
        if_neg nonzero', directive_append extra (congrArg Prod.snd carried),
        carried]
      exact ih read
  | case6 => exact absurd rfl (read _)
  | case7 => exact absurd rfl (read _)

theorem format_append {address : Word} {state : Progress}
    (read : ∀ fault, (format memory address state).2 ≠ .failed fault) :
    format (memory ++ extra) address state = format memory address state := by
  unfold format at read ⊢
  cases found : address.index? memory.size with
  | none =>
      rw [found] at read
      exact absurd rfl (read _)
  | some p =>
      rw [found] at read
      rw [index?_append extra found]
      exact formatFrom_append extra read

end Printf

end Append

namespace Machine

variable {m : Machine} {next : Int} (r : Room)

@[simp] theorem stack_enlarged : (m.enlarged r).stack = m.stack := rfl

theorem wordAt?_enlarged {address : Int} {w : Word}
    (found : m.wordAt? address = some w) :
    (m.enlarged r).wordAt? address = some w := by
  obtain ⟨nonnegative, inside⟩ := bounds_of_wordAt? found
  rw [wordAt?, if_pos nonnegative] at found ⊢
  exact (Array.getElem?_append_left (by omega)).trans found

theorem fetch_enlarged {address w : Word} (fetched : m.fetch address = .ok w) :
    (m.enlarged r).fetch address = .ok w := by
  unfold fetch at fetched ⊢
  cases found : m.wordAt? address.toInt with
  | none => simp [found] at fetched
  | some word =>
      rw [wordAt?_enlarged r found]
      rwa [found] at fetched

/-! ## Instructions -/

theorem pushing_enlarged (w : Word) :
    (m.pushing next w).Scales r m.memory.size
      ((m.enlarged r).pushing next w) := by
  by_cases room : m.stack.depth < m.limits.stack
  · have more : m.stack.depth < m.limits.stack + r.stack :=
      Nat.lt_add_right _ room
    simp [pushing, push, room, more, enlarged, Outcome.Scales]
  · simp [pushing, push, room, Outcome.Scales]

theorem unary_enlarged (f : Word → Word) :
    (m.unary next f).Scales r m.memory.size ((m.enlarged r).unary next f) := by
  cases words : m.stack.words with
  | nil => simp [unary, words, Outcome.Scales]
  | cons a rest => simp [unary, words, enlarged, Outcome.Scales]

theorem guarded_enlarged (f : Word → Word → Except Fault Word) :
    (m.guarded next f).Scales r m.memory.size
      ((m.enlarged r).guarded next f) := by
  rcases words : m.stack.words with _ | ⟨a, _ | ⟨b, rest⟩⟩
  · simp [guarded, words, Outcome.Scales]
  · simp [guarded, words, Outcome.Scales]
  · cases result : f a b with
    | ok w =>
        simp only [guarded, stack_enlarged, words, result]
        exact pushing_enlarged (m := { m with stack := m.stack.drop2 }) r w
    | error fault => simp [guarded, words, result, Outcome.Scales]

theorem loading_enlarged (address : Word) :
    (m.loading next address).Scales r m.memory.size
      ((m.enlarged r).loading next address) := by
  cases fetched : m.fetch address with
  | ok w =>
      simp only [loading, fetched, fetch_enlarged r fetched]
      exact pushing_enlarged r w
  | error fault => simp [loading, fetched, Outcome.Scales]

theorem storing_enlarged (address : Word) :
    (m.storing next address).Scales r m.memory.size
      ((m.enlarged r).storing next address) := by
  cases words : m.stack.words with
  | nil => simp [storing, words, Outcome.Scales]
  | cons w rest =>
      cases found : address.index? m.memory.size with
      | none => simp [storing, words, found, Outcome.Scales]
      | some i =>
          have found' : address.index? (m.enlarged r).memory.size = some i :=
            index?_append _ found
          simp only [storing, stack_enlarged, words, found, found']
          refine ⟨?_, Array.size_setIfInBounds⟩
          simp only [enlarged,
            Array.setIfInBounds_append_left (Word.index?_lt found)]

theorem allocating_enlarged (size : Word) :
    (m.allocating next size).Scales r m.memory.size
      ((m.enlarged r).allocating next size) := by
  by_cases refused : size < 0 ∨ (m.memory.size : Int) - m.heapTop < size.toInt
  · simp [allocating, refused, Outcome.Scales]
  · have granted : ¬ (size < 0 ∨
        ((m.enlarged r).memory.size : Int) - (m.enlarged r).heapTop <
          size.toInt) := by
      have larger : m.memory.size ≤ (m.enlarged r).memory.size := by
        simp [enlarged]
      have same : (m.enlarged r).heapTop = m.heapTop := rfl
      rintro (negative | exhausted)
      · exact refused (.inl negative)
      · exact refused (.inr (by omega))
    rw [allocating, if_neg refused, allocating, if_neg granted]
    by_cases room : m.stack.depth < m.limits.stack
    · have more : m.stack.depth < m.limits.stack + r.stack :=
        Nat.lt_add_right _ room
      simp [push, room, more, enlarged, Outcome.Scales]
    · simp [push, room, Outcome.Scales]

theorem returning_enlarged :
    m.returning.Scales r m.memory.size (m.enlarged r).returning := by
  cases words : m.calls.words with
  | nil => simp [returning, words, Outcome.Scales]
  | cons address rest => simp [returning, words, enlarged, Outcome.Scales]

theorem jumping_enlarged (target : Word) :
    (m.jumping target).Scales r m.memory.size
      ((m.enlarged r).jumping target) := by
  cases fetched : m.fetch target with
  | ok w => simp [jumping, fetched, fetch_enlarged r fetched, Outcome.Scales]
  | error fault => simp [jumping, fetched, Outcome.Scales]

theorem branching_enlarged (target : Word) :
    (m.branching next target).Scales r m.memory.size
      ((m.enlarged r).branching next target) := by
  cases words : m.stack.words with
  | nil => simp [branching, words, Outcome.Scales]
  | cons condition rest =>
      cases truth : condition.isTrue with
      | false => simp [branching, words, truth, enlarged, Outcome.Scales]
      | true =>
          cases fetched : m.fetch target with
          | ok w =>
              simp only [branching, stack_enlarged, words, truth, fetched,
                fetch_enlarged r fetched]
              exact ⟨rfl, rfl⟩
          | error fault =>
              simp [branching, words, truth, fetched, Outcome.Scales]

theorem printf_enlarged :
    (Printf.body m next).Scales r m.memory.size
      (Printf.body (m.enlarged r) next) := by
  cases words : m.stack.words with
  | nil => simp [Printf.body, pop, words, Outcome.Scales]
  | cons address rest =>
      rcases formatted : Printf.format m.memory address
        ⟨m.stack.drop1, ⟨m.host.output, none⟩⟩ with ⟨state, ending⟩
      cases fault : ending.fault? state.writer with
      | some fault =>
          simp [Printf.body, pop, words, formatted, fault, Outcome.Scales]
      | none =>
          have read : ∀ fault, (Printf.format m.memory address
              ⟨m.stack.drop1, ⟨m.host.output, none⟩⟩).2 ≠ .failed fault := by
            rintro reason failed
            rw [formatted] at failed
            cases failed
            cases fault
          have formatted' : Printf.format (m.enlarged r).memory address
              ⟨m.stack.drop1, ⟨(m.enlarged r).host.output, none⟩⟩ =
                (state, ending) :=
            (Printf.format_append _ read).trans formatted
          simp only [Printf.body, pop, stack_enlarged, words, formatted',
            formatted, fault]
          exact ⟨rfl, rfl⟩

theorem calling_enlarged (target : Word) :
    (m.calling Natives.standard next target).Scales r m.memory.size
      ((m.enlarged r).calling Natives.standard next target) := by
  by_cases reserved : NativeAddress.base ≤ target
  · cases bound : Natives.standard.get? target with
    | none => simp [calling, reserved, bound, Outcome.Scales]
    | some native =>
        simp only [calling, reserved, if_true, bound, body_of_standard bound]
        exact printf_enlarged r
  · cases fetched : m.fetch target with
    | error fault => simp [calling, reserved, fetched, Outcome.Scales]
    | ok w =>
        by_cases room : m.calls.depth < m.limits.calls
        · have more : (m.enlarged r).calls.depth <
              (m.enlarged r).limits.calls :=
            Nat.lt_add_right _ room
          simp only [calling, reserved, fetched,
            fetch_enlarged r fetched, room, more, if_false, if_true]
          exact ⟨rfl, rfl⟩
        · simp [calling, reserved, fetched, room, Outcome.Scales]

/-- An instruction that succeeds does the same with more room. -/
theorem execute_enlarged (cancelled : Nat → Bool) (op : Opcode)
    (immediate : Word) (next : Int) :
    (execute Natives.standard cancelled m op immediate next).Scales
      r m.memory.size (execute Natives.standard cancelled (m.enlarged r) op
        immediate next) := by
  have same : (m.enlarged r).operation cancelled op =
      m.operation cancelled op := by
    cases op <;> rfl
  rw [execute_eq, execute_eq, same]
  cases m.operation cancelled op with
  | unary f => exact unary_enlarged r f
  | binary f => exact guarded_enlarged r f
  | transfer =>
      cases op with
      | loads => exact pushing_enlarged r immediate
      | loadm => exact loading_enlarged r immediate
      | store => exact storing_enlarged r immediate
      | alloc => exact allocating_enlarged r immediate
      | call => exact calling_enlarged r immediate
      | ret => exact returning_enlarged r
      | jump => exact jumping_enlarged r immediate
      | ifjump => exact branching_enlarged r immediate
      | _ => exact ⟨rfl, rfl⟩

/-! ## Runs -/

theorem exists_ready {natives : Natives} {cancelled : Nat → Bool}
    {after : Machine} (stepped : m.step natives cancelled = (after, none)) :
    ∃ w op immediate, m.Ready w op immediate := by
  rcases step_cases natives cancelled m with ⟨fault, refused⟩ | ready
  · rw [refused] at stepped
    cases stepped
  · exact ready

theorem Ready.enlarged {w immediate : Word} {op : Opcode}
    (ready : m.Ready w op immediate) :
    (m.enlarged r).Ready w op immediate where
  word := wordAt?_enlarged r ready.word
  opcode := ready.opcode
  immediate := by
    have given := ready.immediate
    unfold immediate? at given ⊢
    by_cases takes : op.info.immediate = true
    · rw [if_pos takes] at given ⊢
      exact wordAt?_enlarged r given
    · rwa [if_neg takes] at given ⊢
  operands := ready.operands

theorem traced_enlarged (op : Opcode) (immediate : Word) :
    (m.enlarged r).traced op immediate =
      (m.traced op immediate).enlarged r := by
  cases tracing : m.host.tracing with
  | false => simp [traced, tracing, enlarged]
  | true => simp [traced, tracing, enlarged, logged, traceLine]

/-- A step that succeeds does the same with more room. -/
theorem step_enlarged {cancelled : Nat → Bool} {after : Machine}
    (stepped : m.step Natives.standard cancelled = (after, none)) :
    (m.enlarged r).step Natives.standard cancelled = (after.enlarged r, none) ∧
      after.memory.size = m.memory.size := by
  obtain ⟨w, op, immediate, ready⟩ := exists_ready stepped
  have size : (m.traced op immediate).memory.size = m.memory.size := by
    rw [traced_eq]
  have pc : (m.enlarged r).pc = m.pc := rfl
  have scales := (m.traced op immediate).execute_enlarged r
    cancelled op immediate (m.pc + op.width)
  rw [size] at scales
  rw [step_of_ready _ _ ready] at stepped
  rw [step_of_ready _ _ (ready.enlarged r), traced_enlarged, pc]
  cases outcome : execute Natives.standard cancelled
    (m.traced op immediate) op immediate
      (m.pc + op.width) with
  | fail failed fault =>
      rw [outcome] at stepped
      cases stepped
  | proceed reached next =>
      rw [outcome] at stepped scales
      obtain ⟨same, kept⟩ := scales
      cases stepped
      rw [same]
      exact ⟨rfl, kept⟩

theorem isHalted_enlarged {w : Word} (word : m.wordAt? m.pc = some w) :
    (m.enlarged r).isHalted = m.isHalted := by
  have word' : (m.enlarged r).wordAt? (m.enlarged r).pc = some w :=
    wordAt?_enlarged r word
  rw [isHalted, isHalted, word, word']

theorem GoesOn.enlarged {watch : Watch} {number : Nat} {after : Machine}
    (goes : m.GoesOn Natives.standard watch number after) :
    (m.enlarged r).GoesOn Natives.standard watch number (after.enlarged r) where
  running := by
    obtain ⟨w, op, immediate, ready⟩ := exists_ready goes.stepped
    exact (isHalted_enlarged r ready.word).trans goes.running
  unspent := goes.unspent
  unasked := goes.unasked
  stepped := (step_enlarged r goes.stepped).1

/-- A run that reaches the end of the program is the same with more room. -/
theorem runFrom_enlarged {watch : Watch} {fuel number : Nat} {final : Machine}
    (ended : m.runFrom Natives.standard watch fuel number = (final, .halted)) :
    (m.enlarged r).runFrom Natives.standard watch fuel number =
      (final.enlarged r, .halted) ∧ final.memory.size = m.memory.size := by
  induction fuel generalizing m number with
  | zero => cases ended
  | succ fuel ih =>
      rw [runFrom_succ] at ended ⊢
      rcases round_cases Natives.standard watch number m with
        ⟨after, goes⟩ | ⟨last, stop, stopped, -, ends⟩
      · rw [goes.round] at ended
        rw [(goes.enlarged r).round]
        obtain ⟨rest, size⟩ := ih ended
        exact ⟨rest, size.trans (step_enlarged r goes.stepped).2⟩
      · rw [stopped] at ended
        cases ended
        cases ends with
        | halted on =>
            have word : m.wordAt? m.pc = some Opcode.halt.code :=
              beq_iff_eq.mp on
            rw [round_of_halted ((isHalted_enlarged r word).trans on)]
            exact ⟨rfl, rfl⟩

/-! ## The whole run -/

/-- The second machine has at least as much room as the first, and otherwise the
same limits and output. -/
structure Roomier (m m' : Machine) : Prop where
  memory : m.memory.size ≤ m'.memory.size
  stack : m.limits.stack ≤ m'.limits.stack
  calls : m.limits.calls ≤ m'.limits.calls
  steps : m'.limits.steps = m.limits.steps
  output : m'.host.output = m.host.output

/-- A program that can be loaded can be loaded with more room. -/
theorem Roomier.load {m m' start : Machine} {program : Array Word}
    (roomier : m.Roomier m') (loaded : m.load program = .ok start) :
    ∃ start', m'.load program = .ok start' ∧
      (start.enlarged
        ⟨m'.memory.size - m.memory.size, m'.limits.stack - m.limits.stack,
          m'.limits.calls - m.limits.calls⟩).Alike start' := by
  have within := withinBounds_of_load loaded
  have fits : program.size ≤ m.memory.size :=
    Nat.le_trans within.heapFloor within.heapTop
  rw [Machine.load, if_pos fits] at loaded
  cases loaded
  refine ⟨_, by rw [Machine.load, if_pos (Nat.le_trans fits roomier.memory)],
    ?_⟩
  have free : m'.memory.size - program.size =
      m.memory.size - program.size + (m'.memory.size - m.memory.size) := by
    have more := roomier.memory
    omega
  constructor
  · simp only [logged, enlarged, free, Array.append_assoc,
      Array.replicate_append_replicate]
  · rfl
  · rfl
  · rfl
  · rfl
  · rfl
  · have stack : m.limits.stack + (m'.limits.stack - m.limits.stack) =
        m'.limits.stack :=
      Nat.add_sub_of_le roomier.stack
    have calls : m.limits.calls + (m'.limits.calls - m.limits.calls) =
        m'.limits.calls :=
      Nat.add_sub_of_le roomier.calls
    simp only [logged, enlarged, stack, calls, ← roomier.steps]
  · exact roomier.output

/-- More room does not change a run that reaches the end of the program. -/
theorem halted_run_with_more_room {m m' start done : Machine}
    {program : Array Word} {pc : Int} (roomier : m.Roomier m')
    (loaded : m.load program = .ok start)
    (halted : { start with pc := pc }.Returns Natives.standard Watch.never
      done .halted) :
    ∃ start' done' : Machine,
      m'.load program = .ok start' ∧
      { start' with pc := pc }.Returns Natives.standard Watch.never
        done' .halted ∧
      done'.host.output = done.host.output ∧
      done'.stack = done.stack ∧
      done'.calls = done.calls ∧
      done'.pc = done.pc ∧
      done'.heapTop = done.heapTop ∧
      done'.count = done.count ∧
      done.memory.size = m.memory.size ∧
      done'.memory = done.memory ++
        Array.replicate (m'.memory.size - m.memory.size) 0 := by
  obtain ⟨start', loaded', alike⟩ := roomier.load loaded
  obtain ⟨-, rounds, ended⟩ := halted
  have moved : ({ start with pc := pc }.enlarged _).Alike
    { start' with pc := pc } :=
    { alike with pc := rfl }
  obtain ⟨reached, size⟩ :=
    runFrom_enlarged _ (ended (rounds + 1) (Nat.lt_succ_self _))
  obtain ⟨final, stop⟩ := moved.runFrom (rounds + 1) 0 0
  rw [reached] at final stop
  have kept : start.memory.size = m.memory.size :=
    (withinBounds_of_load loaded).memory
  exact ⟨start', _, loaded', returns_of_run _ (Prod.ext rfl stop) nofun,
    final.output, final.stack, final.calls, final.pc, final.heapTop,
    final.count, size.trans kept, final.memory⟩

/-- Room for the program below and one more word, for two operands and for one
call. -/
def tightMachine : Machine where
  memory := Array.replicate 11 0
  limits := { stack := 2, calls := 1, steps := some 5 }

def spaciousMachine : Machine where
  memory := Array.replicate 16 0
  limits := { stack := 8, calls := 4, steps := some 5 }

/-- A function that takes a word of the heap and fills it, and from address 7 on
a call of it. -/
def allocateAndStore : Array Word :=
  #[Opcode.alloc.code, 1, Opcode.loads.code, 7, Opcode.store.code, 10,
    Opcode.ret.code, Opcode.call.code, 0, Opcode.halt.code]

theorem halted_run_with_more_room_tight :
    ∃ start done start' done' : Machine,
      tightMachine.load allocateAndStore = .ok start ∧
      { start with pc := 7 }.Returns Natives.standard Watch.never done .halted ∧
      spaciousMachine.load allocateAndStore = .ok start' ∧
      { start' with pc := 7 }.Returns Natives.standard Watch.never
        done' .halted ∧
      done'.stack.words = [10] ∧ done'.pc = 9 ∧ done'.heapTop = 11 ∧
        done'.count = 5 ∧
      done'.memory = allocateAndStore ++ #[7, 0, 0, 0, 0, 0] := by
  have roomier : tightMachine.Roomier spaciousMachine :=
    ⟨by decide, by decide, by decide, rfl, rfl⟩
  obtain ⟨start, done, loaded, halted, stack, pc, heapTop, count, memory⟩ :
      ∃ start done : Machine,
        tightMachine.load allocateAndStore = .ok start ∧
        { start with pc := 7 }.Returns Natives.standard Watch.never
          done .halted ∧
        done.stack.words = [10] ∧ done.pc = 9 ∧ done.heapTop = 11 ∧
          done.count = 5 ∧
        done.memory = allocateAndStore ++ #[7] :=
    ⟨_, _, rfl, returns_of_run 6 rfl (by decide), rfl, rfl, rfl, rfl, rfl⟩
  obtain ⟨start', done', loaded', halted', -, stack', -, pc', heapTop', count',
      -, memory'⟩ :=
    halted_run_with_more_room roomier loaded halted
  refine ⟨start, done, start', done', loaded, halted, loaded', halted',
    ?_, pc'.trans pc, heapTop'.trans heapTop, count'.trans count, ?_⟩
  · rw [stack', stack]
  · rw [memory', memory]
    rfl

end Machine

end WordMachine
