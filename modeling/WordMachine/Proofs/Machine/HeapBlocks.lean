import Mathlib.Algebra.Group.Nat.Defs
import Mathlib.Algebra.Ring.Int.Defs
import WordMachine.Proofs.Machine.History
import WordMachine.Proofs.Machine.Reachable

/-!
# Blocks of the heap

An allocation pushes the address of the first word that was not handed out yet.
So the blocks handed out in the course of a history lie side by side, the first
one right behind the program, and none of them reaches beyond memory.  Nothing
else moves the heap, and an allocation that fails does not either.
-/

namespace WordMachine

/-- A block of the heap, as the program sees it: the address that was pushed and
the number of words that was asked for. -/
structure Block where
  base : Int
  size : Int
  deriving DecidableEq, Repr

namespace Block

def Covers (b : Block) (address : Int) : Prop :=
  b.base ≤ address ∧ address < b.base + b.size

/-- No address belongs to both blocks. -/
def Apart (a b : Block) : Prop :=
  ∀ address, ¬ (a.Covers address ∧ b.Covers address)

/-- The blocks lie side by side, in this order, from `low` to `top`. -/
inductive SideBySide (low : Int) : List Block → Int → Prop where
  | nil : SideBySide low [] low
  | more {blocks : List Block} {top : Int} (size : Int)
      (before : SideBySide low blocks top) (nonneg : 0 ≤ size) :
      SideBySide low (blocks ++ [⟨top, size⟩]) (top + size)

variable {low top : Int} {blocks : List Block}

theorem SideBySide.top_eq (row : SideBySide low blocks top) :
    top = low + (blocks.map Block.size).sum := by
  induction row with
  | nil => simp
  | more size before nonneg ih =>
      rw [List.map_append, List.sum_append, ← Int.add_assoc, ← ih]
      simp

theorem SideBySide.le_top (row : SideBySide low blocks top) : low ≤ top := by
  induction row with
  | nil => exact Int.le_refl low
  | more size before nonneg ih => omega

/-- The blocks stay between the two ends. -/
theorem SideBySide.inside (row : SideBySide low blocks top) :
    ∀ b ∈ blocks, 0 ≤ b.size ∧ low ≤ b.base ∧ b.base + b.size ≤ top := by
  induction row with
  | nil => nofun
  | more size before nonneg ih =>
      intro b member
      rcases List.mem_append.mp member with earlier | last
      · obtain ⟨own, above, below⟩ := ih b earlier
        exact ⟨own, above, by omega⟩
      · cases List.mem_singleton.mp last
        exact ⟨nonneg, before.le_top, Int.le_refl _⟩

/-- A block begins behind the sizes of those before it. -/
theorem SideBySide.base_eq (row : SideBySide low blocks top)
    {k : Nat} {b : Block} (found : blocks[k]? = some b) :
    b.base = low + ((blocks.take k).map Block.size).sum := by
  induction row with
  | nil => simp at found
  | @more blocks top size before nonneg ih =>
      rcases Nat.lt_trichotomy k blocks.length with earlier | last | beyond
      · rw [List.getElem?_append_left earlier] at found
        rw [List.take_append_of_le_length (Nat.le_of_lt earlier)]
        exact ih found
      · subst last
        rw [List.getElem?_concat_length] at found
        cases found
        rw [List.take_left]
        exact before.top_eq
      · rw [List.getElem?_eq_none (by simp; omega)] at found
        cases found

theorem SideBySide.apart (row : SideBySide low blocks top) :
    blocks.Pairwise Apart := by
  induction row with
  | nil => exact .nil
  | more size before nonneg ih =>
      rw [List.pairwise_append]
      refine ⟨ih, List.pairwise_singleton _ _, ?_⟩
      intro earlier member last isLast address covers
      cases List.mem_singleton.mp isLast
      have below := (before.inside earlier member).2.2
      obtain ⟨⟨-, behind⟩, above, -⟩ := covers
      dsimp only at above
      omega

end Block

open Block (SideBySide)

def Transition.block? (t : Transition) : Option Block :=
  if t.instruction.op = .alloc then
    some ⟨(t.after.stack.words.head?.getD 0).toInt,
      t.instruction.immediate.toInt⟩
  else none

/-- The blocks that were handed out in the course of a history, oldest first. -/
def heapBlocks (trace : List Transition) : List Block :=
  trace.filterMap Transition.block?

namespace Machine

variable {natives : Natives} {cancelled : Nat → Bool} {m start : Machine}
  {trace : List Transition}

/-! ## Allocations -/

/-- There is no block of this size. -/
def Exhausts (m : Machine) (size : Word) : Prop :=
  size.toInt < 0 ∨ (m.memory.size : Int) - m.heapTop < size.toInt

instance (m : Machine) (size : Word) : Decidable (m.Exhausts size) :=
  inferInstanceAs (Decidable (_ ∨ _))

theorem allocating_eq (m : Machine) (next : Int) (size : Word) :
    m.allocating next size =
      if m.Exhausts size then .fail m (.root .heapExhausted)
      else if m.stack.depth < m.limits.stack then
        .proceed { m with
          stack := m.stack.push (Int64.ofNat m.heapTop)
          heapTop := m.heapTop + size.toInt.toNat } next
      else .fail m (.root .stackOverflow) := by
  have refused : (size < 0 ∨ (m.memory.size : Int) - m.heapTop < size.toInt) ↔
      m.Exhausts size := by
    rw [Int64.lt_iff_toInt_lt]
    rfl
  unfold allocating push
  by_cases exhausts : m.Exhausts size
  · rw [if_pos (refused.mpr exhausts), if_pos exhausts]
  · rw [if_neg (mt refused.mp exhausts), if_neg exhausts]
    by_cases room : m.stack.depth < m.limits.stack
    · simp only [if_pos room]
    · simp only [if_neg room]

/-- An allocation fails without effect if there is no such block or no room on
the stack for its address. -/
theorem step_alloc {w size : Word} (ready : m.Ready w .alloc size)
    (cancelled : Nat → Bool) :
    m.step natives cancelled =
      if m.Exhausts size then
        (m.traced .alloc size, some ⟨m.pc, w, .root .heapExhausted⟩)
      else if m.stack.depth < m.limits.stack then
        ({ m.traced .alloc size with
            stack := m.stack.push (Int64.ofNat m.heapTop)
            heapTop := m.heapTop + size.toInt.toNat
            pc := m.pc + 2
            count := m.count + 1 }, none)
      else (m.traced .alloc size, some ⟨m.pc, w, .root .stackOverflow⟩) := by
  have exhausts : (m.traced .alloc size).Exhausts size ↔ m.Exhausts size := by
    rw [traced_eq]
    exact Iff.rfl
  have room : (m.traced .alloc size).stack.depth <
      (m.traced .alloc size).limits.stack ↔
      m.stack.depth < m.limits.stack := by
    rw [traced_eq]
  rw [step_of_ready _ _ ready, execute, allocating_eq]
  by_cases exhausted : m.Exhausts size
  · rw [if_pos (exhausts.mpr exhausted), if_pos exhausted]
    rfl
  · rw [if_neg (mt exhausts.mp exhausted), if_neg exhausted]
    by_cases free : m.stack.depth < m.limits.stack
    · rw [if_pos (room.mpr free), if_pos free, traced_eq]
      rfl
    · rw [if_neg (mt room.mp free), if_neg free]
      rfl

theorem Ready.allocated {w size : Word} {after : Machine}
    (ready : m.Ready w .alloc size)
    (stepped : m.step natives cancelled = (after, none)) :
    ¬ m.Exhausts size ∧ after.stack = m.stack.push (Int64.ofNat m.heapTop) ∧
      after.heapTop = m.heapTop + size.toInt.toNat := by
  rw [step_alloc ready] at stepped
  split at stepped
  next => cases stepped
  next available =>
    split at stepped
    next =>
      cases stepped
      exact ⟨available, rfl, rfl⟩
    next => cases stepped

/-- How a step moves the heap, if native functions leave it alone. -/
inductive HeapStep (natives : Natives) (cancelled : Nat → Bool)
    (m : Machine) : Prop where
  | alloc {t : Transition} {size : Int}
      (taken : m.transition? natives cancelled = some t)
      (block : t.block? = some ⟨(Int64.ofNat m.heapTop).toInt, size⟩)
      (nonneg : 0 ≤ size) (fits : m.heapTop + size ≤ m.memory.size)
      (heapTop : ((m.step natives cancelled).1.heapTop : Int) =
        m.heapTop + size)
  | other (block : ∀ t, m.transition? natives cancelled = some t →
      t.block? = none)
      (heapTop : (m.step natives cancelled).1.heapTop = m.heapTop)

theorem heapStep (cancelled : Nat → Bool)
    (native : m.CallsNative natives →
      m.Undisturbed (m.step natives cancelled).1) :
    HeapStep natives cancelled m := by
  cases stepShape natives cancelled m with
  | native calls reserved transition =>
      refine .other ?_ (native calls).heapTop
      intro t taken
      rw [Transition.block?, transition t taken]
      rfl
  | failed stepped transition untouched =>
      refine .other ?_ (by rw [stepped]; exact untouched.heapTop)
      intro t taken
      rw [transition] at taken
      cases taken
  | @carriedOut w size op after ready ordinary stepped transition effect =>
      by_cases isAlloc : op = .alloc
      · subst isAlloc
        obtain ⟨available, stack, heapTop⟩ := ready.allocated stepped
        have block : Transition.block? ⟨m, ⟨w, .alloc, size⟩, after⟩ =
            some ⟨(Int64.ofNat m.heapTop).toInt, size.toInt⟩ := by
          rw [Transition.block?, if_pos rfl, stack]
          rfl
        unfold Exhausts at available
        refine .alloc transition block (by omega) (by omega) ?_
        rw [stepped, heapTop]
        omega
      · refine .other ?_ (by rw [stepped]; exact effect.heapTop isAlloc)
        intro t taken
        cases transition.symm.trans taken
        exact if_neg isAlloc

/-! ## Histories -/

theorem heapBlocks_append (trace more : List Transition) :
    heapBlocks (trace ++ more) = heapBlocks trace ++ heapBlocks more :=
  List.filterMap_append

/-- The blocks handed out so far fill the heap. -/
theorem History.sideBySide (fits : start.memory.size < 2 ^ 63)
    (inside : start.heapTop ≤ start.memory.size)
    (history : History natives start trace m) :
    SideBySide start.heapTop (heapBlocks trace) m.heapTop ∧
      m.heapTop ≤ m.memory.size := by
  induction history with
  | start => exact ⟨.nil, inside⟩
  | outside before undisturbed ih =>
      rw [undisturbed.heapTop, undisturbed.memory]
      exact ih
  | @step trace m cancelled before native ih =>
      obtain ⟨row, below⟩ := ih
      have size := before.memory_size
      have next := (before.step cancelled native).memory_size
      rw [heapBlocks_append]
      cases heapStep cancelled native with
      | alloc taken block nonneg enough heapTop =>
          rw [Int64.toInt_ofNat_of_lt (by omega)] at block
          rw [taken, heapTop]
          have one : heapBlocks (some _).toList = [_] :=
            List.filterMap_cons_some block
          rw [one]
          exact ⟨row.more _ nonneg, by omega⟩
      | other block heapTop =>
          have blockless : heapBlocks (m.transition? natives cancelled).toList =
              [] := by
            refine List.filterMap_eq_nil_iff.mpr fun t member => ?_
            exact block t (Option.mem_toList.mp member)
          rw [blockless, List.append_nil, heapTop]
          exact ⟨row, by omega⟩

theorem heapTop_of_load {program : Array Word}
    (loaded : m.load program = .ok start) :
    start.heapTop = program.size := by
  unfold load at loaded
  split at loaded
  · cases loaded
    rfl
  · cases loaded

theorem ready_alloc {size : Word}
    (atAlloc : m.wordAt? m.pc = some Opcode.alloc.code)
    (immediate : m.wordAt? (m.pc + 1) = some size) :
    m.Ready Opcode.alloc.code .alloc size :=
  ⟨atAlloc, rfl, immediate, Nat.zero_le _⟩

/-- The blocks of the heap keep clear of the program and of each other.  Each
allocation in the history of a machine that has loaded a program pushed the end
of the program plus the sizes of the allocations before it, all blocks are in
memory behind the program, and the heap ends where the last block does.  An
allocation fails exactly if its size is negative or more than is left, or else
if the operand stack is full, and then nothing has changed but the log of a
machine that keeps one.  Memory is bounded because addresses have to be
words. -/
theorem heap_blocks_apart {natives : Natives} {m start s : Machine}
    {program : Array Word} {trace : List Transition}
    (fits : m.memory.size < 2 ^ 63) (loaded : m.load program = .ok start)
    (history : History natives start trace s) :
    (∀ k b, (heapBlocks trace)[k]? = some b →
        b.base = program.size +
          (((heapBlocks trace).take k).map Block.size).sum) ∧
      (heapBlocks trace).Pairwise Block.Apart ∧
      (∀ b ∈ heapBlocks trace,
        0 ≤ b.size ∧ program.size ≤ b.base ∧ b.base + b.size ≤ m.memory.size) ∧
      s.heapTop = program.size + ((heapBlocks trace).map Block.size).sum ∧
      ∀ cancelled size, s.wordAt? s.pc = some Opcode.alloc.code →
        s.wordAt? (s.pc + 1) = some size →
        (s.step natives cancelled =
            (s.traced .alloc size,
              some ⟨s.pc, Opcode.alloc.code, .root .heapExhausted⟩) ↔
          size.toInt < 0 ∨ (m.memory.size : Int) - s.heapTop < size.toInt) ∧
        (s.step natives cancelled =
            (s.traced .alloc size,
              some ⟨s.pc, Opcode.alloc.code, .root .stackOverflow⟩) ↔
          ¬ (size.toInt < 0 ∨ (m.memory.size : Int) - s.heapTop < size.toInt) ∧
            s.limits.stack ≤ s.stack.depth) ∧
        ((s.step natives cancelled).2 = none ↔
          ¬ (size.toInt < 0 ∨ (m.memory.size : Int) - s.heapTop < size.toInt) ∧
            s.stack.depth < s.limits.stack) := by
  have within := withinBounds_of_load loaded
  have bottom := heapTop_of_load loaded
  obtain ⟨row, below⟩ := history.sideBySide (by rw [within.memory]; exact fits)
    (by rw [within.memory]; exact within.heapTop)
  have size := history.memory_size
  rw [within.memory] at size
  rw [bottom] at row
  refine ⟨fun k b found => row.base_eq found, row.apart, ?_, row.top_eq, ?_⟩
  · intro b member
    obtain ⟨nonneg, above, inside⟩ := row.inside b member
    exact ⟨nonneg, above, by omega⟩
  · intro cancelled wanted atAlloc immediate
    rw [step_alloc (ready_alloc atAlloc immediate), ← size]
    change (_ ↔ s.Exhausts wanted) ∧ (_ ↔ ¬ s.Exhausts wanted ∧ _) ∧
      (_ ↔ ¬ s.Exhausts wanted ∧ _)
    by_cases exhausted : s.Exhausts wanted
    · simp [exhausted]
    · by_cases room : s.stack.depth < s.limits.stack
      · simp [exhausted, room]
      · simp [exhausted, room, Nat.not_lt.mp room]

/-- A program of six words that allocates two words, then none, then one
more. -/
def allocatingThrice : Array Word :=
  #[Opcode.alloc.code, 2, Opcode.alloc.code, 0, Opcode.alloc.code, 1]

/-- On eight words of memory the first two allocations succeed.  They leave no
room for the third, and as the stack is full as well, that is what it fails
with. -/
theorem heap_blocks_apart_exhausted :
    ∃ start s trace, smallMachine.load allocatingThrice = .ok start ∧
      History Natives.standard start trace s ∧
      heapBlocks trace = [⟨6, 2⟩, ⟨8, 0⟩] ∧
      (heapBlocks trace).Pairwise Block.Apart ∧
      (s.heapTop : Int) = 6 + (2 + 0) ∧
      s.step Natives.standard (fun _ => false) =
        (s.traced .alloc 1,
          some ⟨4, Opcode.alloc.code, .root .heapExhausted⟩) := by
  obtain ⟨start, s, trace, loaded, history, blocks, atAlloc, immediate, pc⟩ :
      ∃ start s trace, smallMachine.load allocatingThrice = .ok start ∧
        History Natives.standard start trace s ∧
        heapBlocks trace = [⟨6, 2⟩, ⟨8, 0⟩] ∧
        s.wordAt? s.pc = some Opcode.alloc.code ∧
        s.wordAt? (s.pc + 1) = some 1 ∧ s.pc = 4 :=
    ⟨_, _, _, rfl,
      (History.start.step (fun _ => false) (undisturbed_of_standard _)).step
        (fun _ => false) (undisturbed_of_standard _),
      rfl, rfl, rfl, rfl⟩
  obtain ⟨-, apart, -, heapTop, fails⟩ :=
    heap_blocks_apart (by decide) loaded history
  obtain ⟨exhausted, -⟩ := fails (fun _ => false) 1 atAlloc immediate
  rw [blocks] at heapTop
  rw [pc] at exhausted
  refine ⟨start, s, trace, loaded, history, blocks, apart, heapTop,
    exhausted.mpr (.inr ?_)⟩
  rw [heapTop]
  decide

end Machine

end WordMachine
