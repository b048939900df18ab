import WordMachine.Proofs.Machine.Formatting
import WordMachine.Proofs.Machine.Unseen

/-!
# Steps under a limit on the output

A program does not see where its output goes.  With room for some number of
bytes a step does what it does without a limit, unless it prints more than there
is room for: then it fails, and leaves in the sink the first bytes of what it
would have left.
-/

namespace WordMachine

def Outcome.machine : Outcome → Machine
  | .proceed m _ => m
  | .fail m _ => m

namespace Machine

def output (m : Machine) : Text :=
  m.host.output.text

/-- What a machine without a limit would be if there were room for `limit` bytes
of output in all. -/
def limited (m : Machine) (limit : Nat) : Machine :=
  m.withOutput (m.host.output.limited limit)

theorem output_withOutput (m : Machine) (sink : Sink) :
    (m.withOutput sink).output = sink.text :=
  rfl

end Machine

/-- The outcome of an instruction on `m`, which has no limit, beside its outcome
under a limit: they agree, but if the instruction prints more than there is room
for it fails under the limit, and fails where it stands. -/
structure Outcome.Bounded (free : Outcome) (limit : Nat) (m : Machine)
    (held : Outcome) :
    Prop where
  writes : ∃ text, free.machine.host.output = (m.host.output.write text).target
  within : free.machine.output.length ≤ limit →
    held = free.map (·.limited limit)
  beyond : limit < free.machine.output.length →
    free.machine.pc = m.pc ∧ free.machine.count = m.count ∧
      ∃ fault, held = .fail (free.machine.limited limit) fault

/-! ## Printing does not look at the sink -/

namespace Printf

theorem exists_directive (memory : Array Word) (d : Word) (stack : Stack) :
    ∃ after text fault, ∀ writer,
      directive memory d ⟨stack, writer⟩ =
        (⟨after, writer.append text⟩, fault) := by
  by_cases takes : takesOperand d = true
  · cases words : stack.words with
    | nil =>
        refine ⟨stack, [], some (.root .stackUnderflow), ?_⟩
        intro writer
        simp [directive, takes, words]
    | cons operand rest =>
        cases written : operandText memory d operand with
        | ok text =>
            refine ⟨stack.drop1, text, none, ?_⟩
            intro writer
            simp [directive, takes, words, written]
        | error fault =>
            refine ⟨stack.drop1, [], some fault, ?_⟩
            intro writer
            simp [directive, takes, words, written]
  · by_cases percent : d = 37
    · refine ⟨stack, [37], none, ?_⟩
      intro writer
      rw [directive, if_neg takes, if_pos percent]
    · refine ⟨stack, [], none, ?_⟩
      intro writer
      rw [directive, if_neg takes, if_neg percent, StickyWriter.append_nil]

theorem exists_formatFrom (memory : Array Word) (p : Nat) (state : Progress) :
    ∃ after text ending, ∀ writer,
      formatFrom memory p ⟨state.stack, writer⟩ =
        (⟨after, writer.append text⟩, ending) := by
  fun_induction formatFrom memory p state with
  | case1 p state inside w zero =>
      refine ⟨state.stack, [], .complete, ?_⟩
      intro writer
      rw [formatFrom, dif_pos inside, if_pos zero, StickyWriter.append_nil]
  | case2 p state inside w nonzero plain ih =>
      obtain ⟨after, text, ending, rest⟩ := ih
      refine ⟨after, Text.encodeChar w.toChar ++ text, ending, ?_⟩
      intro writer
      rw [formatFrom, dif_pos inside, if_neg nonzero, if_pos plain,
        ← StickyWriter.append_append]
      exact rest _
  | case3 p state inside w nonzero percent behind d cut =>
      refine ⟨state.stack, [], .cut, ?_⟩
      intro writer
      rw [formatFrom, dif_pos inside, if_neg nonzero, if_neg percent,
        dif_pos behind, if_pos cut, StickyWriter.append_nil]
  | case4 p state inside w nonzero percent behind d nonzero' after
      fault carried =>
      obtain ⟨stack, text, fault', carries⟩ :=
        exists_directive memory d state.stack
      cases carried.symm.trans (carries state.writer)
      refine ⟨stack, text, .failed fault, ?_⟩
      intro writer
      rw [formatFrom, dif_pos inside, if_neg nonzero, if_neg percent,
        dif_pos behind, if_neg nonzero', carries]
  | case5 p state inside w nonzero percent behind d nonzero' after carried ih =>
      obtain ⟨stack, text, fault', carries⟩ :=
        exists_directive memory d state.stack
      cases carried.symm.trans (carries state.writer)
      obtain ⟨after, text', ending, rest⟩ := ih
      refine ⟨after, text ++ text', ending, ?_⟩
      intro writer
      rw [formatFrom, dif_pos inside, if_neg nonzero, if_neg percent,
        dif_pos behind, if_neg nonzero', carries, ← StickyWriter.append_append]
      exact rest _
  | case6 p state inside w nonzero percent behind =>
      refine ⟨state.stack, [], .failed (.outOfBounds (Int64.ofNat (p + 1))), ?_⟩
      intro writer
      rw [formatFrom, dif_pos inside, if_neg nonzero, if_neg percent,
        dif_neg behind, StickyWriter.append_nil]
  | case7 p state outside =>
      refine ⟨state.stack, [], .failed (.outOfBounds (Int64.ofNat p)), ?_⟩
      intro writer
      rw [formatFrom, dif_neg outside, StickyWriter.append_nil]

/-- The text of a format and the way in which it ends do not depend on the
writer. -/
theorem exists_format (memory : Array Word) (address : Word) (stack : Stack) :
    ∃ after text ending, ∀ writer,
      format memory address ⟨stack, writer⟩ =
        (⟨after, writer.append text⟩, ending) := by
  cases found : address.index? memory.size with
  | none =>
      refine ⟨stack, [], .failed (.outOfBounds address), ?_⟩
      intro writer
      rw [format, found, StickyWriter.append_nil]
  | some p =>
      obtain ⟨after, text, ending, formats⟩ :=
        exists_formatFrom memory p ⟨stack, ⟨{}, none⟩⟩
      refine ⟨after, text, ending, ?_⟩
      intro writer
      rw [format, found]
      exact formats writer

/-- The outcome of printing that left the given writer. -/
def finish (m : Machine) (next : Int) (ending : Ending)
    (writer : StickyWriter) : Outcome :=
  match ending.fault? writer with
  | none => .proceed (m.withOutput writer.sink) next
  | some fault => .fail (m.withOutput writer.sink) fault

/-- What is printed, and what is left on the stack, does not depend on the
sink. -/
theorem exists_body (m : Machine) (next : Int) :
    ∃ stack text ending, ∀ sink,
      body (m.withOutput sink) next =
        finish { m with stack := stack } next ending
          (StickyWriter.append ⟨sink, none⟩ text) := by
  cases words : m.stack.words with
  | nil =>
      refine ⟨m.stack, [], .failed (.root .stackUnderflow), ?_⟩
      intro sink
      have empty : (m.withOutput sink).stack.words = [] := words
      rw [body_of_empty empty, StickyWriter.append_nil]
      rfl
  | cons address operands =>
      obtain ⟨after, text, ending, formats⟩ :=
        exists_format m.memory address m.stack.drop1
      refine ⟨after, text, ending, ?_⟩
      intro sink
      have formatted : format (m.withOutput sink).memory address
          (opening (m.withOutput sink)) =
          (⟨after, StickyWriter.append ⟨sink, none⟩ text⟩, ending) :=
        formats ⟨sink, none⟩
      have words' : (m.withOutput sink).stack.words = address :: operands :=
        words
      rw [body_of_address words', formatted]
      rfl

theorem machine_finish (m : Machine) (next : Int) (ending : Ending)
    (writer : StickyWriter) :
    (finish m next ending writer).machine = m.withOutput writer.sink := by
  rw [finish]
  split <;> rfl

/-- A writer that failed makes printing fail, however the format ended. -/
theorem exists_finish_of_fault (m : Machine) (next : Int) (ending : Ending)
    (writer : StickyWriter) {fault : Fault}
    (failed : writer.fault = some fault) :
    ∃ fault, finish m next ending writer =
      .fail (m.withOutput writer.sink) fault := by
  cases ending with
  | complete =>
      refine ⟨.within (Text.ofString "printf") fault, ?_⟩
      simp only [finish, Ending.fault?, failed, Option.map_some]
  | cut =>
      refine ⟨fault, ?_⟩
      simp only [finish, Ending.fault?, failed]
  | failed reason => exact ⟨reason, rfl⟩

theorem finish_limited (m : Machine) (next : Int) (ending : Ending)
    (sink : Sink) (limit : Nat) :
    finish m next ending ⟨sink.limited limit, none⟩ =
      (finish m next ending ⟨sink, none⟩).map (·.limited limit) := by
  cases ending <;> rfl

end Printf

/-! ## Instructions -/

namespace Machine

variable {m : Machine} {limit : Nat}

theorem unseen_withOutput (sink : Sink) : Unseen (·.withOutput sink) where
  commutes _ _ _ _ _ := rfl
  pc _ := rfl
  stackLimit _ := rfl
  callLimit _ := rfl

theorem unseen_limited (limit : Nat) : Unseen (·.limited limit) where
  commutes _ _ _ _ _ := rfl
  pc _ := rfl
  stackLimit _ := rfl
  callLimit _ := rfl

theorem printf_bounded (unlimited : m.host.output.room = none)
    (within : m.output.length ≤ limit) (next : Int) :
    (Printf.body m next).Bounded limit m
      (Printf.body (m.limited limit) next) := by
  obtain ⟨stack, text, ending, prints⟩ := Printf.exists_body m next
  have free : Printf.body m next =
      Printf.finish { m with stack := stack } next ending
        ⟨(m.host.output.write text).target, none⟩ := by
    rw [← StickyWriter.append_of_unlimited unlimited]
    exact prints m.host.output
  have held := prints (m.host.output.limited limit)
  rw [StickyWriter.append_limited unlimited within] at held
  have left : (Printf.body m next).machine =
      { m with stack := stack }.withOutput
        (m.host.output.write text).target := by
    rw [free, Printf.machine_finish]
  refine ⟨⟨text, by rw [left]; rfl⟩, ?_, ?_⟩
  · intro fits
    rw [left, output_withOutput] at fits
    rw [if_pos fits] at held
    rw [free, ← Printf.finish_limited]
    exact held
  · intro crossed
    rw [left, output_withOutput] at crossed
    rw [if_neg (Nat.not_le.mpr crossed)] at held
    obtain ⟨fault, failed⟩ :=
      Printf.exists_finish_of_fault { m with stack := stack } next ending
      ⟨(m.host.output.write text).target.limited limit,
        some StickyWriter.full⟩ rfl
    rw [left]
    exact ⟨rfl, rfl, fault, held.trans failed⟩

/-- An instruction that calls no native function prints nothing. -/
theorem output_of_ordinary {natives : Natives} {op : Opcode} {immediate : Word}
    (ordinary : op = .call → ∀ native, NativeAddress.base ≤ immediate →
      natives.get? immediate ≠ some native)
    (cancelled : Nat → Bool) (next : Int) :
    (execute natives cancelled m op immediate next).machine.host.output =
      m.host.output := by
  have same : execute natives cancelled m op immediate next =
      (execute natives cancelled m op immediate next).map
        (·.withOutput m.host.output) := by
    apply (unseen_withOutput m.host.output).execute m
    · intros
      rfl
    · intro isCall native reserved bound
      exact absurd bound (ordinary isCall native reserved)
  rw [same]
  cases execute natives cancelled m op immediate next <;> rfl

/-- An instruction that calls no native function does the same under a limit. -/
theorem execute_limited {natives : Natives} {op : Opcode} {immediate : Word}
    (ordinary : op = .call → ∀ native, NativeAddress.base ≤ immediate →
      natives.get? immediate ≠ some native)
    (cancelled : Nat → Bool) (next : Int) :
    execute natives cancelled (m.limited limit) op immediate next =
      (execute natives cancelled m op immediate next).map
        (·.limited limit) := by
  apply (unseen_limited limit).execute m
  · intros
    rfl
  · intro isCall native reserved bound
    exact absurd bound (ordinary isCall native reserved)

theorem target_of_standard {target : Word} {native : Native}
    (bound : Natives.standard.get? target = some native) :
    target = NativeAddress.printf := by
  simp only [Natives.standard, Natives.get?, List.lookup_cons,
    List.lookup_nil] at bound
  split at bound
  next same => exact beq_iff_eq.mp same
  next => cases bound

theorem execute_bounded (unlimited : m.host.output.room = none)
    (within : m.output.length ≤ limit) (cancelled : Nat → Bool) (op : Opcode)
    (immediate : Word) (next : Int) :
    (execute Natives.standard cancelled m op immediate next).Bounded limit m
        (execute Natives.standard cancelled (m.limited limit) op
          immediate next) ∧
      (limit < (execute Natives.standard cancelled m op immediate
        next).machine.output.length →
        op = .call ∧ immediate = NativeAddress.printf) := by
  by_cases prints : op = .call ∧ immediate = NativeAddress.printf
  · obtain ⟨rfl, rfl⟩ := prints
    exact ⟨printf_bounded unlimited within next, fun _ => ⟨rfl, rfl⟩⟩
  · have ordinary : op = .call → ∀ native, NativeAddress.base ≤ immediate →
        Natives.standard.get? immediate ≠ some native := by
      intro isCall native _ bound
      exact prints ⟨isCall, target_of_standard bound⟩
    have silent := output_of_ordinary (m := m) ordinary cancelled next
    have fits : (execute Natives.standard cancelled m op immediate
        next).machine.output.length ≤ limit := by
      rw [output, silent]
      exact within
    refine ⟨⟨⟨[], ?_⟩, ?_, ?_⟩, ?_⟩
    · rw [silent, Sink.write_nil]
    · intro _
      exact execute_limited ordinary cancelled next
    · intro crossed
      exact absurd fits (Nat.not_le.mpr crossed)
    · intro crossed
      exact absurd fits (Nat.not_le.mpr crossed)

/-! ## Steps -/

theorem traced_limited (op : Opcode) (immediate : Word) :
    (m.limited limit).traced op immediate =
      (m.traced op immediate).limited limit := by
  cases tracing : m.host.tracing with
  | false => simp [traced, limited, withOutput, tracing]
  | true => simp [traced, limited, withOutput, tracing, logged, traceLine]

theorem output_traced (op : Opcode) (immediate : Word) :
    (m.traced op immediate).host.output = m.host.output := by
  unfold traced
  split <;> rfl

theorem ready_of_instruction {i : Instruction}
    (decoded : m.instruction = .ok i) :
    m.Ready i.word i.op i.immediate := by
  unfold instruction at decoded
  split at decoded
  · cases decoded
  next w word =>
    split at decoded
    · cases decoded
    next op opcode =>
      split at decoded
      · cases decoded
      next value immediate =>
        split at decoded
        · cases decoded
        next enough =>
          cases decoded
          exact ⟨word, opcode, immediate, Nat.le_of_not_lt enough⟩

/-- Where a call that crosses the limit leaves a machine: all is done that the
call does, but the machine has not moved on. -/
def stuck (m after : Machine) : Machine :=
  { after with pc := m.pc, count := m.count }

/-- A step beside the step under a limit. -/
structure BoundedStep (m : Machine) (cancelled : Nat → Bool) (limit : Nat)
    (after : Machine) (fault : Option RuntimeFault) : Prop where
  writes : ∃ text, after.host.output = (m.host.output.write text).target
  within : after.output.length ≤ limit →
    (m.limited limit).step Natives.standard cancelled =
      (after.limited limit, fault)
  beyond : limit < after.output.length →
    ∃ word reason, m.Ready word .call NativeAddress.printf ∧
      (m.limited limit).step Natives.standard cancelled =
        ((m.stuck after).limited limit, some ⟨m.pc, word, reason⟩)

theorem stuck_settled {outcome : Outcome} (pc : outcome.machine.pc = m.pc)
    (count : outcome.machine.count = m.count) (w : Word) :
    m.stuck (settled m.pc w outcome).1 = outcome.machine := by
  cases outcome with
  | proceed after next =>
      rw [stuck, ← pc, ← count]
      rfl
  | fail after fault =>
      rw [stuck, ← pc, ← count]
      rfl

theorem Ready.bounded {w immediate : Word} {op : Opcode}
    (ready : m.Ready w op immediate) (unlimited : m.host.output.room = none)
    (within : m.output.length ≤ limit) (cancelled : Nat → Bool) :
    m.BoundedStep cancelled limit (m.step Natives.standard cancelled).1
      (m.step Natives.standard cancelled).2 := by
  have silent := m.output_traced op immediate
  have within' : (m.traced op immediate).output.length ≤ limit := by
    rw [output, silent]
    exact within
  obtain ⟨bounded, prints⟩ :=
    execute_bounded ((congrArg Sink.room silent).trans unlimited)
    within' cancelled op immediate (m.pc + op.width)
  have ready' : (m.limited limit).Ready w op immediate :=
    ⟨ready.word, ready.opcode, ready.immediate, ready.operands⟩
  have stepped := step_of_ready Natives.standard cancelled ready'
  have same : (m.limited limit).pc = m.pc := rfl
  rw [traced_limited, same] at stepped
  rw [step_of_ready Natives.standard cancelled ready]
  generalize execute Natives.standard cancelled
    (m.traced op immediate) op immediate
    (m.pc + op.width) = outcome at bounded prints
  have left : (settled m.pc w outcome).1.host.output =
      outcome.machine.host.output := by
    cases outcome <;> rfl
  constructor
  · rw [left, ← silent]
    exact bounded.writes
  · intro fits
    rw [output, left] at fits
    rw [stepped, bounded.within fits]
    cases outcome <;> rfl
  · intro crossed
    rw [output, left] at crossed
    obtain ⟨rfl, rfl⟩ := prints crossed
    obtain ⟨pc, count, reason, failed⟩ := bounded.beyond crossed
    rw [traced_eq] at pc count
    have unmoved : m.stuck (settled m.pc w outcome).1 = outcome.machine :=
      stuck_settled pc count w
    refine ⟨w, reason, ready, ?_⟩
    rw [stepped, failed, unmoved]
    rfl

theorem step_bounded (unlimited : m.host.output.room = none)
    (within : m.output.length ≤ limit) (cancelled : Nat → Bool) :
    m.BoundedStep cancelled limit (m.step Natives.standard cancelled).1
      (m.step Natives.standard cancelled).2 := by
  cases decoded : m.instruction with
  | ok i =>
      exact (ready_of_instruction decoded).bounded unlimited within cancelled
  | error fault =>
      rw [step_eq, decoded]
      constructor
      · exact ⟨[], (Sink.write_nil _).symm⟩
      · intro _
        rw [step_eq, (unseen_limited limit).instruction m, decoded]
      · intro crossed
        exact absurd within (Nat.not_le.mpr crossed)

end Machine

end WordMachine
