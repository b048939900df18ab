import WordMachine.Proofs.Machine.Ledger

/-!
# Interrupted instructions

Spending the step limit and a request to stop interrupt a program.  Inside an
instruction this happens to `powf` only, which has not done anything by then, so
an interrupted step leaves no trace but a line in the log.
-/

namespace WordMachine

/-- Whether a failure is due to the limits and wishes of the host. -/
def Fault.interrupts (fault : Fault) : Bool :=
  match fault.cause with
  | .stepLimit | .cancelled => true
  | _ => false

/-! ## Powers -/

namespace Arithmetic

variable {stop stop' : Nat → Option Fault} {base : Float} {negative : Bool}

theorem powfFrom_of_weaker
    (weaker : ∀ work, stop work = none → stop' work = none) {left done : Nat}
    {product power : Float}
    (computed : powfFrom stop base negative left done product = .ok power) :
    powfFrom stop' base negative left done product = .ok power := by
  induction left generalizing done product with
  | zero => exact computed
  | succ left ih =>
      rw [powfFrom] at computed ⊢
      split at computed
      next => cases computed
      next asked =>
        have asked' : (if done % pollInterval = 0 then stop' done else none) =
            none := by
          split
          next due => exact weaker done (by simpa [due] using asked)
          next => rfl
        rw [asked']
        dsimp only at computed ⊢
        split at computed
        next unchanging => rw [if_pos unchanging, computed]
        next changing => rw [if_neg changing, ih computed]

theorem powfFrom_error {left done : Nat} {product : Float} {fault : Fault}
    (failed : powfFrom stop base negative left done product = .error fault) :
    ∃ work, stop work = some fault := by
  induction left generalizing done product with
  | zero => cases failed
  | succ left ih =>
      rw [powfFrom] at failed
      split at failed
      next other asked =>
        cases failed
        split at asked
        next => exact ⟨done, asked⟩
        next => cases asked
      next =>
        dsimp only at failed
        split at failed
        next => cases failed
        next => exact ih failed

/-- A power is known beforehand or multiplied out. -/
theorem powf_cases (base : Word) (exponent : Nat) :
    (∃ power, ∀ stop, powf stop base exponent = .ok power) ∨
    ∀ stop, powf stop base exponent =
      (powfFrom stop base.toFloat (base < 0) exponent 0 1).map
        Word.ofFloat := by
  by_cases zero : exponent = 0
  · exact .inl ⟨_, fun stop => if_pos zero⟩
  · by_cases known : (base = one || base.isNaN) = true
    · exact .inl ⟨_, fun stop => by rw [powf, if_neg zero, if_pos known]⟩
    · by_cases minus : base = minusOne
      · exact .inl ⟨_, fun stop => by rw [powf, if_neg zero, if_neg known,
          if_pos minus]⟩
      · exact .inr fun stop => by
          rw [powf, if_neg zero, if_neg known, if_neg minus]

/-- A power that is computed under one rule for stopping is computed under any
rule that stops less often. -/
theorem powf_of_weaker (weaker : ∀ work, stop work = none → stop' work = none)
    {base power : Word} {exponent : Nat}
    (computed : powf stop base exponent = .ok power) :
    powf stop' base exponent = .ok power := by
  rcases powf_cases base exponent with ⟨known, equal⟩ | equal
  · rwa [equal] at computed ⊢
  · rw [equal] at computed ⊢
    cases product : powfFrom stop base.toFloat (base < 0) exponent 0 1 with
    | error fault =>
        rw [product] at computed
        cases computed
    | ok value =>
        rw [powfFrom_of_weaker weaker product]
        rwa [product] at computed

/-- A power that is not computed was stopped. -/
theorem powf_error {base : Word} {exponent : Nat} {fault : Fault}
    (failed : powf stop base exponent = .error fault) :
    ∃ work, stop work = some fault := by
  rcases powf_cases base exponent with ⟨known, equal⟩ | equal
  · rw [equal] at failed
    cases failed
  · rw [equal] at failed
    cases product : powfFrom stop base.toFloat (base < 0) exponent 0 1 with
    | error cause =>
        rw [product] at failed
        cases failed
        exact powfFrom_error product
    | ok value =>
        rw [product] at failed
        cases failed

end Arithmetic

/-! ## Formatted output -/

/-- The writer was not stopped by an interruption. -/
def StickyWriter.Uninterrupted (writer : StickyWriter) : Prop :=
  ∀ fault, writer.fault = some fault → fault.interrupts = false

theorem Sink.write_fault (sink : Sink) (data : Text) :
    (sink.write data).fault = none ∨
      (sink.write data).fault = some (.root .sinkFull) := by
  unfold write
  split
  · exact .inl rfl
  · split
    · exact .inl rfl
    · split
      · exact .inl rfl
      · exact .inr rfl

theorem StickyWriter.Uninterrupted.append {writer : StickyWriter}
    (uninterrupted : writer.Uninterrupted) (text : Text) :
    (writer.append text).Uninterrupted := by
  intro fault met
  cases before : writer.fault with
  | some earlier =>
      simp only [StickyWriter.append, StickyWriter.write, before] at met
      exact uninterrupted fault (before.trans met)
  | none =>
      simp only [StickyWriter.append, StickyWriter.write, before] at met
      rcases writer.sink.write_fault text with written | full
      · rw [written] at met
        cases met
      · rw [full] at met
        cases met
        rfl

theorem StringLiteral.decodeFrom_uninterrupted (memory : Array Word)
    (start : Word) (p : Nat) (done : List Char) :
    ∀ fault, (decodeFrom memory start p done).2 = some fault →
      fault.interrupts = false := by
  fun_induction decodeFrom memory start p done with
  | case1 => nofun
  | case2 p done inside w nonzero ih => exact ih
  | case3 =>
      intro fault failed
      cases failed
      rfl

theorem StringLiteral.decode_uninterrupted (memory : Array Word)
    (address : Word) :
    ∀ fault, (decode memory address).2 = some fault →
      fault.interrupts = false := by
  unfold decode
  split
  · exact decodeFrom_uninterrupted memory address _ []
  · intro fault failed
    cases failed
    rfl

namespace Printf

theorem operandText_uninterrupted {memory : Array Word} {d operand : Word}
    {fault : Fault} (failed : operandText memory d operand = .error fault) :
    fault.interrupts = false := by
  have decoded := StringLiteral.decode_uninterrupted memory operand
  unfold operandText at failed
  split at failed
  · cases failed
  · cases failed
  · cases failed
  · split at failed
    next => cases failed
    next text cause result =>
      cases failed
      exact decoded fault (by rw [result])
  · cases failed

theorem directive_uninterrupted (memory : Array Word) (d : Word)
    {state : Progress} (before : state.writer.Uninterrupted) :
    (directive memory d state).1.writer.Uninterrupted ∧
      ∀ fault, (directive memory d state).2 = some fault →
        fault.interrupts = false := by
  unfold directive
  split
  · split
    next =>
      refine ⟨before, ?_⟩
      intro fault failed
      cases failed
      rfl
    next operand rest words =>
      dsimp only
      split
      next text written => exact ⟨before.append text, nofun⟩
      next cause refused =>
        refine ⟨before, ?_⟩
        intro fault failed
        cases failed
        exact operandText_uninterrupted refused
  · split
    · exact ⟨before.append _, nofun⟩
    · exact ⟨before, nofun⟩

theorem formatFrom_uninterrupted (memory : Array Word) (p : Nat)
    (state : Progress) (before : state.writer.Uninterrupted) :
    (formatFrom memory p state).1.writer.Uninterrupted ∧
      ∀ fault, (formatFrom memory p state).2 = .failed fault →
        fault.interrupts = false := by
  fun_induction formatFrom memory p state with
  | case1 | case3 => exact ⟨before, nofun⟩
  | case2 p state inside w nonzero plain ih => exact ih (before.append _)
  | case4 p state inside w nonzero percent behind d nonzero' after
      cause carried =>
      have directive := directive_uninterrupted memory d before
      rw [carried] at directive
      refine ⟨directive.1, ?_⟩
      intro fault failed
      cases failed
      exact directive.2 cause rfl
  | case5 p state inside w nonzero percent behind d nonzero' after carried ih =>
      have directive := directive_uninterrupted memory d before
      rw [carried] at directive
      exact ih directive.1
  | case6 | case7 =>
      refine ⟨before, ?_⟩
      intro fault failed
      cases failed
      rfl

theorem format_uninterrupted (memory : Array Word) (address : Word)
    (state : Progress) (before : state.writer.Uninterrupted) :
    (format memory address state).1.writer.Uninterrupted ∧
      ∀ fault, (format memory address state).2 = .failed fault →
        fault.interrupts = false := by
  unfold format
  split
  · exact formatFrom_uninterrupted memory _ state before
  · refine ⟨before, ?_⟩
    intro fault failed
    cases failed
    rfl

end Printf

/-! ## Instructions -/

/-- If the outcome is a failure, it is not due to an interruption. -/
def Outcome.Uninterrupted : Outcome → Prop
  | .proceed _ _ => True
  | .fail _ fault => fault.interrupts = false

namespace Machine

variable {m : Machine} {next : Int}

theorem fetch_uninterrupted {address : Word} {fault : Fault}
    (failed : m.fetch address = .error fault) : fault.interrupts = false := by
  unfold fetch at failed
  split at failed
  · cases failed
  · cases failed
    rfl

theorem pushing_uninterrupted (w : Word) :
    (m.pushing next w).Uninterrupted := by
  by_cases room : m.stack.depth < m.limits.stack
  · simp only [pushing, push, room, if_true]
    trivial
  · simp only [pushing, push, room, if_false]
    rfl

theorem unary_uninterrupted (f : Word → Word) :
    (m.unary next f).Uninterrupted := by
  unfold unary
  split
  · trivial
  · rfl

theorem guarded_uninterrupted {f : Word → Word → Except Fault Word}
    (computes : ∀ a b fault, f a b = .error fault → fault.interrupts = false) :
    (m.guarded next f).Uninterrupted := by
  unfold guarded
  split
  · split
    next => exact pushing_uninterrupted _
    next fault refused => exact computes _ _ fault refused
  · rfl

theorem loading_uninterrupted (address : Word) :
    (m.loading next address).Uninterrupted := by
  unfold loading
  split
  next => exact pushing_uninterrupted _
  next failed => exact fetch_uninterrupted failed

theorem storing_uninterrupted (address : Word) :
    (m.storing next address).Uninterrupted := by
  unfold storing
  split
  · split
    · trivial
    · rfl
  · rfl

theorem allocating_uninterrupted (size : Word) :
    (m.allocating next size).Uninterrupted := by
  by_cases refused : size < 0 ∨ (m.memory.size : Int) - m.heapTop < size.toInt
  · simp only [allocating, refused, if_true]
    rfl
  · by_cases room : m.stack.depth < m.limits.stack
    · simp only [allocating, push, refused, room, if_true, if_false]
      trivial
    · simp only [allocating, push, refused, room, if_false]
      rfl

theorem printf_uninterrupted : (Printf.body m next).Uninterrupted := by
  unfold Printf.body pop
  cases m.stack.words with
  | nil => rfl
  | cons address rest =>
      obtain ⟨written, read⟩ := Printf.format_uninterrupted m.memory address
        ⟨m.stack.drop1, ⟨m.host.output, none⟩⟩ nofun
      dsimp only
      split
      next => trivial
      next fault ended =>
        change fault.interrupts = false
        unfold Printf.Ending.fault? at ended
        split at ended
        next =>
          obtain ⟨cause, met, rfl⟩ := Option.map_eq_some_iff.mp ended
          exact written cause met
        next => exact written fault ended
        next cause result =>
          cases ended
          exact read fault result

theorem calling_uninterrupted (target : Word) :
    (m.calling Natives.standard next target).Uninterrupted := by
  unfold calling
  split
  · split
    next native bound =>
      rw [body_of_standard bound]
      exact printf_uninterrupted
    next => rfl
  · split
    next failed => exact fetch_uninterrupted failed
    next =>
      split
      · trivial
      · rfl

theorem returning_uninterrupted : m.returning.Uninterrupted := by
  unfold returning
  split
  · trivial
  · rfl

theorem jumping_uninterrupted (target : Word) :
    (m.jumping target).Uninterrupted := by
  unfold jumping
  split
  next => trivial
  next failed => exact fetch_uninterrupted failed

theorem branching_uninterrupted (target : Word) :
    (m.branching next target).Uninterrupted := by
  unfold branching
  split
  · split
    · split
      next => trivial
      next failed => exact fetch_uninterrupted failed
    · trivial
  · rfl

theorem operation_uninterrupted (cancelled : Nat → Bool) {op : Opcode}
    (other : op ≠ .powf) {f : Word → Word → Except Fault Word}
    (kind : m.operation cancelled op = .binary f) (a b : Word) {fault : Fault}
    (refused : f a b = .error fault) :
    fault.interrupts = false := by
  cases op with
  | powf => exact absurd rfl other
  | powi | divi | modi =>
      cases kind
      dsimp only at refused
      split at refused
      · cases refused
        rfl
      · cases refused
  | logicalAnd | logicalOr | muli | mulf | divf | addi | addf | subi | subf
  | lteqi | lteqf | lti | ltf | gti | gtf | gteqi | gteqf | eqi | eqf | neqi
  | neqf =>
      cases kind
      cases refused
  | castfi | castif | logicalNot | usubi | usubf | noop | loads | loadm
  | store | alloc | free | call | ret | ifjump | jump | halt => cases kind

theorem transferring_uninterrupted (op : Opcode) (immediate : Word) :
    (m.transferring Natives.standard op immediate next).Uninterrupted := by
  cases op with
  | loads => exact pushing_uninterrupted immediate
  | loadm => exact loading_uninterrupted immediate
  | store => exact storing_uninterrupted immediate
  | alloc => exact allocating_uninterrupted immediate
  | call => exact calling_uninterrupted immediate
  | ret => exact returning_uninterrupted
  | jump => exact jumping_uninterrupted immediate
  | ifjump => exact branching_uninterrupted immediate
  | _ => trivial

theorem execute_uninterrupted (cancelled : Nat → Bool) {op : Opcode}
    (other : op ≠ .powf) (immediate : Word) :
    (execute Natives.standard cancelled m op immediate next).Uninterrupted := by
  rw [execute_eq]
  cases kind : m.operation cancelled op with
  | unary f => exact unary_uninterrupted f
  | binary f =>
      exact guarded_uninterrupted fun a b _ =>
        operation_uninterrupted cancelled other kind a b
  | transfer => exact transferring_uninterrupted op immediate

/-- Only `powf` can be interrupted, and then it has changed nothing. -/
theorem execute_interrupted {cancelled : Nat → Bool} {op : Opcode}
    {immediate : Word} {after : Machine} {fault : Fault}
    (failed : execute Natives.standard cancelled m op immediate next =
      .fail after fault)
    (interrupted : fault.interrupts = true) : op = .powf ∧ after = m := by
  have contradiction : ∀ outcome : Outcome, outcome.Uninterrupted →
      outcome = .fail after fault → False := by
    rintro outcome uninterrupted rfl
    exact Bool.false_ne_true (uninterrupted.symm.trans interrupted)
  by_cases powf : op = .powf
  · subst powf
    simp only [execute, guarded] at failed
    split at failed
    next a b rest words =>
      split at failed
      next => exact (contradiction _ (pushing_uninterrupted _) failed).elim
      next =>
        cases failed
        exact ⟨rfl, rfl⟩
    next =>
      exact (contradiction (.fail m (.root .stackUnderflow)) rfl failed).elim
  · exact (contradiction _
      (execute_uninterrupted cancelled powf immediate) failed).elim

theorem instruction_uninterrupted {fault : RuntimeFault}
    (refused : m.instruction = .error fault) :
    fault.fault.interrupts = false := by
  unfold instruction at refused
  split at refused
  · cases refused
    rfl
  · split at refused
    · cases refused
      rfl
    · split at refused
      · cases refused
        rfl
      · split at refused
        · cases refused
          rfl
        · cases refused

/-- An interrupted step leaves no trace but a line in the log. -/
theorem step_interrupted {cancelled : Nat → Bool} {after : Machine}
    {fault : RuntimeFault}
    (failed : m.step Natives.standard cancelled = (after, some fault))
    (interrupted : fault.fault.interrupts = true) :
    (∃ i, m.instruction = .ok i ∧ i.op = .powf) ∧
      after = m.withLedger (m.ledger.noted m.stepLines) := by
  rw [step_eq] at failed
  cases decoded : m.instruction with
  | error refusal =>
      simp only [decoded] at failed
      cases failed
      exact absurd (instruction_uninterrupted decoded) (by simp [interrupted])
  | ok i =>
      have traced : m.traced i.op i.immediate =
          m.withLedger (m.ledger.noted m.stepLines) :=
        traced_withLedger (l := m.ledger) decoded
      simp only [decoded] at failed
      cases outcome : execute Natives.standard cancelled
        (m.traced i.op i.immediate) i.op i.immediate (m.pc + i.op.width) with
      | proceed proceeded next =>
          rw [outcome] at failed
          cases failed
      | fail stopped cause =>
          rw [outcome] at failed
          cases failed
          obtain ⟨powf, unchanged⟩ := execute_interrupted outcome interrupted
          exact ⟨⟨i, rfl, powf⟩, unchanged.trans traced⟩

end Machine

end WordMachine
