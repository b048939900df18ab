import Mathlib.Algebra.Group.Int.Defs
import Mathlib.Algebra.Group.Nat.Defs
import Mathlib.Logic.Function.Iterate
import WordMachine.Proofs.Machine.Effects

/-!
# Integer arithmetic

Instructions on integers compute the exact result and keep its last 64 bits.
For sums, products and powers this is the ring of words; a power is computed by
squaring, whose invariant is that the product, times the base to the exponent,
does not change.  A quotient is cut off toward zero, and with its remainder it
makes up the dividend.
-/

namespace WordMachine

/-! ## Steps that compute -/

namespace Machine

/-- The machine after an instruction that put `result` on top of `rest`. -/
def withResult (m : Machine) (op : Opcode) (rest : List Word)
    (result : Word) : Machine :=
  { m with
    stack := .ofList (result :: rest)
    pc := m.pc + 1
    count := m.count + 1
    host := (m.traced op 0).host }

/-- What a step leaves that takes the operands above `rest` and pushes `result`.
There is room for it, unless the limit of the stack was lowered below its
depth. -/
def answered (m : Machine) (word : Word) (op : Opcode) (rest : List Word)
    (result : Word) :
    Machine × Option RuntimeFault :=
  if rest.length < m.limits.stack then (m.withResult op rest result, none)
  else ({ m with stack := .ofList rest, host := (m.traced op 0).host },
    some ⟨m.pc, word, .root .stackOverflow⟩)

section Computing

variable {natives : Natives} {cancelled : Nat → Bool} {m : Machine}
  {word a b : Word} {op : Opcode} {rest : List Word}

theorem stack_traced (m : Machine) (op : Opcode) (immediate : Word) :
    (m.traced op immediate).stack = m.stack := by
  rw [traced_eq]

/-- An instruction that computes takes one word of memory. -/
theorem width_of_operation (computes : m.operation cancelled op ≠ .transfer) :
    op.width = 1 := by
  cases op with
  | noop | loads | loadm | store | alloc | free | call | ret | ifjump | jump
  | halt =>
      exact absurd rfl computes
  | _ => rfl

theorem step_of_unary {f : Word → Word} (ready : m.Ready word op 0)
    (kind : (m.traced op 0).operation cancelled op = .unary f)
    (words : m.stack.words = a :: rest) :
    m.step natives cancelled = (m.withResult op rest (f a), none) := by
  have computes : (m.traced op 0).operation cancelled op ≠ .transfer := by
    simp [kind]
  have width : op.width = 1 := width_of_operation computes
  have replaced : m.stack.drop1.push (f a) = .ofList (f a :: rest) := by
    apply Stack.ext
    simp [words, Stack.ofList]
  rw [step_of_ready natives cancelled ready, execute_eq, kind]
  simp only [unary, stack_traced, words, settled, replaced, width]
  rw [traced_eq]
  rfl

theorem step_of_binary {f : Word → Word → Except Fault Word} {result : Word}
    (ready : m.Ready word op 0)
    (kind : (m.traced op 0).operation cancelled op = .binary f)
    (words : m.stack.words = a :: b :: rest) (computed : f a b = .ok result) :
    m.step natives cancelled = m.answered word op rest result := by
  have computes : (m.traced op 0).operation cancelled op ≠ .transfer := by
    simp [kind]
  have width : op.width = 1 := width_of_operation computes
  have dropped : m.stack.drop2 = .ofList rest := by
    apply Stack.ext
    simp [words, Stack.ofList]
  rw [step_of_ready natives cancelled ready, execute_eq, kind]
  simp only [guarded, stack_traced, words, computed, dropped, pushing_eq, width]
  have limits : (m.traced op 0).limits = m.limits := by rw [traced_eq]
  have depth : (Stack.ofList rest).depth = rest.length := rfl
  rw [answered, limits, depth]
  split
  · rw [traced_eq]
    rfl
  · rw [traced_eq]
    rfl

/-- An instruction that refuses its operands leaves them where they are. -/
theorem step_of_refused {f : Word → Word → Except Fault Word} {fault : Fault}
    (ready : m.Ready word op 0)
    (kind : (m.traced op 0).operation cancelled op = .binary f)
    (words : m.stack.words = a :: b :: rest) (refused : f a b = .error fault) :
    m.step natives cancelled = (m.traced op 0, some ⟨m.pc, word, fault⟩) := by
  rw [step_of_ready natives cancelled ready, execute_eq, kind]
  simp only [guarded, stack_traced, words, refused, settled]

end Computing

end Machine

/-! ## Powers by squaring -/

namespace Arithmetic

/-- The state of the squaring loop. -/
structure Squaring where
  base : Word
  /-- What is left of the exponent. -/
  exponent : Nat
  product : Word

namespace Squaring

def round (s : Squaring) : Squaring where
  base := s.base * s.base
  exponent := s.exponent / 2
  product := if s.exponent % 2 = 1 then s.product * s.base else s.product

def value (s : Squaring) : Word :=
  s.product * s.base ^ s.exponent

theorem powerFrom_round (s : Squaring) (more : s.exponent ≠ 0) :
    powerFrom s.base s.exponent s.product =
      powerFrom s.round.base s.round.exponent s.round.product := by
  rw [powerFrom, if_neg more]
  rfl

theorem square_pow (base : Word) (n : Nat) :
    (base * base) ^ n = base ^ (2 * n) := by
  induction n with
  | zero => simp
  | succ n ih =>
      rw [Nat.mul_succ, Int64.pow_succ, ih, Int64.pow_succ, Int64.pow_succ,
        Int64.mul_assoc]

theorem value_round (s : Squaring) : s.round.value = s.value := by
  obtain ⟨base, exponent, product⟩ := s
  simp only [value, round, square_pow]
  by_cases odd : exponent % 2 = 1
  · have split : exponent = 2 * (exponent / 2) + 1 := by omega
    rw [if_pos odd, Int64.mul_assoc, Int64.mul_comm base,
      ← Int64.pow_succ, ← split]
  · have split : 2 * (exponent / 2) = exponent := by omega
    rw [if_neg odd, split]

/-- The loop computes its value. -/
theorem powerFrom_eq_value (s : Squaring) :
    powerFrom s.base s.exponent s.product = s.value := by
  induction size : s.exponent using Nat.strongRecOn generalizing s with
  | ind n ih =>
      subst size
      by_cases last : s.exponent = 0
      · rw [powerFrom, if_pos last, value, last]
        simp
      · have smaller : s.round.exponent < s.exponent :=
          Nat.div_lt_self (by omega) (by omega)
        rw [powerFrom_round s last, ih _ smaller s.round rfl, value_round]

/-- An exponent of so many bits takes at most so many rounds, and what is then
in the product is what the loop was to compute. -/
theorem exists_rounds (bits : Nat) (s : Squaring)
    (small : s.exponent < 2 ^ bits) :
    ∃ rounds ≤ bits, ∃ base, round^[rounds] s = ⟨base, 0, s.value⟩ := by
  induction bits generalizing s with
  | zero =>
      obtain ⟨base, exponent, product⟩ := s
      have last : exponent = 0 := Nat.lt_one_iff.mp small
      subst last
      exact ⟨0, Nat.le_refl 0, base, by simp [value]⟩
  | succ bits ih =>
      have halved : s.round.exponent < 2 ^ bits := by
        rw [Nat.pow_succ] at small
        exact Nat.div_lt_of_lt_mul (by omega)
      obtain ⟨rounds, few, base, finished⟩ := ih s.round halved
      rw [value_round] at finished
      exact ⟨rounds + 1, Nat.succ_le_succ few, base, finished⟩

end Squaring

theorem not_lt_zero {exponent : Word} (natural : 0 ≤ exponent.toInt) :
    ¬ exponent < 0 := by
  rw [Int64.lt_iff_toInt_lt]
  exact Int.not_lt.mpr natural

theorem ofInt_pow (base : Word) (n : Nat) :
    Int64.ofInt (base.toInt ^ n) = base ^ n := by
  induction n with
  | zero => simp
  | succ n ih =>
      rw [pow_succ, Int64.ofInt_mul, ih, Int64.ofInt_toInt, Int64.pow_succ]

theorem iterate_mul (base : Word) (n : Nat) : (· * base)^[n] 1 = base ^ n := by
  induction n with
  | zero => simp
  | succ n ih => rw [Function.iterate_succ_apply', ih, Int64.pow_succ]

theorem value_start (base : Word) (n : Nat) :
    Squaring.value ⟨base, n, 1⟩ = base ^ n := by
  rw [Squaring.value, Int64.one_mul]

theorem power_eq (base : Word) (n : Nat) : power base n = base ^ n := by
  rw [power, Squaring.powerFrom_eq_value ⟨base, n, 1⟩, value_start]

/-! ## Quotients and remainders -/

theorem toInt_ne_zero {b : Word} (nonzero : b ≠ 0) : b.toInt ≠ 0 := by
  intro zero
  exact nonzero (Int64.toInt_inj.mp zero)

theorem div_eq (a b : Word) : a / b = Int64.ofInt (a.toInt.tdiv b.toInt) := by
  rw [← Int64.ofInt_toInt (a / b), Int64.toInt_div]
  apply Int64.toInt_inj.mp
  rw [Int64.toInt_ofInt, Int64.toInt_ofInt]
  exact Int.bmod_bmod

theorem div_mul_add_mod (a b : Word) : a / b * b + a % b = a := by
  have exact : a.toInt.tdiv b.toInt * b.toInt +
      a.toInt.tmod b.toInt = a.toInt :=
    Int.tdiv_mul_add_tmod ..
  calc a / b * b + a % b
      = Int64.ofInt (a.toInt.tdiv b.toInt) * Int64.ofInt b.toInt +
        Int64.ofInt (a % b).toInt := by
        rw [Int64.ofInt_toInt, Int64.ofInt_toInt, div_eq]
    _ = Int64.ofInt (a.toInt.tdiv b.toInt * b.toInt +
      a.toInt.tmod b.toInt) := by
        rw [Int64.toInt_mod, Int64.ofInt_add, Int64.ofInt_mul]
    _ = a := by rw [exact, Int64.ofInt_toInt]

theorem natAbs_mod_lt (a : Word) {b : Word} (nonzero : b ≠ 0) :
    (a % b).toInt.natAbs < b.toInt.natAbs := by
  rw [Int64.toInt_mod, Int.natAbs_tmod]
  exact Nat.mod_lt _ (Int.natAbs_pos.mpr (toInt_ne_zero nonzero))

/-- A remainder is zero or has the sign of the dividend. -/
theorem sign_mod (a b : Word) :
    a % b = 0 ∨ (a % b).toInt.sign = a.toInt.sign := by
  by_cases zero : a % b = 0
  · exact .inl zero
  · have remains : a.toInt.tmod b.toInt ≠ 0 := by
      rw [← Int64.toInt_mod]
      exact toInt_ne_zero zero
    right
    rw [Int64.toInt_mod]
    rcases Int.lt_trichotomy a.toInt 0 with negative | isZero | positive
    · have below : 0 ≤ (-a.toInt).tmod b.toInt := Int.tmod_nonneg _ (by omega)
      rw [Int.neg_tmod] at below
      rw [Int.sign_eq_neg_one_of_neg negative,
        Int.sign_eq_neg_one_of_neg (by omega)]
    · rw [isZero, Int.zero_tmod]
    · have above : 0 ≤ a.toInt.tmod b.toInt :=
        Int.tmod_nonneg _ (Int.le_of_lt positive)
      rw [Int.sign_eq_one_of_pos positive, Int.sign_eq_one_of_pos (by omega)]

/-- In words, `q` and `r` are the quotient of `a` by `b`, cut off toward zero,
and its remainder. -/
structure Divides (a b q r : Word) : Prop where
  quotient : q = Int64.ofInt (a.toInt.tdiv b.toInt)
  remainder : r = Int64.ofInt (a.toInt.tmod b.toInt)
  whole : q * b + r = a
  smaller : r.toInt.natAbs < b.toInt.natAbs
  sign : r = 0 ∨ r.toInt.sign = a.toInt.sign

theorem divides (a : Word) {b : Word} (nonzero : b ≠ 0) :
    Divides a b (a / b) (a % b) where
  quotient := div_eq a b
  remainder := by rw [← Int64.toInt_mod, Int64.ofInt_toInt]
  whole := div_mul_add_mod a b
  smaller := natAbs_mod_lt a nonzero
  sign := sign_mod a b

end Arithmetic

/-! ## The instructions -/

namespace Machine

open Arithmetic (Squaring Divides)

/-- Instructions on integers push what exact arithmetic gives, modulo `2 ^ 64`.
The top of the stack is the first operand.  A power is what repeated
multiplication of words gives, and takes at most 63 rounds of squaring. -/
theorem integer_arithmetic_exact (natives : Natives)
    (cancelled : Nat → Bool) {m : Machine} {word : Word} {op : Opcode}
    (ready : m.Ready word op 0) :
    (∀ a rest, m.stack.words = a :: rest →
      (op = .usubi →
        m.step natives cancelled =
          (m.withResult op rest (Int64.ofInt (-a.toInt)), none))) ∧
    ∀ a b rest, m.stack.words = a :: b :: rest →
      (op = .addi →
        m.step natives cancelled =
          m.answered word op rest (Int64.ofInt (a.toInt + b.toInt))) ∧
      (op = .subi →
        m.step natives cancelled =
          m.answered word op rest (Int64.ofInt (a.toInt - b.toInt))) ∧
      (op = .muli →
        m.step natives cancelled =
          m.answered word op rest (Int64.ofInt (a.toInt * b.toInt))) ∧
      (op = .powi → 0 ≤ b.toInt →
        ∃ power, m.step natives cancelled = m.answered word op rest power ∧
          power = Int64.ofInt (a.toInt ^ b.toInt.toNat) ∧
          power = (· * a)^[b.toInt.toNat] 1 ∧
          ∃ rounds ≤ 63, ∃ base,
            Squaring.round^[rounds] ⟨a, b.toInt.toNat, 1⟩ = ⟨base, 0, power⟩) ∧
      (b ≠ 0 → ∃ q r, Divides a b q r ∧
        (op = .divi → m.step natives cancelled = m.answered word op rest q) ∧
        (op = .modi →
          m.step natives cancelled = m.answered word op rest r)) := by
  refine ⟨?unary, ?binary⟩
  case unary =>
    rintro a rest words rfl
    rw [Int64.ofInt_neg, Int64.ofInt_toInt]
    exact step_of_unary ready rfl words
  case binary =>
    intro a b rest words
    refine ⟨?add, ?sub, ?mul, ?power, ?division⟩
    case add =>
      rintro rfl
      rw [Int64.ofInt_add, Int64.ofInt_toInt, Int64.ofInt_toInt]
      exact step_of_binary ready rfl words rfl
    case sub =>
      rintro rfl
      rw [Int64.ofInt_sub, Int64.ofInt_toInt, Int64.ofInt_toInt]
      exact step_of_binary ready rfl words rfl
    case mul =>
      rintro rfl
      rw [Int64.ofInt_mul, Int64.ofInt_toInt, Int64.ofInt_toInt]
      exact step_of_binary ready rfl words rfl
    case power =>
      rintro rfl natural
      have small : b.toInt.toNat < 2 ^ 63 := by
        have bound := b.toInt_lt
        omega
      have rounds := Squaring.exists_rounds 63 ⟨a, b.toInt.toNat, 1⟩ small
      rw [Arithmetic.value_start] at rounds
      refine ⟨a ^ b.toInt.toNat, ?_, (Arithmetic.ofInt_pow ..).symm,
        (Arithmetic.iterate_mul ..).symm, rounds⟩
      apply step_of_binary ready rfl words
      rw [if_neg (Arithmetic.not_lt_zero natural), Arithmetic.power_eq]
    case division =>
      intro nonzero
      refine ⟨a / b, a % b, Arithmetic.divides a nonzero, ?_, ?_⟩
      · rintro rfl
        exact step_of_binary ready rfl words (if_neg nonzero)
      · rintro rfl
        exact step_of_binary ready rfl words (if_neg nonzero)

/-- A machine about to divide the least integer by minus one. -/
def dividingLeast : Machine where
  memory := #[Opcode.divi.code]
  stack := .ofList [Int64.minValue, -1, 7]
  limits := { stack := 3 }

theorem integer_arithmetic_exact_least :
    dividingLeast.Ready Opcode.divi.code .divi 0 ∧
    ∃ q r, Divides Int64.minValue (-1) q r ∧
      dividingLeast.step Natives.standard (fun _ => false) =
        (dividingLeast.withResult .divi [7] q, none) ∧
      q = Int64.minValue ∧ r = 0 := by
  have ready : dividingLeast.Ready Opcode.divi.code .divi 0 :=
    ⟨rfl, by decide, rfl, by decide⟩
  obtain ⟨-, -, -, -, division⟩ :=
    (integer_arithmetic_exact Natives.standard (fun _ => false) ready).2
      Int64.minValue (-1) [7]
      rfl
  obtain ⟨q, r, divides, quotient, -⟩ := division (by decide)
  refine ⟨ready, q, r, divides, quotient rfl, ?_, ?_⟩
  · rw [divides.quotient]
    decide
  · rw [divides.remainder]
    decide

end Machine

end WordMachine
