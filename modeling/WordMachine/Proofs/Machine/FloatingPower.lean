import WordMachine.Proofs.Binary64
import WordMachine.Proofs.Machine.IntegerArithmetic

/-!
# Floating-point powers

A floating-point power is what repeated multiplication gives, rounded after each
factor, although most of the factors are never multiplied: powers of one, of
minus one and of what is not a number are known, and a product that has become
zero or infinite changes its sign only.
-/

namespace WordMachine

namespace Arithmetic

open Binary64 (sign? signOf unpacked Proper)

/-- One, multiplied by the base `n` times and rounded each time. -/
def repeatedProduct (base : Float) (n : Nat) : Float :=
  (· * base)^[n] 1

theorem repeatedProduct_succ (base : Float) (n : Nat) :
    repeatedProduct base (n + 1) = repeatedProduct base n * base :=
  Function.iterate_succ_apply' ..

/-- Leaving the loop early does not change the product. -/
theorem powfFrom_eq {base : Float} {negative : Bool}
    (sign : sign? (unpacked base) = some (signOf negative)) (left done : Nat)
    {product : Float} (proper : Proper (unpacked product)) :
    powfFrom (fun _ => none) base negative left done product =
      .ok ((· * base)^[left] product) := by
  have number : sign? (unpacked base) ≠ none := by
    rw [sign]
    exact Option.some_ne_none _
  induction left generalizing done product with
  | zero => rfl
  | succ left ih =>
      rw [powfFrom, ite_self]
      dsimp only
      split
      next unchanging =>
        -- the remaining factors are absorbed
        rw [Function.iterate_succ_apply,
          (Binary64.absorbs_of_tests proper unchanging).iterate_mul sign left]
      next changing =>
        have number' : sign? (unpacked (product * base)) ≠ none := by
          rw [Binary64.mul_eq, Binary64.sign?_packed]
          exact Binary64.sign?_mul proper number
        exact ih (done + 1)
          (Binary64.proper_of_tests number' (Bool.eq_false_iff.mpr changing))

theorem repeatedProduct_one (n : Nat) : repeatedProduct one.toFloat n = 1 := by
  induction n with
  | zero => rfl
  | succ n ih =>
      rw [repeatedProduct_succ, ih]
      rfl

theorem repeatedProduct_minusOne (n : Nat) :
    repeatedProduct minusOne.toFloat n = if n % 2 = 1 then
      minusOne.toFloat else 1 := by
  induction n with
  | zero => rfl
  | succ n ih =>
      rw [repeatedProduct_succ, ih]
      by_cases odd : n % 2 = 1
      · rw [if_pos odd, if_neg (by omega)]
        rfl
      · rw [if_neg odd, if_pos (by omega)]
        rfl

theorem isNaN_repeatedProduct {base : Word}
    (nan : base.isNaN = true) (n : Nat) :
    (repeatedProduct base.toFloat (n + 1)).isNaN = true := by
  rw [repeatedProduct_succ]
  apply Binary64.isNaN_mul
  rw [Binary64.sign?_toFloat, if_pos nan]

/-- The word has the bits of the double, or both are not numbers. -/
def Represents (w : Word) (x : Float) : Prop :=
  (x.isNaN = false → w = .ofFloat x) ∧ (x.isNaN = true → w.isNaN = true)

theorem represents_ofFloat (x : Float) : Represents (.ofFloat x) x := by
  refine ⟨fun _ => rfl, ?_⟩
  intro nan
  rw [Binary64.isNaN_ofFloat, nan]

/-- If nobody stops it, a power represents what repeated multiplication
gives. -/
theorem powf_represents (base : Word) (n : Nat) :
    ∃ power, powf (fun _ => none) base n = .ok power ∧
      Represents power (repeatedProduct base.toFloat n) := by
  rw [powf]
  split
  next zero =>
    subst zero
    exact ⟨one, rfl, represents_ofFloat 1⟩
  next nonzero =>
    obtain ⟨n, rfl⟩ := Nat.exists_eq_succ_of_ne_zero nonzero
    split
    next known =>
      refine ⟨base, rfl, ?_⟩
      by_cases nan : base.isNaN = true
      · have result := isNaN_repeatedProduct nan n
        exact ⟨fun number =>
          absurd result (Bool.eq_false_iff.mp number), fun _ => nan⟩
      · have unit : base = one := by simpa [nan] using known
        rw [unit, repeatedProduct_one]
        exact represents_ofFloat 1
    next other =>
      obtain ⟨-, number⟩ := not_or.mp (mt Bool.or_eq_true_iff.mpr other)
      split
      next unit =>
        subst unit
        refine ⟨_, rfl, ?_⟩
        rw [repeatedProduct_minusOne]
        split
        · exact represents_ofFloat minusOne.toFloat
        · exact represents_ofFloat 1
      next =>
        have sign : sign? (unpacked base.toFloat) =
            some (signOf (base < 0)) := by
          rw [Binary64.sign?_toFloat, if_neg number]
        have positive : sign? (unpacked 1) = some (signOf false) := rfl
        have proper : Proper (unpacked 1) :=
          Binary64.proper_of_tests (by simp [positive]) rfl
        rw [powfFrom_eq sign (n + 1) 0 proper]
        exact ⟨_, rfl, represents_ofFloat _⟩

end Arithmetic

/-! ## The instruction -/

namespace Machine

open Arithmetic (Represents repeatedProduct)

/-- Without a step limit, and if nobody asks for a stop, a floating-point power
with a natural exponent pushes what repeated multiplication gives, and a
negative exponent is refused. -/
theorem powf_multiplies_out (natives : Natives) {m : Machine} {word a b : Word}
    {rest : List Word} (ready : m.Ready word .powf 0)
    (words : m.stack.words = a :: b :: rest)
    (unlimited : m.limits.steps = none) :
    (0 ≤ b.toInt → ∃ power,
      m.step natives (fun _ => false) = m.answered word .powf rest power ∧
      Represents power (repeatedProduct a.toFloat b.toInt.toNat)) ∧
    (b.toInt < 0 →
      m.step natives (fun _ => false) =
        (m.traced .powf 0, some ⟨m.pc, word, .root .negativeExponent⟩)) := by
  constructor
  · intro natural
    have uninterrupted :
        (m.traced .powf 0).interruption (fun _ => false) = fun _ => none := by
      funext work
      rw [interruption, traced_eq, unlimited]
      rfl
    obtain ⟨power, computed, represents⟩ :=
      Arithmetic.powf_represents a b.toInt.toNat
    refine ⟨power, ?_, represents⟩
    apply step_of_binary ready rfl words
    rw [if_neg (Arithmetic.not_lt_zero natural), uninterrupted, computed]
  · intro negative
    apply step_of_refused ready rfl words
    rw [if_pos (Int64.lt_iff_toInt_lt.mpr negative)]

/-- A machine about to raise `-2 ^ -600` to the fifth power.  The second product
is too small for a double, and the three factors left make it a negative
zero. -/
def vanishing : Machine where
  memory := #[Opcode.powf.code]
  stack := .ofList [Word.ofBits 0x9A70000000000000, 5]

theorem powf_multiplies_out_vanishing :
    vanishing.Ready Opcode.powf.code .powf 0 ∧
    vanishing.step Natives.standard (fun _ => false) =
      (vanishing.withResult .powf [] (Word.ofBits 0x8000000000000000),
        none) := by
  have ready : vanishing.Ready Opcode.powf.code .powf 0 :=
    ⟨rfl, by decide, rfl, by decide⟩
  obtain ⟨power, stepped, number, -⟩ :=
    (powf_multiplies_out Natives.standard ready rfl rfl).1 (by decide)
  refine ⟨ready, ?_⟩
  have rounded : power = Word.ofBits 0x8000000000000000 :=
    (number (by decide +kernel)).trans (by decide +kernel)
  rw [stepped, rounded]
  rfl

end Machine

end WordMachine
