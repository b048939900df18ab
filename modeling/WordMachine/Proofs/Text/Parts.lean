import WordMachine.Proofs.Text

/-!
# Where texts are cut

Two questions about a place at which a text is cut in two.  Does the text reach
that far?  The checked slices fail where it does not.  And are the characters of
the text those of the two parts?  They are if the first part is closed, that is
if none of its characters can go on behind its end, or if the second part does
not begin in the middle of a character.
-/

namespace WordMachine.Text

/-! ## Checked slices -/

/-- The bytes from an offset on, if the offset is in the text or at its end. -/
def sliceFrom? (t : Text) (start : Int) : Option Text :=
  if 0 ≤ start ∧ start ≤ t.length then some (t.drop start.toNat) else none

/-- The bytes before an offset, if the offset is in the text or at its end. -/
def sliceTo? (t : Text) (stop : Int) : Option Text :=
  if 0 ≤ stop ∧ stop ≤ t.length then some (t.take stop.toNat) else none

section Slices

variable {t : Text} {n : Nat}

theorem sliceFrom?_ofNat (inside : n ≤ t.length) :
    t.sliceFrom? n = some (t.drop n) := by
  rw [sliceFrom?, if_pos ⟨Int.natCast_nonneg n, Int.ofNat_le.mpr inside⟩,
    Int.toNat_natCast]

theorem sliceTo?_ofNat (inside : n ≤ t.length) :
    t.sliceTo? n = some (t.take n) := by
  rw [sliceTo?, if_pos ⟨Int.natCast_nonneg n, Int.ofNat_le.mpr inside⟩,
    Int.toNat_natCast]

end Slices

/-! ## Characters of parts -/

/-- The characters of two texts in a row are those of each, if the second one
does not begin in the middle of a character. -/
theorem chars_append_of_starts {x : UInt8} (starts : isContinuation x = false)
    (t rest : Text) :
    chars (t ++ x :: rest) = t.chars ++ chars (x :: rest) := by
  induction t using char_induction with
  | nil => rfl
  | cons b c tail later first readAs ih =>
      have same : decodeFirst b (tail ++ (later ++ x :: rest)) =
          (c, tail.length) := by
        rw [← List.append_assoc, decodeFirst_append starts, first]
      rw [List.cons_append, List.append_assoc, chars_cons same,
        chars_cons first, ih]
      rfl

/-- The byte that begins a character does not continue one. -/
theorem Spells.starts {b : UInt8} {tail : Text} {c : Char}
    (spells : Spells b tail c) :
    isContinuation b = false := by
  have lead : ∀ b, isContinuation b = true →
      ¬ b < 0x80 ∧ ¬ (0xC2 ≤ b && b ≤ 0xDF) = true ∧
      ¬ (0xE0 ≤ b && b ≤ 0xEF) = true ∧ ¬ (0xF0 ≤ b && b ≤ 0xF4) = true :=
    byte_forall (by decide +kernel)
  apply Bool.eq_false_iff.mpr
  intro continues
  obtain ⟨one, two, three, four⟩ := lead b continues
  have decoded := spells.decoded []
  unfold decodeFirst? at decoded
  rw [if_neg one, if_neg two, if_neg three, if_neg four] at decoded
  cases decoded

/-- A text whose characters stay what they are, whatever follows. -/
def Closed (t : Text) : Prop :=
  ∀ rest : Text, (t ++ rest).chars = t.chars ++ rest.chars

namespace Closed

theorem nil : Closed [] := fun _ => rfl

/-- Text without stray bytes is closed. -/
theorem of_allChars {p : Char → Bool} {t : Text}
    (strict : p replacement = false) (all : allChars p t = true) :
    t.Closed := by
  intro rest
  induction t using char_induction with
  | nil => rfl
  | cons b c tail later first readAs ih =>
      obtain ⟨pass, others⟩ := (allChars_cons p first).mp all
      have spells := readAs.spells strict pass
      rw [List.cons_append, List.append_assoc, chars_cons (spells.first _),
        chars_cons first, ih others]
      rfl

/-- Whatever text ends with text without stray bytes is closed. -/
theorem append_of_allChars {p : Char → Bool} {t : Text}
    (strict : p replacement = false) (all : allChars p t = true)
    (nonempty : t ≠ []) (front : Text) : (front ++ t).Closed := by
  intro rest
  have closed := of_allChars strict all
  induction t using char_induction with
  | nil => exact absurd rfl nonempty
  | cons b c tail later first readAs _ =>
      have spells := readAs.spells strict ((allChars_cons p first).mp all).1
      rw [List.append_assoc, List.cons_append,
        chars_append_of_starts spells.starts,
        chars_append_of_starts spells.starts, ← List.cons_append, closed rest,
        List.append_assoc]

/-- A text that ends with an ASCII byte is closed. -/
theorem concat {b : UInt8} (ascii : b < 0x80) (front : Text) :
    (front ++ [b]).Closed := by
  have strict : decide (replacement.toNat < 0x80) = false := by decide
  apply append_of_allChars (p := fun c => decide (c.toNat < 0x80)) strict _
    (List.cons_ne_nil b [])
  apply allChars_of_ascii
  intro x member
  cases List.mem_singleton.mp member
  refine ⟨ascii, decide_eq_true ?_⟩
  rw [toNat_ofNat_ascii ascii]
  exact ascii

end Closed

end WordMachine.Text
