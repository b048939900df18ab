import WordMachine.Cbor.Writer
import WordMachine.Proofs.Text
import Mathlib.Data.List.Nodup

/-!
# The order of keys

Keys are compared by length and then by bytes.  That is a total order of texts,
so the entries of a map whose keys are written differently have one written
order only, in whichever order they were listed.
-/

namespace WordMachine

namespace Cbor

theorem keyLe_total (s t : Text) : (keyLe s t || keyLe t s) = true := by
  have bytes := Text.le_total s t
  simp only [keyLe, Bool.or_eq_true, Bool.and_eq_true, decide_eq_true_eq,
    beq_iff_eq] at bytes ⊢
  rcases Nat.lt_trichotomy s.length t.length with shorter | same | longer
  · exact .inl (.inl shorter)
  · rcases bytes with less | more
    · exact .inl (.inr ⟨same, less⟩)
    · exact .inr (.inr ⟨same.symm, more⟩)
  · exact .inr (.inl longer)

theorem keyLe_trans {s t u : Text} (first : keyLe s t = true)
    (second : keyLe t u = true) :
    keyLe s u = true := by
  have bytes := @Text.le_trans s t u
  simp only [keyLe, Bool.or_eq_true, Bool.and_eq_true, decide_eq_true_eq,
    beq_iff_eq] at *
  rcases first with shorter | ⟨same, less⟩
  · left
    omega
  · rcases second with shorter | ⟨sameNext, lessNext⟩
    · left
      omega
    · exact .inr ⟨same.trans sameNext, bytes less lessNext⟩

theorem keyLe_antisymm {s t : Text} (first : keyLe s t = true)
    (second : keyLe t s = true) :
    s = t := by
  simp only [keyLe, Bool.or_eq_true, Bool.and_eq_true, decide_eq_true_eq,
    beq_iff_eq] at *
  rcases first with shorter | ⟨same, less⟩
  · rcases second with shorterBack | ⟨sameBack, -⟩
    · omega
    · omega
  · rcases second with shorterBack | ⟨-, lessBack⟩
    · omega
    · exact Text.le_antisymm less lessBack

section Sorting

variable {α : Type} (key : α → Text)

/-- A list in the order of its keys. -/
def inOrderOf (entries : List α) : List α :=
  entries.mergeSort fun a b => keyLe (key a) (key b)

theorem inOrderOf_perm (entries : List α) :
    (inOrderOf key entries).Perm entries :=
  List.mergeSort_perm ..

theorem pairwise_inOrderOf (entries : List α) :
    (inOrderOf key entries).Pairwise fun a b =>
      keyLe (key a) (key b) = true := by
  apply List.pairwise_mergeSort
  · intro a b c first second
    exact keyLe_trans first second
  · intro a b
    exact keyLe_total (key a) (key b)

/-- If no key comes twice, the order in which entries were listed is of no
account. -/
theorem inOrderOf_eq_of_perm {s t : List α} (same : s.Perm t)
    (distinct : (t.map key).Nodup) :
    inOrderOf key s = inOrderOf key t := by
  have listed := (inOrderOf_perm key s).trans same
  apply List.Perm.eq_of_pairwise _ (pairwise_inOrderOf key s)
    (pairwise_inOrderOf key t) (listed.trans (inOrderOf_perm key t).symm)
  intro a b inS inT first second
  have equal := keyLe_antisymm first second
  exact List.inj_on_of_nodup_map distinct (listed.mem_iff.mp inS)
    ((inOrderOf_perm key t).mem_iff.mp inT) equal

end Sorting

end Cbor

end WordMachine
