import Mathlib.Algebra.Group.Nat.Defs
import Mathlib.Data.List.Forall2
import WordMachine.Editor.Features
import WordMachine.Proofs.Assembly.LineByLine
import WordMachine.Proofs.Assembly.TokenStarts

/-!
# Diagnostics point into the document

A diagnostic is made from the position of a problem, which the assembler took
from the lines that it read, and from the lines of the document as the editor
has them, carriage returns included.  Whatever the problem is, the span lies on
one of these lines.

The span is computed from a part of the line that begins at the column of the
problem.  `diagnostics?` computes the same by slices that fail where a line does
not reach; they never do.
-/

namespace WordMachine

/-- A line of a text and the newlines in front of it are no longer than the
text. -/
theorem Text.add_length_le_of_line {t line : Text} {k : Nat}
    (isLine : t.lines[k]? = some line) :
    k + line.length ≤ t.length := by
  obtain ⟨before, after, split, count, -⟩ :=
    Text.exists_of_getElem?_splitFrom List.not_mem_nil isLine
  have counted := List.count_le_length (a := Text.newline) (l := before)
  have length := congrArg List.length split
  simp only [List.reverse_nil, List.nil_append, List.length_append] at length
  omega

namespace Editor

open Assembly

/-! ## Tokens of a line -/

section Token

variable {line : Text} {column : Nat}

theorem tokenEnd_le (line : Text) (column : Nat) :
    tokenEnd line column ≤ line.length := by
  unfold tokenEnd
  split
  next => exact Nat.le_refl _
  next =>
    split
    next length found =>
      have inside := (List.findIdx?_eq_some_iff_getElem.mp found).1
      rw [List.length_drop] at inside
      omega
    next => exact Nat.le_refl _

theorem le_tokenEnd (inside : column ≤ line.length) :
    column ≤ tokenEnd line column := by
  unfold tokenEnd
  split
  next => exact inside
  next =>
    split
    next => exact Nat.le_add_right _ _
    next => exact inside

/-- Like `tokenEnd`, by a slice that fails outside of the line. -/
def tokenEnd? (line : Text) (column : Int) : Option Int :=
  if line.length ≤ column then some line.length
  else (line.sliceFrom? column).map fun rest =>
    match rest.findIdx? endsToken with
    | some (length + 1) => column + (length + 1)
    | _ => line.length

theorem tokenEnd?_ofNat (line : Text) (column : Nat) :
    tokenEnd? line column = some (tokenEnd line column : Int) := by
  unfold tokenEnd? tokenEnd
  by_cases beyond : line.length ≤ column
  · rw [if_pos (Int.ofNat_le.mpr beyond), if_pos beyond]
  · rw [if_neg (mt Int.ofNat_le.mp beyond), if_neg beyond,
      Text.sliceFrom?_ofNat (by omega), Option.map_some]
    cases (line.drop column).findIdx? endsToken with
    | none => rfl
    | some length => cases length <;> rfl

end Token

/-! ## Diagnostics of a document -/

/-- Like `extent`, by slices that fail outside of a line. -/
def extent? (lines : List Text) (pos : Position) : Option Int :=
  if pos.line < 1 then some 0
  else match lines[(pos.line - 1).toNat]? with
    | some line =>
      (tokenEnd? line (pos.column - 1)).map fun stop => stop - (pos.column - 1)
    | none => some 0

/-- Like `diagnostics`, by slices that fail outside of a line. -/
def diagnostics? (a : Analysis) (text : Text) : Option (List Diagnostic) :=
  a.problems.mapM fun p =>
    (extent? text.lines p.pos).map fun length =>
      ⟨spanAt p.pos length, p.summary⟩

/-- The diagnostic is about the problem and lies on a line of the text. -/
structure Diagnostic.Marks (text : Text) (problem : Problem)
    (d : Diagnostic) : Prop where
  message : d.message = problem.summary
  line : (d.span.line : Int) = problem.pos.line - 1
  start : (d.span.start : Int) = problem.pos.column - 1
  within : ∃ line, text.lines[d.span.line]? = some line ∧
    d.span.start ≤ d.span.stop ∧ d.span.stop ≤ line.length

/-- The problems of a document point into its lines. -/
theorem ofText_problem_pointsInto {uri text : Text} {problem : Problem}
    (member : problem ∈ (Analysis.ofText uri text).problems) :
    ∃ k line, text.lines[k]? = some line ∧
      (Place.mk uri (k + 1)).PointsInto line problem.pos := by
  cases result : read uri text with
  | error fault =>
      simp only [Analysis.ofText, result, List.mem_singleton] at member
      obtain ⟨first, others, lines⟩ :=
        List.exists_cons_of_ne_nil text.lines_ne_nil
      refine ⟨0, first, by rw [lines]; rfl, [], first, rfl, ?_, .inl .nil⟩
      rw [member]
      rfl
  | ok reading =>
      simp only [Analysis.ofText, result] at member
      apply problem_pointsInto result reading.program.layout.labels
        NativeAddress.standard
        (reading.program.link reading.program.layout.labels
          NativeAddress.standard).table
      simp only [List.mem_append]
      split at member
      next first rest found =>
        rw [← found, List.mem_append] at member
        tauto
      next =>
        split at member
        next first rest found =>
          rw [← found] at member
          tauto
        next =>
          split at member
          next first rest found =>
            rw [← found] at member
            tauto
          next => cases member

theorem wrap32_of_lt {n : Nat} (small : n < 2 ^ 32) : wrap32 n = n :=
  Nat.mod_eq_of_lt small

/-- A problem that points into a line is marked there, and no slice fails on the
way. -/
theorem marks_of_pointsInto {uri text line : Text} {k : Nat} {problem : Problem}
    (short : text.length < 2 ^ 32) (isLine : text.lines[k]? = some line)
    (points : (Place.mk uri (k + 1)).PointsInto line problem.pos) :
    extent? text.lines problem.pos = some (extent text.lines problem.pos) ∧
      Diagnostic.Marks text problem
        ⟨spanAt problem.pos (extent text.lines problem.pos),
          problem.summary⟩ := by
  obtain ⟨front, rest, split, pos, -⟩ := points
  have inside : front.length ≤ line.length := by simp [split]
  have bound := Text.add_length_le_of_line isLine
  have least := le_tokenEnd inside
  have most := tokenEnd_le line front.length
  have number : problem.pos.line - 1 = k := by
    rw [pos, Place.offset]
    exact Int.add_sub_cancel (k : Int) 1
  have column : problem.pos.column - 1 = front.length := by
    rw [pos, Place.offset]
    exact Int.add_sub_cancel (front.length : Int) 1
  have positive : ¬ problem.pos.line < 1 := by omega
  have length : extent text.lines problem.pos =
      (tokenEnd line front.length : Int) - front.length := by
    rw [extent, if_neg positive, number, column, Int.toNat_natCast, isLine]
    rfl
  have span : spanAt problem.pos (extent text.lines problem.pos) =
      ⟨k, front.length, tokenEnd line front.length⟩ := by
    have reaches : front.length +
        ((tokenEnd line front.length : Int) - front.length).toNat =
        tokenEnd line front.length := by
      omega
    rw [spanAt, length, number, column, Int.toNat_natCast,
      Int.toNat_natCast, reaches, wrap32_of_lt (by omega),
      wrap32_of_lt (by omega), wrap32_of_lt (by omega)]
  refine ⟨?_, ?_⟩
  · rw [extent?, if_neg positive, number, column, Int.toNat_natCast,
      isLine, length]
    simp only [tokenEnd?_ofNat, Option.map_some]
  · rw [span]
    exact ⟨rfl, number.symm, column.symm, line, isLine, least, most⟩

/-- If every extent is found, so are all diagnostics. -/
theorem diagnostics?_of_extents {a : Analysis} {text : Text}
    (found : ∀ problem ∈ a.problems,
      extent? text.lines problem.pos = some (extent text.lines problem.pos)) :
    diagnostics? a text = some (diagnostics a text) := by
  rw [diagnostics?, diagnostics]
  generalize a.problems = problems at found ⊢
  induction problems with
  | nil => rfl
  | cons problem rest ih =>
      rw [List.forall_mem_cons] at found
      rw [List.mapM_cons, found.1, ih found.2]
      rfl

/-- Diagnostics always point into the document.

For every text of less than `2 ^ 32` bytes, no slice of a line that its
diagnostics are computed from is out of range, and there is one diagnostic for
each problem, in order, which begins where the problem is and ends behind it on
the same line of the text. -/
theorem diagnostics_point_into_document (uri text : Text)
    (short : text.length < 2 ^ 32) :
    let a := Analysis.ofText uri text
    diagnostics? a text = some (diagnostics a text) ∧
      List.Forall₂ (Diagnostic.Marks text) a.problems (diagnostics a text) := by
  have marked : ∀ problem ∈ (Analysis.ofText uri text).problems,
      extent? text.lines problem.pos = some (extent text.lines problem.pos) ∧
        Diagnostic.Marks text problem
          ⟨spanAt problem.pos (extent text.lines problem.pos),
            problem.summary⟩ := by
    intro problem member
    obtain ⟨k, line, isLine, points⟩ := ofText_problem_pointsInto member
    exact marks_of_pointsInto short isLine points
  refine ⟨?_, ?_⟩
  · exact diagnostics?_of_extents fun problem member =>
      (marked problem member).1
  · rw [diagnostics, List.forall₂_map_right_iff, List.forall₂_same]
    exact fun problem member => (marked problem member).2

/-- A document with an unknown mnemonic and an open string, both in front of a
carriage return. -/
def openString : Text :=
  Text.ofString "frob 1\r\n\t\"é\r"

theorem diagnostics_point_into_document_openString :
    openString.length < 2 ^ 32 ∧
    (diagnostics (.ofText [] openString) openString).map Diagnostic.span =
      [⟨1, 4, 5⟩, ⟨0, 0, 4⟩] ∧
    diagnostics? (.ofText [] openString) openString =
      some (diagnostics (.ofText [] openString) openString) ∧
    List.Forall₂ (Diagnostic.Marks openString)
      (Analysis.ofText [] openString).problems
      (diagnostics (.ofText [] openString) openString) := by
  have short : openString.length < 2 ^ 32 := by decide
  exact ⟨short, by decide +kernel,
    diagnostics_point_into_document [] openString short⟩

end Editor

end WordMachine
