import WordMachine.Editor.Analysis
import WordMachine.Proofs.Assembly.Passes

/-!
# Analyses agree with the assembler

An analysis goes through the passes of the assembler with another policy.  Where
the assembler stops at the first pass that meets problems, an analysis lays a
program out even if its source was read with problems, and keeps what the passes
gave so far.  What an editor shows is nevertheless what assembling the document
would say.
-/

namespace WordMachine

namespace Assembly

/-- The only sources that cannot be read to their end have a line that is too
long. -/
theorem long_line_of_readLines {name : Text} {lines : List Text} {line : Nat}
    {items : List Item} {found : List Problem} {fault : Fault}
    (failed : readLines name lines line items found = .error fault) :
    fault = .within (Text.ofString "asm: " ++ name) (.root .lineTooLong) ∧
      ∃ text ∈ lines, maxLineLength ≤ text.length := by
  induction lines generalizing line items found with
  | nil => cases failed
  | cons text rest ih =>
      rw [readLines] at failed
      split at failed
      next long =>
          cases failed
          exact ⟨rfl, text, List.mem_cons_self, long⟩
      next =>
          split at failed
          next => cases failed
          next =>
              obtain ⟨same, longer, member, long⟩ := ih failed
              exact ⟨same, longer, List.mem_cons_of_mem text member, long⟩

end Assembly

namespace Editor

open Assembly

/-- What the analysis of a document has in common with the result of assembling
it. -/
structure Agreement (uri text : Text) (a : Analysis)
    (result : Except Failure Assembled) :
    Prop where
  success : a.problems = [] ↔ ∃ assembled, result = .ok assembled
  product : ∀ assembled, result = .ok assembled →
    a.code = some assembled.code ∧ a.labels = assembled.labels
  /-- The problems of the assembler come first in the analysis, and alone if the
  source was read without problems. -/
  problems : ∀ found, result = .error (.problems found) →
    found <+: a.problems ∧ a.code = none ∧
    ((∃ reading, read uri text = .ok reading ∧ reading.problems = []) →
      a.problems = found)
  /-- A source with a line too long to be read is one problem at its very
  start. -/
  unreadable : ∀ fault, result = .error (.unreadable fault) →
    (∃ line ∈ sourceLines text, maxLineLength ≤ line.length) ∧
    a.problems = [⟨⟨uri, 1, 1⟩, .malformedSource, fault.message⟩]

namespace Agreement

variable {uri text : Text} {a : Analysis}

theorem of_success {assembled : Assembled} (clean : a.problems = [])
    (code : a.code = some assembled.code)
    (labels : a.labels = assembled.labels) :
    Agreement uri text a (.ok assembled) where
  success := ⟨fun _ => ⟨assembled, rfl⟩, fun _ => clean⟩
  product := by
    intro other same
    cases same
    exact ⟨code, labels⟩
  problems := nofun
  unreadable := nofun

theorem of_problems {found more : List Problem} (offending : found ≠ [])
    (problems : a.problems = found ++ more) (code : a.code = none)
    (alone : (∃ reading, read uri text = .ok reading ∧ reading.problems = []) →
      more = []) :
    Agreement uri text a (.error (.problems found)) where
  success := by
    constructor
    · intro clean
      rw [problems, List.append_eq_nil_iff] at clean
      exact absurd clean.1 offending
    · rintro ⟨assembled, accepted⟩
      cases accepted
  product := nofun
  problems := by
    intro other same
    cases same
    refine ⟨⟨more, problems.symm⟩, code, fun readable => ?_⟩
    rw [problems, alone readable, List.append_nil]
  unreadable := nofun

theorem of_same_problems (offending : a.problems ≠ []) (code : a.code = none) :
    Agreement uri text a (.error (.problems a.problems)) :=
  of_problems offending (List.append_nil _).symm code fun _ => rfl

theorem of_unreadable {fault : Fault} (long : ∃ line ∈ sourceLines text,
      maxLineLength ≤ line.length)
    (problems : a.problems = [⟨⟨uri, 1, 1⟩, .malformedSource, fault.message⟩]) :
    Agreement uri text a (.error (.unreadable fault)) where
  success := by
    constructor
    · intro clean
      rw [problems] at clean
      cases clean
    · rintro ⟨assembled, accepted⟩
      cases accepted
  product := nofun
  problems := nofun
  unreadable := by
    intro other same
    cases same
    exact ⟨long, problems⟩

end Agreement

/-- The analysis of a source that could be read, pass by pass. -/
theorem Analysis.ofText_of_read {uri text : Text} {reading : Reading}
    (result : read uri text = .ok reading) :
    let program := reading.program
    let layout := program.layout
    let linkage := program.link layout.labels NativeAddress.standard
    let emission := program.emit linkage.table
    Analysis.ofText uri text =
      if reading.problems ++ layout.problems = [] then
        if linkage.problems = [] then
          if emission.problems = [] then
            ⟨uri, program, layout.labels, [], some emission.code⟩
          else ⟨uri, program, layout.labels, emission.problems, none⟩
        else ⟨uri, program, layout.labels, linkage.problems, none⟩
      else ⟨uri, program, layout.labels,
        reading.problems ++ layout.problems, none⟩ := by
  dsimp only
  cases found : reading.problems ++ reading.program.layout.problems with
  | cons first rest =>
      simp only [Analysis.ofText, result, found, reduceCtorEq, if_false]
  | nil =>
      cases linked : (reading.program.link reading.program.layout.labels
          NativeAddress.standard).problems with
      | cons first rest =>
          simp only [Analysis.ofText, result, found, linked, reduceCtorEq,
            if_false, if_true]
      | nil =>
          cases emitted : (reading.program.emit (reading.program.link
              reading.program.layout.labels
                NativeAddress.standard).table).problems with
          | cons first rest =>
              simp only [Analysis.ofText, result, found, linked, emitted,
                reduceCtorEq, if_false, if_true]
          | nil =>
              simp only [Analysis.ofText, result, found, linked,
                emitted, if_true]

/-- The analysis of a document and its assembly with the standard native
functions agree: there are no problems exactly if the document can be assembled,
to the same code and labels; the problems of the assembler are the first ones of
the analysis. -/
theorem analysis_agrees_with_assembly (uri text : Text) :
    Agreement uri text (Analysis.ofText uri text)
      (assemble uri text NativeAddress.standard) := by
  cases result : read uri text with
  | error fault =>
      obtain ⟨_, long⟩ := long_line_of_readLines result
      have failed : assemble uri text NativeAddress.standard =
          .error (.unreadable fault) := by
        simp only [assemble, result]
      rw [failed]
      apply Agreement.of_unreadable long
      simp only [Analysis.ofText, result]
      rfl
  | ok reading =>
      rw [Analysis.ofText_of_read result, assemble_of_read result]
      by_cases readable : reading.problems = []
      · rw [readable, List.nil_append, if_pos rfl]
        split
        · split
          · split
            · exact Agreement.of_success rfl rfl rfl
            next offending => exact Agreement.of_same_problems offending rfl
          next offending => exact Agreement.of_same_problems offending rfl
        next offending => exact Agreement.of_same_problems offending rfl
      · -- Here the two policies differ: the analysis goes on to the layout.
        have offending : reading.problems ++
            reading.program.layout.problems ≠ [] := by
          intro clean
          exact readable (List.append_eq_nil_iff.mp clean).1
        rw [if_neg readable, if_neg offending]
        apply Agreement.of_problems readable rfl rfl
        rintro ⟨other, same, clean⟩
        cases result.symm.trans same
        exact absurd clean readable

/-- The problem of reading comes before that of the layout, though its line does
not. -/
example :
    (Analysis.ofText [] (Text.ofString "a:\na:\n1x\n")).problems.map
      Problem.pos = [⟨[], 3, 1⟩, ⟨[], 2, 1⟩] := by
  decide +kernel

end Editor

end WordMachine
