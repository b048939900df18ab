import WordMachine.Proofs.Machine.Reachable
import WordMachine.Proofs.Output
import WordMachine.Proofs.StringLiteral

/-!
# The language of format strings

A format is cut into pieces before anything is printed: words that stand for
themselves, and directives.  Printing succeeds exactly if the format and the
strings it asks for are ended inside memory and there are enough operands, and
then writes what its pieces stand for.
-/

namespace WordMachine

namespace Printf

open StringLiteral (wordsFrom textAt)

/-! ## Formats -/

/-- A part of a format string. -/
inductive Piece where
  /-- A word that stands for itself. -/
  | plain (w : Word)
  | integer
  | float
  | character
  | string
  | percent
  /-- A directive that prints nothing. -/
  | unknown
  deriving DecidableEq, Repr

namespace Piece

/-- The piece that a word behind a percent sign makes. -/
def ofDirective (d : Word) : Piece :=
  if d = Word.ofChar 'd' ∨ d = Word.ofChar 'i' then .integer
  else if d = Word.ofChar 'f' ∨ d = Word.ofChar 'g' then .float
  else if d = Word.ofChar 'c' then .character
  else if d = Word.ofChar 's' then .string
  else if d = Word.ofChar '%' then .percent
  else .unknown

def takesOperand : Piece → Bool
  | .integer | .float | .character | .string => true
  | .plain _ | .percent | .unknown => false

def taken (piece : Piece) : Nat :=
  piece.takesOperand.toNat

def text (memory : Array Word) : Piece → List Word → Text
  | .plain w, _ => Text.encodeChar w.toChar
  | .percent, _ => [37]
  | .integer, operand :: _ => Text.ofInt operand.toInt
  | .float, operand :: _ => Binary64.toText operand
  | .character, operand :: _ => Text.encodeChar operand.toChar
  | .string, operand :: _ => textAt memory operand
  | _, _ => []

end Piece

/-- The pieces of the format that some words begin with.  It goes up to a zero
word, which may stand in place of a directive; without one there is no
format. -/
def scan : List Word → Option (List Piece)
  | [] => none
  | w :: rest =>
    if w = 0 then some []
    else if w ≠ Word.ofChar '%' then (scan rest).map (.plain w :: ·)
    else match rest with
      | [] => none
      | d :: rest =>
        if d = 0 then some [] else (scan rest).map (.ofDirective d :: ·)

/-- The number of operands that the pieces take. -/
def needed (pieces : List Piece) : Nat :=
  pieces.countP Piece.takesOperand

/-- What the pieces print together, each directive with the topmost operand that
is left. -/
def render (memory : Array Word) : List Piece → List Word → Text
  | [], _ => []
  | piece :: pieces, operands =>
    piece.text memory operands ++
      render memory pieces (operands.drop piece.taken)

/-- There are enough operands, and every string that the pieces ask for is ended
inside memory. -/
def Supplied (memory : Array Word) (pieces : List Piece)
    (operands : List Word) : Prop :=
  needed pieces ≤ operands.length ∧
    ∀ directive ∈ (pieces.filter Piece.takesOperand).zip operands,
      directive.1 = .string → 0 ∈ wordsFrom memory directive.2

instance (memory : Array Word) (pieces : List Piece) (operands : List Word) :
    Decidable (Supplied memory pieces operands) :=
  inferInstanceAs (Decidable (_ ∧ _))

/-- The first piece has its operand, and this is no string without an end. -/
def Fed (memory : Array Word) (piece : Piece) (operands : List Word) : Prop :=
  piece.takesOperand = true →
    ∃ operand rest, operands = operand :: rest ∧
      (piece = .string → 0 ∈ wordsFrom memory operand)

section Pieces

variable {memory : Array Word} {pieces : List Piece}

theorem needed_cons (piece : Piece) (pieces : List Piece) :
    needed (piece :: pieces) = piece.taken + needed pieces := by
  cases takes : piece.takesOperand <;>
    simp [needed, Piece.taken, takes, Nat.add_comm]

theorem supplied_nil (operands : List Word) : Supplied memory [] operands :=
  ⟨Nat.zero_le _, by simp⟩

theorem supplied_cons {piece : Piece} {operands : List Word} :
    Supplied memory (piece :: pieces) operands ↔
      Fed memory piece operands ∧
        Supplied memory pieces (operands.drop piece.taken) := by
  cases takes : piece.takesOperand with
  | false => simp [Supplied, Fed, Piece.taken, needed, takes]
  | true =>
      cases operands with
      | nil => simp [Supplied, Fed, needed, takes]
      | cons operand rest =>
          simp only [Supplied, Fed, Piece.taken, needed_cons, takes,
            Bool.toNat_true, List.filter_cons_of_pos, List.zip_cons_cons,
            List.length_cons, List.drop_succ_cons, List.drop_zero,
            List.forall_mem_cons]
          constructor
          · rintro ⟨enough, first, ended⟩
            exact ⟨fun _ => ⟨operand, rest, rfl, first⟩, by omega, ended⟩
          · rintro ⟨fed, enough, ended⟩
            obtain ⟨_, _, equal, first⟩ := fed trivial
            cases equal
            exact ⟨by omega, first, ended⟩

end Pieces

/-! ## Directives -/

/-- From one state to the next, operands were taken and a text was written. -/
structure Progress.Prints (before : Progress) (taken : Nat) (text : Text)
    (after : Progress) :
    Prop where
  stack : after.stack.words = before.stack.words.drop taken
  writer : after.writer = before.writer.append text

namespace Progress.Prints

theorem refl (state : Progress) : state.Prints 0 [] state :=
  ⟨rfl, (StickyWriter.append_nil _).symm⟩

theorem trans {before middle after : Progress} {m n : Nat} {first second : Text}
    (one : before.Prints m first middle) (two : middle.Prints n second after) :
    before.Prints (m + n) (first ++ second) after where
  stack := by rw [two.stack, one.stack, List.drop_drop]
  writer := by rw [two.writer, one.writer, StickyWriter.append_append]

end Progress.Prints

theorem takesOperand_iff {d : Word} :
    takesOperand d = true ↔
      d = 100 ∨ d = 105 ∨ d = 102 ∨ d = 103 ∨ d = 99 ∨ d = 115 := by
  simp [takesOperand]

/-- The pieces of directives by their codes. -/
theorem ofDirective_eq (d : Word) :
    Piece.ofDirective d =
      if d = 100 ∨ d = 105 then .integer
      else if d = 102 ∨ d = 103 then .float
      else if d = 99 then .character
      else if d = 115 then .string
      else if d = 37 then .percent
      else .unknown := rfl

theorem ofDirective_of_idle {d : Word} (idle : takesOperand d = false) :
    Piece.ofDirective d = if d = 37 then .percent else .unknown := by
  have others := mt takesOperand_iff.mpr (Bool.not_eq_true _ ▸ idle)
  simp only [not_or] at others
  obtain ⟨isD, isI, isF, isG, isC, isS⟩ := others
  simp only [ofDirective_eq, isD, isI, isF, isG, isC, isS, or_self, if_false]

theorem takesOperand_ofDirective (d : Word) :
    (Piece.ofDirective d).takesOperand = takesOperand d := by
  cases takes : takesOperand d with
  | true =>
      rcases takesOperand_iff.mp takes with rfl | rfl | rfl | rfl |
        rfl | rfl <;> rfl
  | false =>
      rw [ofDirective_of_idle takes]
      split <;> rfl

section Directives

variable {memory : Array Word} {d operand : Word}

theorem operandText_string (memory : Array Word) (operand : Word) :
    operandText memory 115 operand =
      match StringLiteral.decode memory operand with
      | (text, none) => .ok text
      | (_, some fault) => .error fault := rfl

theorem operandText_of_ended (takes : takesOperand d = true)
    (ended : Piece.ofDirective d = .string → 0 ∈ wordsFrom memory operand)
    (operands : List Word) :
    operandText memory d operand =
      .ok ((Piece.ofDirective d).text memory (operand :: operands)) := by
  rcases takesOperand_iff.mp takes with rfl | rfl | rfl | rfl | rfl | rfl
  case inr.inr.inr.inr.inr =>
    rw [operandText_string, StringLiteral.decode_of_zero (ended rfl)]
    rfl
  all_goals rfl

theorem eq_of_ofDirective_string
    (string : Piece.ofDirective d = .string) : d = 115 := by
  have takes : takesOperand d = true := by
    rw [← takesOperand_ofDirective, string]; rfl
  rcases takesOperand_iff.mp takes with rfl | rfl | rfl | rfl | rfl | rfl
  case inr.inr.inr.inr.inr => rfl
  all_goals cases string

theorem operandText_of_unended (string : Piece.ofDirective d = .string)
    (unended : 0 ∉ wordsFrom memory operand) :
    ∃ fault, operandText memory d operand = .error fault := by
  obtain ⟨text, fault, failed⟩ := StringLiteral.decode_of_no_zero unended
  refine ⟨fault, ?_⟩
  rw [eq_of_ofDirective_string string, operandText_string, failed]

/-- A directive that is fed prints its piece, and one that is not fails. -/
theorem directive_cases (memory : Array Word) (d : Word) (state : Progress) :
    (Fed memory (.ofDirective d) state.stack.words ∧
      ∃ after, directive memory d state = (after, none) ∧
        state.Prints (Piece.ofDirective d).taken
          ((Piece.ofDirective d).text memory state.stack.words) after) ∨
    (¬ Fed memory (.ofDirective d) state.stack.words ∧
      ∃ after fault, directive memory d state = (after, some fault)) := by
  rw [Fed, Piece.taken, takesOperand_ofDirective]
  cases takes : takesOperand d with
  | false =>
      refine .inl ⟨fun equal => (Bool.false_ne_true equal).elim, ?_⟩
      rw [ofDirective_of_idle takes, directive, takes,
        if_neg Bool.false_ne_true]
      split
      · exact ⟨_, rfl, rfl, rfl⟩
      · exact ⟨_, rfl, .refl state⟩
  | true =>
      -- it fails without an operand, and with the address of a string without
      -- an end
      rw [directive, takes, if_pos rfl]
      cases words : state.stack.words with
      | nil =>
          refine .inr ⟨?_, _, _, rfl⟩
          intro fed
          obtain ⟨_, _, equal, _⟩ := fed rfl
          cases equal
      | cons operand rest =>
          by_cases ended : Piece.ofDirective d = .string →
            0 ∈ wordsFrom memory operand
          · refine .inl ⟨fun _ => ⟨operand, rest, rfl, ended⟩, ?_⟩
            dsimp only
            rw [operandText_of_ended takes ended rest]
            exact ⟨_, rfl, rfl, rfl⟩
          · obtain ⟨string, unended⟩ := Classical.not_imp.mp ended
            refine .inr ⟨?_, ?_⟩
            · intro fed
              obtain ⟨_, _, equal, first⟩ := fed rfl
              cases equal
              exact ended first
            · obtain ⟨fault, failed⟩ := operandText_of_unended string unended
              dsimp only
              rw [failed]
              exact ⟨_, _, rfl⟩

end Directives

/-! ## Whole formats -/

/-- How formatting ends, told from the words of the format: either all its
pieces are printed, or something is missing. -/
inductive Formats (memory : Array Word) (words : List Word) (state : Progress) :
    Progress × Ending → Prop where
  | printed {pieces : List Piece} {after : Progress} {ending : Ending}
      (scanned : scan words = some pieces)
      (supplied : Supplied memory pieces state.stack.words)
      (complete : ending = .complete ∨ ending = .cut)
      (prints : state.Prints (needed pieces)
        (render memory pieces state.stack.words) after) :
      Formats memory words state (after, ending)
  | failed {after : Progress} {fault : Fault}
      (lacking : ∀ pieces, scan words = some pieces →
        ¬ Supplied memory pieces state.stack.words) :
      Formats memory words state (after, .failed fault)

namespace Formats

variable {memory : Array Word} {words rest : List Word}
  {state middle : Progress} {piece : Piece} {result : Progress × Ending}

/-- One piece is printed before the rest of the format. -/
theorem step (scanned : scan words = (scan rest).map (piece :: ·))
    (fed : Fed memory piece state.stack.words)
    (first : state.Prints piece.taken
      (piece.text memory state.stack.words) middle)
    (formats : Formats memory rest middle result) :
    Formats memory words state result := by
  cases formats with
  | printed behind supplied complete prints =>
      -- the rest of the format finds the stack without the operand of the first
      -- piece
      rw [first.stack] at supplied prints
      rw [behind] at scanned
      refine .printed scanned (supplied_cons.mpr ⟨fed, supplied⟩) complete ?_
      rw [needed_cons]
      exact first.trans prints
  | failed lacking =>
      refine .failed ?_
      intro pieces found supplied
      rw [scanned] at found
      obtain ⟨behind, foundBehind, rfl⟩ := Option.map_eq_some_iff.mp found
      rw [first.stack] at lacking
      exact lacking behind foundBehind (supplied_cons.mp supplied).2

theorem of_unfed {after : Progress} {fault : Fault}
    (scanned : scan words = (scan rest).map (piece :: ·))
    (unfed : ¬ Fed memory piece state.stack.words) :
    Formats memory words state (after, .failed fault) := by
  refine .failed ?_
  intro pieces found supplied
  rw [scanned] at found
  obtain ⟨behind, _, rfl⟩ := Option.map_eq_some_iff.mp found
  exact unfed (supplied_cons.mp supplied).1

end Formats

theorem scan_zero (rest : List Word) : scan (0 :: rest) = some [] := by
  rw [scan.eq_def]
  rfl

theorem scan_plain {w : Word} (nonzero : w ≠ 0) (plain : w ≠ 37)
    (rest : List Word) :
    scan (w :: rest) = (scan rest).map (.plain w :: ·) := by
  rw [scan.eq_def]
  exact (if_neg nonzero).trans (if_pos plain)

theorem scan_cut (rest : List Word) : scan (37 :: 0 :: rest) = some [] := by
  rw [scan.eq_def]
  rfl

theorem scan_directive {d : Word} (nonzero : d ≠ 0) (rest : List Word) :
    scan (37 :: d :: rest) = (scan rest).map (.ofDirective d :: ·) := by
  rw [scan.eq_def]
  exact if_neg nonzero

theorem formatFrom_formats (memory : Array Word) (p : Nat) (state : Progress) :
    Formats memory (memory.toList.drop p) state
      (formatFrom memory p state) := by
  fun_induction formatFrom memory p state with
  | case1 p state inside w zero =>
      rw [StringLiteral.drop_toList inside, show memory[p] = 0 from zero]
      exact .printed (scan_zero _) (supplied_nil _) (.inl rfl) (.refl state)
  | case2 p state inside w nonzero plain ih =>
      rw [StringLiteral.drop_toList inside]
      refine .step (scan_plain nonzero plain _) ?_ ?_ ih
      · intro takes
        cases takes
      · exact ⟨rfl, rfl⟩
  | case3 p state inside w nonzero percent behind d cut =>
      rw [StringLiteral.drop_toList inside, StringLiteral.drop_toList behind,
        show memory[p] = 37 from Decidable.not_not.mp percent,
          show memory[p + 1] = 0 from cut]
      exact .printed (scan_cut _) (supplied_nil _) (.inr rfl) (.refl state)
  | case4 p state inside w nonzero percent behind d nonzero' after
      fault carried =>
      rw [StringLiteral.drop_toList inside, StringLiteral.drop_toList behind,
        show memory[p] = 37 from Decidable.not_not.mp percent]
      rcases directive_cases memory d state with
        ⟨-, _, carried', -⟩ | ⟨unfed, -⟩
      · rw [carried] at carried'
        cases carried'
      · exact .of_unfed (scan_directive nonzero' _) unfed
  | case5 p state inside w nonzero percent behind d nonzero' after carried ih =>
      rw [StringLiteral.drop_toList inside, StringLiteral.drop_toList behind,
        show memory[p] = 37 from Decidable.not_not.mp percent]
      rcases directive_cases memory d state with ⟨fed, _, carried', prints⟩ |
        ⟨-, _, _, carried'⟩
      · rw [carried] at carried'
        cases carried'
        exact .step (scan_directive nonzero' _) fed prints ih
      · rw [carried] at carried'
        cases carried'
  | case6 p state inside w nonzero percent behind =>
      rw [StringLiteral.drop_toList inside,
        show memory[p] = 37 from Decidable.not_not.mp percent,
        List.drop_eq_nil_of_le (by simpa using behind)]
      refine .failed ?_
      intro pieces found
      rw [scan.eq_def] at found
      cases found
  | case7 p state outside =>
      rw [List.drop_eq_nil_of_le (by simpa using outside)]
      refine .failed ?_
      intro pieces found
      cases found

theorem format_formats (memory : Array Word) (address : Word)
    (state : Progress) :
    Formats memory (wordsFrom memory address) state
      (format memory address state) := by
  rw [format]
  split
  next p found =>
    rw [StringLiteral.wordsFrom_of_index? found]
    exact formatFrom_formats memory p state
  next outside =>
    rw [StringLiteral.wordsFrom_eq_nil outside]
    refine .failed ?_
    intro pieces found
    cases found

/-! ## The native function -/

section Body

variable {m : Machine} {address : Word} {operands : List Word}

theorem body_of_empty (empty : m.stack.words = []) (next : Int) :
    body m next = .fail m (.root .stackUnderflow) := by
  simp only [body, Machine.pop, empty]

/-- The state in which formatting begins, with the address of the format
taken. -/
def opening (m : Machine) : Progress :=
  ⟨m.stack.drop1, ⟨m.host.output, none⟩⟩

theorem words_opening (words : m.stack.words = address :: operands) :
    (opening m).stack.words = operands := by
  rw [opening, Stack.words_drop1, words]
  rfl

/-- The machine when formatting is over. -/
def closing (m : Machine) (state : Progress) : Machine :=
  { m with stack := state.stack }.withOutput state.writer.sink

theorem body_of_address (words : m.stack.words = address :: operands)
    (next : Int) :
    body m next =
      match (format m.memory address (opening m)).2.fault?
          (format m.memory address (opening m)).1.writer with
      | none =>
        .proceed (closing m (format m.memory address (opening m)).1) next
      | some fault =>
        .fail (closing m (format m.memory address (opening m)).1) fault := by
  simp only [body, Machine.pop, words]
  rfl

/-- On a sink without limit, a format that prints all its pieces is a
success. -/
theorem body_of_supplied {pieces : List Piece}
    (unlimited : m.host.output.room = none)
    (words : m.stack.words = address :: operands)
    (scanned : scan (wordsFrom m.memory address) = some pieces)
    (supplied : Supplied m.memory pieces operands) (next : Int) :
    body m next = .proceed
      ({ m with stack := .ofList (operands.drop (needed pieces)) }.withOutput
        (m.host.output.write (render m.memory pieces operands)).target)
          next := by
  rw [← words_opening words] at supplied
  have formats := format_formats m.memory address (opening m)
  rw [body_of_address words]
  generalize format m.memory address (opening m) = result at formats
  cases formats with
  | failed lacking => exact absurd supplied (lacking pieces scanned)
  | @printed _ after ending scanned' _ complete prints =>
      cases scanned.symm.trans scanned'
      have stack : after.stack = .ofList (operands.drop (needed pieces)) := by
        apply Stack.ext
        rw [prints.stack, words_opening words]
        rfl
      have writer : after.writer =
          ⟨(m.host.output.write (render m.memory pieces operands)).target,
            none⟩ := by
        rw [prints.writer, words_opening words]
        exact StickyWriter.append_of_unlimited unlimited _
      rcases complete with rfl | rfl
      · simp only [Ending.fault?, closing, stack, writer, Option.map_none]
      · simp only [Ending.fault?, closing, stack, writer]

theorem supplied_of_body {after : Machine} {next resumed : Int}
    (proceeded : body m next = .proceed after resumed) :
    ∃ address operands pieces, m.stack.words = address :: operands ∧
      scan (wordsFrom m.memory address) = some pieces ∧
        Supplied m.memory pieces operands := by
  cases words : m.stack.words with
  | nil =>
      rw [body_of_empty words] at proceeded
      cases proceeded
  | cons address operands =>
      rw [body_of_address words] at proceeded
      have formats := format_formats m.memory address (opening m)
      generalize format m.memory address (opening m) =
        result at formats proceeded
      cases formats with
      | failed lacking => cases proceeded
      | printed scanned supplied complete prints =>
          rw [words_opening words] at supplied
          exact ⟨address, operands, _, rfl, scanned, supplied⟩

/-- However it ends, formatting takes words from the stack, writes, and changes
nothing else. -/
theorem body_leaves (m : Machine) (next : Int) :
    ∃ (stack : Stack) (sink : Sink), stack.words <:+ m.stack.words ∧
      (body m next = .proceed ({ m with stack := stack }.withOutput sink) next ∨
        ∃ fault, body m next =
          .fail ({ m with stack := stack }.withOutput sink) fault) := by
  cases words : m.stack.words with
  | nil =>
      exact ⟨m.stack, m.host.output, ⟨[], words⟩,
        .inr ⟨_, body_of_empty words next⟩⟩
  | cons address operands =>
      have taken := format_suffix m.memory address (opening m)
      rw [words_opening words] at taken
      refine ⟨_, (format m.memory address (opening m)).1.writer.sink,
        taken.trans (List.suffix_cons address operands), ?_⟩
      rw [body_of_address words]
      split
      · exact .inl rfl
      · exact .inr ⟨_, rfl⟩

end Body

/-- On a sink without limit, printing succeeds exactly if the stack holds the
address of a format whose pieces are all supplied.  It then takes this address
and one operand for each directive that needs one, and writes what the pieces
stand for.  In every case it ends, pushes nothing and leaves memory, calls and
heap as they are. -/
theorem printf_follows_format (m : Machine) (next : Int) :
    (m.host.output.room = none →
      ((∃ after, body m next = .proceed after next) ↔
        ∃ address operands pieces, m.stack.words = address :: operands ∧
          scan (wordsFrom m.memory address) = some pieces ∧
          Supplied m.memory pieces operands) ∧
      ∀ address operands pieces, m.stack.words = address :: operands →
        scan (wordsFrom m.memory address) = some pieces →
        Supplied m.memory pieces operands →
        ∃ sink,
          body m next = .proceed
            ({ m with
                stack := .ofList (operands.drop (needed pieces))
              }.withOutput sink) next ∧
          sink =
            (m.host.output.write (render m.memory pieces operands)).target ∧
          (m.host.output.discards = false →
            sink.text = m.host.output.text ++
              render m.memory pieces operands)) ∧
    ∃ after,
      (body m next = .proceed after next ∨
        ∃ fault, body m next = .fail after fault) ∧
      after.stack.words <:+ m.stack.words ∧ after.memory = m.memory ∧
      after.calls = m.calls ∧ after.heapTop = m.heapTop := by
  refine ⟨fun unlimited => ⟨⟨?_, ?_⟩, ?_⟩, ?_⟩
  · rintro ⟨after, proceeded⟩
    exact supplied_of_body proceeded
  · rintro ⟨address, operands, pieces, words, scanned, supplied⟩
    exact ⟨_, body_of_supplied unlimited words scanned supplied next⟩
  · intro address operands pieces words scanned supplied
    exact ⟨_, body_of_supplied unlimited words scanned supplied next, rfl,
      fun stores => Sink.text_write_of_unlimited unlimited stores _⟩
  · obtain ⟨stack, sink, taken, ended⟩ := body_leaves m next
    exact ⟨_, ended, taken, rfl, rfl, rfl⟩

/-- A machine about to print the format `%s=%i%%%q%c%`, whose last percent sign
has no directive.  Its operands are the address of the string `né` behind the
format, the integer -5, the code of `A` and one word more than needed. -/
def labelled : Machine where
  memory :=
    (("%s=%i%%%q%c%".toList ++ [Char.ofNat 0] ++ "né".toList ++
      [Char.ofNat 0]).map Word.ofChar).toArray
  stack := .ofList [0, 13, -5, 65, 9]
  host := { output := { written := #[62] } }

def labelledPieces : List Piece :=
  [.string, .plain (Word.ofChar '='), .integer, .percent, .unknown, .character]

theorem printf_follows_format_labelled :
    scan (wordsFrom labelled.memory 0) = some labelledPieces ∧
    Supplied labelled.memory labelledPieces [13, -5, 65, 9] ∧
    ∃ sink, body labelled 3 =
      .proceed ({ labelled with stack := .ofList [9] }.withOutput sink) 3 ∧
      sink.text = Text.ofString ">né=-5%A" := by
  have scanned : scan (wordsFrom labelled.memory 0) = some labelledPieces := by
    decide +kernel
  have supplied : Supplied labelled.memory labelledPieces [13, -5, 65, 9] := by
    decide +kernel
  have printed : [62] ++ render labelled.memory labelledPieces [13, -5, 65, 9] =
      Text.ofString ">né=-5%A" := by decide +kernel
  obtain ⟨sink, proceeded, -, text⟩ :=
    ((printf_follows_format labelled 3).1 rfl).2 0 [13, -5, 65,
      9] labelledPieces rfl scanned supplied
  exact ⟨scanned, supplied, sink, proceeded, (text rfl).trans printed⟩

end Printf

end WordMachine
