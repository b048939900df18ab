import WordMachine.Proofs.Assembly.Acceptance
import WordMachine.Proofs.Assembly.PlainLines
import WordMachine.Proofs.Assembly.Sweep
import WordMachine.Proofs.Numeral

/-!
# Reassembling a sweep

What a sweep shows of a program is a source.  Assembled again it gives the
program, word for word, unless the sweep came to a word that is no instruction:
its line cannot be read.
-/

namespace WordMachine

/-! ## What is written is plain -/

namespace Opcode

theorem plainWord_name (op : Opcode) : Text.PlainWord op.name := by
  apply Text.PlainWord.of_all
  · cases op <;> decide
  · cases op <;> decide

theorem ofName?_name (op : Opcode) : ofName? op.name = some op := by
  cases op <;> decide

theorem isIdentifier_name (op : Opcode) :
    Assembly.isIdentifier op.name = true := by
  cases op <;> decide

theorem startsNumber_name (op : Opcode) :
    Numeral.startsNumber op.name = false := by
  cases op <;> decide

theorem length_name_le (op : Opcode) : op.name.length ≤ 6 := by
  cases op <;> decide

end Opcode

theorem Text.isPlain_of_isDigitByte {b : UInt8} (digit : isDigitByte b = true) :
    isPlain b = true := by
  grind [isDigitByte, isPlain]

theorem Word.plainWord_toText (w : Word) : Text.PlainWord w.toText := by
  rw [Word.toText]
  cases w.toInt with
  | ofNat n =>
      refine ⟨Text.ofNat_ne_nil n, ?_⟩
      intro b member
      exact Text.isPlain_of_isDigitByte (Text.isDigitByte_of_mem_ofNat member)
  | negSucc n =>
      refine ⟨List.cons_ne_nil _ _, ?_⟩
      intro b member
      rcases List.mem_cons.mp member with rfl | digit
      · decide
      · exact Text.isPlain_of_isDigitByte (Text.isDigitByte_of_mem_ofNat digit)

theorem Text.length_ofNat_le {n digits : Nat} (positive : 0 < digits)
    (below : n < 10 ^ digits) :
    (ofNat n).length ≤ digits := by
  rw [ofNat, List.length_map]
  exact (Nat.length_toDigits_le_iff (by decide) positive).mpr below

theorem Word.length_toText_le (w : Word) : w.toText.length ≤ 20 := by
  have least := Int64.le_toInt w
  have most := Int64.toInt_lt w
  rw [Word.toText]
  cases value : w.toInt with
  | ofNat n =>
      rw [value, Int.ofNat_eq_natCast] at most
      exact Text.length_ofNat_le (by decide) (by omega)
  | negSucc n =>
      rw [value, Int.negSucc_eq] at least
      exact Nat.succ_le_succ
        (Text.length_ofNat_le (show 0 < 19 by decide) (by omega))

theorem NativeAddress.name?_eq_some {address : Word} {name : Text}
    (found : name? address = some name) :
    address = printf ∧ name = Text.ofString "printf" := by
  have entries : standard.entries = [(Text.ofString "printf", printf)] := rfl
  rw [name?, entries, List.find?_singleton] at found
  split at found
  next same =>
    cases found
    exact ⟨(beq_iff_eq.mp same).symm, rfl⟩
  next => cases found

namespace Assembly

/-! ## Lines -/

/-- The item is an instruction that stands for these words. -/
structure Item.StandsFor (natives : NameTable) (it : Item)
    (words : List Word) : Prop where
  instruction : ∃ operand op, it.form = .instruction operand ∧
    Opcode.ofName? it.name = some op
  encode : it.encode natives = .ok words

namespace Shown

theorem text_data (w : Word) :
    (data w).text = Text.ofString ".word" ++ Text.space :: w.toText := rfl

theorem text_cut (op : Opcode) :
    (cut op).text = op.name ++ Text.space :: Text.ofString "???" := rfl

theorem plainWord_directive : Text.PlainWord (Text.ofString ".word") :=
  .of_all (by decide) (by decide)

theorem plainWord_marks : Text.PlainWord (Text.ofString "???") :=
  .of_all (by decide) (by decide)

/-- An operand is the number itself, or the name of the function that a call
goes to. -/
theorem operand_cases (op : Opcode) (immediate : Word) :
    operand op immediate = immediate.toText ∨
      operand op immediate = Text.ofString "printf" ∧
        immediate = NativeAddress.printf := by
  rw [operand]
  split
  next name found =>
    split at found
    next =>
      obtain ⟨rfl, rfl⟩ := NativeAddress.name?_eq_some found
      exact .inr ⟨rfl, rfl⟩
    next => cases found
  next => exact .inl rfl

theorem plainWord_operand (op : Opcode) (immediate : Word) :
    Text.PlainWord (operand op immediate) := by
  rcases operand_cases op immediate with number | ⟨name, -⟩
  · rw [number]
    exact immediate.plainWord_toText
  · rw [name]
    exact .of_all (by decide) (by decide)

/-- An operand is read as the word that it shows. -/
theorem operand_reads (op : Opcode) (immediate : Word) (p : Place)
    (offset : Nat) :
    ∃ o, p.operand ⟨operand op immediate, offset⟩ = .ok o ∧
      o.word NativeAddress.standard = .ok immediate := by
  rcases operand_cases op immediate with number | ⟨name, rfl⟩
  · rw [number]
    refine ⟨⟨p.offset offset, .numeral (.integer immediate)⟩, ?_, rfl⟩
    simp only [Place.operand, Numeral.startsNumber_toText, if_true,
      Place.numeral, Numeral.read_toText]
    rfl
  · rw [name]
    exact ⟨⟨p.offset offset, .name (Text.ofString "printf")⟩, rfl, rfl⟩

/-- The line of an instruction is read as that instruction. -/
theorem readLine_of_readable {s : Shown}
    (readable : s.isReadable = true) (p : Place) :
    ∃ it, readLine p s.text = ⟨[it], none⟩ ∧
      it.StandsFor NativeAddress.standard s.words := by
  cases s with
  | data | cut => cases readable
  | plain op alone =>
      refine ⟨{ pos := p.offset 0, name := op.name, form := .instruction none },
        ?_, ⟨none, op, rfl, op.ofName?_name⟩, ?_⟩
      · rw [text, readLine_word p op.plainWord_name]
        simp only [op.startsNumber_name, Place.instruction,
          op.isIdentifier_name]
        rfl
      · simp only [Item.encode, encodeInstruction,
          op.ofName?_name, alone, words]
  | full op immediate takes =>
      obtain ⟨o, read, word⟩ :=
        operand_reads op immediate p (op.name.length + 1)
      refine ⟨⟨p.offset 0, op.name, .instruction (some o)⟩, ?_,
        ⟨some o, op, rfl, op.ofName?_name⟩, ?_⟩
      · rw [text, readLine_two_words p op.plainWord_name
          (plainWord_operand op immediate)]
        simp only [op.startsNumber_name, Place.instruction,
          op.isIdentifier_name, read]
        rfl
      · simp only [Item.encode, encodeInstruction, op.ofName?_name,
          takes, word, words]
        rfl

/-- The line of anything else is malformed. -/
theorem readLine_of_unreadable {s : Shown}
    (unreadable : s.isReadable = false) (p : Place) :
    ∃ problem, readLine p s.text = ⟨[], some problem⟩ ∧
      problem.cause = .malformedSource := by
  cases s with
  | plain | full => cases unreadable
  | data w =>
      rw [text_data, readLine_two_words p plainWord_directive
        w.plainWord_toText]
      exact ⟨_, rfl, rfl⟩
  | cut op =>
      rw [text_cut, readLine_two_words p op.plainWord_name plainWord_marks]
      simp only [op.startsNumber_name, Place.instruction, op.isIdentifier_name]
      exact ⟨_, rfl, rfl⟩

theorem plain_text (s : Shown) :
    ∀ b ∈ s.text, Text.isPlain b = true ∨ b = Text.space := by
  cases s with
  | data w =>
      rw [text_data]
      exact plain_append plainWord_directive (plain_space w.plainWord_toText)
  | cut op =>
      rw [text_cut]
      exact plain_append op.plainWord_name (plain_space plainWord_marks)
  | plain op _ => exact fun b member => .inl (op.plainWord_name.plain b member)
  | full op immediate _ =>
      exact plain_append op.plainWord_name
        (plain_space (plainWord_operand op immediate))

theorem length_operand_le (op : Opcode) (immediate : Word) :
    (operand op immediate).length ≤ 20 := by
  rcases operand_cases op immediate with number | ⟨name, -⟩
  · rw [number]
    exact immediate.length_toText_le
  · rw [name]
    decide

theorem length_text_lt (s : Shown) : s.text.length < maxLineLength := by
  have limit : 30 < maxLineLength := by decide
  refine Nat.lt_of_le_of_lt ?_ limit
  cases s with
  | data w =>
      have digits := w.length_toText_le
      have directive : (Text.ofString ".word").length = 5 := rfl
      rw [text_data, List.length_append, List.length_cons]
      omega
  | cut op =>
      have letters := op.length_name_le
      have marks : (Text.ofString "???").length = 3 := rfl
      rw [text_cut, List.length_append, List.length_cons]
      omega
  | plain op _ => exact Nat.le_trans op.length_name_le (by decide)
  | full op immediate _ =>
      have letters := op.length_name_le
      have digits := length_operand_le op immediate
      rw [text, List.length_append, List.length_cons]
      omega

end Shown

/-! ## Sources -/

/-- A line of a text ends at the separator behind it. -/
theorem splitFrom_line {separator : UInt8} {line : Text}
    (unbroken : ∀ b ∈ line, b ≠ separator) (rest current : Text)
    (done : List Text) :
    Text.splitFrom separator (line ++ separator :: rest) current done =
      Text.splitFrom separator rest [] ((current.reverse ++ line) :: done) := by
  induction line generalizing current with
  | nil => simp [Text.splitFrom]
  | cons b line ih =>
      rw [List.cons_append, Text.splitFrom,
        if_neg (unbroken b List.mem_cons_self), ih fun other member =>
          unbroken other (List.mem_cons_of_mem b member)]
      simp

theorem splitFrom_lines {separator : UInt8} {lines : List Text}
    (unbroken : ∀ line ∈ lines, ∀ b ∈ line, b ≠ separator) (done : List Text) :
    Text.splitFrom separator (lines.flatMap (· ++ [separator])) [] done =
      done.reverse ++ lines ++ [[]] := by
  induction lines generalizing done with
  | nil => simp [Text.splitFrom]
  | cons line lines ih =>
      have first := unbroken line List.mem_cons_self
      have later := fun other member =>
        unbroken other (List.mem_cons_of_mem line member)
      rw [List.flatMap_cons, List.append_assoc, List.singleton_append,
        splitFrom_line first, ih later]
      simp

/-- The lines of a source are those that it was put together from. -/
theorem sourceLines_lines {lines : List Text}
    (unbroken : ∀ line ∈ lines, ∀ b ∈ line, b ≠ Text.newline) :
    sourceLines (lines.flatMap (· ++ [Text.newline])) = lines := by
  have split : Text.lines (lines.flatMap (· ++ [Text.newline])) =
      lines ++ [[]] :=
    splitFrom_lines unbroken []
  simp only [sourceLines, split, List.getLast?_concat, if_true,
    List.dropLast_concat]

theorem linkFrom_unlabelled (labels natives : NameTable) {items : List Item}
    (unlabelled : declared items = []) (table : NameTable)
    (found : List Problem) :
    linkFrom labels natives items table found = ⟨table, found.reverse⟩ := by
  induction items with
  | nil => rfl
  | cons it rest ih =>
      rw [declared_cons, List.append_eq_nil_iff] at unlabelled
      cases form : it.form with
      | label => simp [Item.label?, form] at unlabelled
      | instruction | data | string | unknown =>
          simp only [linkFrom, form]
          exact ih unlabelled.2

/-- A source of instructions is assembled into their words. -/
theorem assemble_instructions {name source : Text} {natives : NameTable}
    (short : ∀ line ∈ sourceLines source, line.length < maxLineLength)
    (readings : ∀ reading ∈ lineReadings name source, reading.problem? = none)
    (items : ∀ it ∈ sourceItems name source, ∃ words,
      it.StandsFor natives words) :
    ∃ assembled, assemble name source natives = .ok assembled ∧
      assembled.code.toList = (sourceItems name source).flatMap
      (Item.words natives) := by
  have notLabel : ∀ it ∈ sourceItems name source, it.label? = none := by
    intro it member
    obtain ⟨words, ⟨operand, op, form, -⟩, -⟩ := items it member
    rw [Item.label?, form]
  have unlabelled : declared (sourceItems name source) = [] :=
    List.filterMap_eq_nil_iff.mpr notLabel
  have defined : isDefined name source natives = natives.contains := by
    funext target
    simp [isDefined, unlabelled]
  have encodes : ∀ it ∈ sourceItems name source,
      emitOffence? natives.contains it = none := by
    intro it member
    obtain ⟨words, stands⟩ := items it member
    rw [emitOffence?_eq_encode, stands.encode]
  have clean : ∀ pass, offences name source natives pass = [] := by
    intro pass
    cases pass with
    | reading => exact List.filterMap_eq_nil_iff.mpr readings
    | layout =>
        refine (layoutOffences_eq_nil [] fun it =>
          sourceItems_onLine).mpr ⟨⟨?_, ?_⟩, ?_⟩
        · rw [unlabelled]
          exact List.forall_mem_nil _
        · rw [unlabelled]
          exact List.nodup_nil
        · intro it member operand form
          obtain ⟨words, ⟨-, op, -, found⟩, -⟩ := items it member
          exact ⟨op, found⟩
    | linking =>
        refine List.filterMap_eq_nil_iff.mpr ?_
        intro it member
        rw [linkOffence?_eq_none, notLabel it member]
        intro label impossible
        cases impossible
    | emission =>
        rw [offences, defined]
        exact List.filterMap_eq_nil_iff.mpr encodes
  rcases assemble_of_offences natives short with
    ⟨pass, -, offended, -⟩ | ⟨-, assembled, accepted⟩
  · exact absurd (clean pass) offended
  · refine ⟨assembled, accepted, ?_⟩
    obtain ⟨program, -, code, -, -, -⟩ := assemble_ok accepted
    have items : assembled.program.items = sourceItems name source := by
      rw [program]
    rw [code, Program.emit, Program.link,
      linkFrom_unlabelled _ _ (items ▸ unlabelled), items,
      emitFrom_code #[] encodes]
    simp

/-! ## The sweep as a source -/

/-- The lines of a sweep are what it shows. -/
theorem sourceLines_sweep (code : Array Word) :
    sourceLines (sweep code) = (decode code.toList).map Shown.text := by
  have unbroken : ∀ line ∈ (decode code.toList).map Shown.text, ∀ b ∈ line,
      b ≠ Text.newline := by
    intro line member b inside
    obtain ⟨s, -, rfl⟩ := List.mem_map.mp member
    rintro rfl
    rcases s.plain_text _ inside with plain | space
    · cases plain
    · cases space
  have lines : sourceLines
      (((decode code.toList).map Shown.text).flatMap (· ++ [Text.newline])) =
        _ :=
    sourceLines_lines unbroken
  rw [List.flatMap_map] at lines
  rw [text_sweep, lines]

theorem Shown.withoutReturn_text (s : Shown) :
    withoutReturn s.text = s.text := by
  rw [withoutReturn, if_neg]
  intro last
  rcases s.plain_text _ (List.mem_of_getLast? last) with plain | space
  · cases plain
  · cases space

section Readings

variable {name : Text} {shown : List Shown} {number : Nat}

/-- What the lines from the one with the given number on yield. -/
abbrev shownReadings (name : Text) (shown : List Shown) (number : Nat) :
    List LineReading :=
  readingsFrom name (shown.map Shown.text) number

theorem shownReadings_cons (s : Shown) :
    shownReadings name (s :: shown) number =
      readLine ⟨name, number⟩ s.text ::
        shownReadings name shown (number + 1) := by
  rw [shownReadings, List.map_cons, readingsFrom, s.withoutReturn_text]

theorem mem_shownReadings {reading : LineReading}
    (member : reading ∈ shownReadings name shown number) :
    ∃ s ∈ shown, ∃ p, reading = readLine p s.text := by
  induction shown generalizing number with
  | nil => cases member
  | cons s shown ih =>
      rw [shownReadings_cons] at member
      rcases List.mem_cons.mp member with own | later
      · exact ⟨s, List.mem_cons_self, _, own⟩
      · obtain ⟨other, inside, p, read⟩ := ih later
        exact ⟨other, List.mem_cons_of_mem s inside, p, read⟩

theorem exists_mem_shownReadings {s : Shown} (member : s ∈ shown) :
    ∃ p, readLine p s.text ∈ shownReadings name shown number := by
  induction shown generalizing number with
  | nil => cases member
  | cons first shown ih =>
      rw [shownReadings_cons]
      rcases List.mem_cons.mp member with rfl | later
      · exact ⟨_, List.mem_cons_self⟩
      · obtain ⟨p, inside⟩ := ih later
        exact ⟨p, List.mem_cons_of_mem _ inside⟩

/-- Instructions are read as items that stand for the words shown. -/
theorem flatMap_words_shownReadings
    (readable : ∀ s ∈ shown, s.isReadable = true) :
    ((shownReadings name shown number).flatMap LineReading.items).flatMap
        (Item.words NativeAddress.standard) = shown.flatMap Shown.words := by
  induction shown generalizing number with
  | nil => rfl
  | cons s shown ih =>
      obtain ⟨it, read, stands⟩ :=
        Shown.readLine_of_readable (readable s List.mem_cons_self)
        ⟨name, number⟩
      have own : it.words NativeAddress.standard = s.words := by
        rw [Item.words, stands.encode]
      have later := fun other member =>
        readable other (List.mem_cons_of_mem s member)
      rw [shownReadings_cons, read, List.flatMap_cons,
        List.flatMap_append, ih later, List.flatMap_cons]
      simp [own]

end Readings

theorem lineReadings_sweep (name : Text) (code : Array Word) :
    lineReadings name (sweep code) =
      shownReadings name (decode code.toList) 1 := by
  rw [lineReadings, sourceLines_sweep]

theorem short_sweep (code : Array Word) :
    ∀ line ∈ sourceLines (sweep code), line.length < maxLineLength := by
  rw [sourceLines_sweep]
  intro line member
  obtain ⟨s, -, rfl⟩ := List.mem_map.mp member
  exact s.length_text_lt

/-- A sweep that shows instructions only is assembled into the program. -/
theorem assemble_sweep_of_readable (name : Text) {code : Array Word}
    (readable : ∀ s ∈ decode code.toList, s.isReadable = true) :
    ∃ assembled, assemble name (sweep code) NativeAddress.standard =
      .ok assembled ∧ assembled.code = code := by
  have problems : ∀ reading ∈ lineReadings name (sweep code),
      reading.problem? = none := by
    rw [lineReadings_sweep]
    intro reading member
    obtain ⟨s, shown, p, rfl⟩ := mem_shownReadings member
    obtain ⟨it, read, -⟩ := Shown.readLine_of_readable (readable s shown) p
    rw [read]
  have items : ∀ it ∈ sourceItems name (sweep code),
      ∃ words, it.StandsFor NativeAddress.standard words := by
    rw [sourceItems, lineReadings_sweep]
    intro it member
    obtain ⟨reading, inside, own⟩ := List.mem_flatMap.mp member
    obtain ⟨s, shown, p, rfl⟩ := mem_shownReadings inside
    obtain ⟨read, line, stands⟩ :=
      Shown.readLine_of_readable (readable s shown) p
    rw [line, List.mem_singleton] at own
    exact ⟨s.words, own ▸ stands⟩
  obtain ⟨assembled, accepted, words⟩ :=
    assemble_instructions (short_sweep code) problems items
  refine ⟨assembled, accepted, Array.ext' ?_⟩
  rw [words, sourceItems, lineReadings_sweep,
    flatMap_words_shownReadings readable, flatMap_words_decode]

/-- A sweep that shows anything else is refused. -/
theorem assemble_sweep_of_unreadable (name : Text)
    {code : Array Word} {s : Shown} (shown : s ∈ decode code.toList)
    (unreadable : s.isReadable = false) :
    ∃ problems, assemble name (sweep code) NativeAddress.standard =
        .error (.problems problems) ∧
      problems ≠ [] ∧ ∀ problem ∈ problems,
        problem.cause = .malformedSource := by
  have reported : offences name (sweep code) NativeAddress.standard .reading ≠
      [] := by
    obtain ⟨p, member⟩ := exists_mem_shownReadings shown
    obtain ⟨problem, read, -⟩ := Shown.readLine_of_unreadable unreadable p
    rw [offences, lineReadings_sweep]
    exact List.ne_nil_of_mem (List.mem_filterMap.mpr ⟨_, member, by rw [read]⟩)
  have causes : ∀ problem ∈
      offences name (sweep code) NativeAddress.standard .reading,
      problem.cause = .malformedSource := by
    rw [offences, lineReadings_sweep]
    intro problem member
    obtain ⟨reading, inside, own⟩ := List.mem_filterMap.mp member
    obtain ⟨other, -, p, rfl⟩ := mem_shownReadings inside
    cases readable : other.isReadable with
    | true =>
        obtain ⟨it, read, -⟩ := Shown.readLine_of_readable readable p
        rw [read] at own
        cases own
    | false =>
        obtain ⟨found, read, cause⟩ := Shown.readLine_of_unreadable readable p
        rw [read] at own
        cases own
        exact cause
  rcases assemble_of_offences NativeAddress.standard (short_sweep code) with
    ⟨pass, earlier, offended, failed⟩ | ⟨clean, -⟩
  · cases pass with
    | reading =>
        refine ⟨_, failed, mt take_maxProblems_eq_nil.mp offended, ?_⟩
        intro problem member
        exact causes problem (List.mem_of_mem_take member)
    | layout | linking | emission =>
        exact absurd (earlier .reading (by decide)) reported
  · exact absurd (clean .reading) reported

/-! ## Programs without data -/

theorem decode_words_append {s : Shown} (readable : s.isReadable = true)
    (rest : List Word) :
    decode (s.words ++ rest) = s :: decode rest := by
  cases s with
  | data | cut => cases readable
  | plain op alone => simp [Shown.words, decode, op.ofWord?_code, alone]
  | full op immediate takes =>
      simp [Shown.words, decode, op.ofWord?_code, takes]

/-- The words of an instruction are shown as one. -/
theorem encodeInstruction_shown {table : NameTable} {pos : Position}
    {mnemonic : Text} {operand : Option Operand} {words : List Word}
    (encoded : encodeInstruction table pos mnemonic operand = .ok words) :
    ∃ s : Shown, s.isReadable = true ∧ words = s.words := by
  rw [encodeInstruction] at encoded
  cases found : Opcode.ofName? mnemonic with
  | none => simp [found] at encoded
  | some op =>
      cases takes : op.info.immediate with
      | false =>
          cases operand with
          | none =>
              simp only [found, takes, Except.ok.injEq] at encoded
              exact ⟨.plain op takes, rfl, encoded.symm⟩
          | some o => simp [found, takes] at encoded
      | true =>
          cases operand with
          | none => simp [found, takes] at encoded
          | some o =>
              simp only [found, takes] at encoded
              cases word : o.word table with
              | ok immediate =>
                  rw [word] at encoded
                  cases encoded
                  exact ⟨.full op immediate takes, rfl, rfl⟩
              | error problem =>
                  rw [word] at encoded
                  cases encoded

/-- An item of a program without data is a label or an instruction. -/
def Item.IsCode (it : Item) : Prop :=
  it.form = .label ∨ ∃ operand, it.form = .instruction operand

theorem readable_of_items {table : NameTable} {items : List Item}
    (code : ∀ it ∈ items, it.IsCode)
    (clean : ∀ it ∈ items, emitOffence? table.contains it = none) :
    ∀ s ∈ decode (items.flatMap (Item.words table)), s.isReadable = true := by
  induction items with
  | nil => nofun
  | cons it items ih =>
      have later := ih (fun other member =>
        code other (List.mem_cons_of_mem it member))
        (fun other member => clean other (List.mem_cons_of_mem it member))
      have encoded := encode_of_clean (clean it List.mem_cons_self)
      rw [List.flatMap_cons]
      rcases code it List.mem_cons_self with label | ⟨operand, instruction⟩
      · have wordless : it.words table = [] := by
          rw [Item.words, Item.encode, label]
        rwa [wordless]
      · rw [Item.encode, instruction] at encoded
        obtain ⟨s, readable, words⟩ := encodeInstruction_shown encoded
        rw [words, decode_words_append readable]
        exact List.forall_mem_cons.mpr ⟨readable, later⟩

/-- Disassembling and assembling again does not change a program.  What a sweep
shows of any words is assembled into the same words, unless the sweep comes to
an address without an instruction; then the source is malformed there.  A
program that was assembled from labels and instructions has no such address. -/
theorem sweep_reassembles (name : Text) :
    (∀ code : Array Word,
      ((∀ address, Swept code address → ¬ Unreadable code address) →
        ∃ assembled, assemble name (sweep code) NativeAddress.standard =
          .ok assembled ∧ assembled.code = code) ∧
      ((∃ address, Swept code address ∧ Unreadable code address) →
        ∃ problems, assemble name (sweep code) NativeAddress.standard =
            .error (.problems problems) ∧
          problems ≠ [] ∧ ∀ problem ∈ problems,
            problem.cause = .malformedSource)) ∧
    ∀ (file source : Text) (natives : NameTable) (assembled : Assembled),
      assemble file source natives = .ok assembled →
      (∀ it ∈ assembled.program.items, it.IsCode) →
      ∃ again, assemble name (sweep assembled.code) NativeAddress.standard =
        .ok again ∧ again.code = assembled.code := by
  refine ⟨?_, ?_⟩
  · intro code
    refine ⟨?_, ?_⟩
    · intro readable
      apply assemble_sweep_of_readable
      intro s shown
      apply Bool.of_not_eq_false
      intro unreadable
      obtain ⟨address, swept, bad⟩ :=
        (exists_unreadable_iff code).mpr ⟨s, shown, unreadable⟩
      exact readable address swept bad
    · intro met
      obtain ⟨s, shown, unreadable⟩ := (exists_unreadable_iff code).mp met
      exact assemble_sweep_of_unreadable name shown unreadable
  · intro file source natives assembled accepted items
    obtain ⟨-, -, code, -, -, emitted⟩ := assemble_ok accepted
    have clean := emitFrom_clean emitted
    apply assemble_sweep_of_readable
    rw [code, Program.emit, emitFrom_code #[] clean]
    simpa using readable_of_items items clean

/-- The least immediate, a call that is shown by name and the same address as a
number. -/
def extremes : Array Word :=
  #[Opcode.loads.code, Int64.minValue, Opcode.call.code, NativeAddress.printf,
    Opcode.jump.code, NativeAddress.printf, Opcode.halt.code]

/-- The program `extremes`, the same cut before its last immediate, and a loop
that was assembled. -/
theorem sweep_reassembles_extremes :
    ((∀ address, Swept extremes address → ¬ Unreadable extremes address) ∧
      ∃ assembled, assemble [] (sweep extremes) NativeAddress.standard =
        .ok assembled ∧ assembled.code = extremes) ∧
    (Swept (extremes.take 5) 4 ∧ Unreadable (extremes.take 5) 4 ∧
      ∃ problems, assemble [] (sweep (extremes.take 5)) NativeAddress.standard =
          .error (.problems problems) ∧
        problems ≠ [] ∧ ∀ problem ∈ problems,
          problem.cause = .malformedSource) ∧
    ∃ assembled again,
      assemble [] (Text.ofString "loop:\njump loop\n") .empty = .ok assembled ∧
      (∀ it ∈ assembled.program.items, it.IsCode) ∧
      assemble [] (sweep assembled.code) NativeAddress.standard = .ok again ∧
      again.code = assembled.code := by
  obtain ⟨words, programs⟩ := sweep_reassembles []
  have readable : ∀ address, Swept extremes address →
      ¬ Unreadable extremes address := by
    have shown : ¬ ∃ s ∈ decode extremes.toList,
        s.isReadable = false := by decide
    rw [← exists_unreadable_iff] at shown
    exact fun address swept unreadable => shown ⟨address, swept, unreadable⟩
  have swept : Swept (extremes.take 5) 4 :=
    .next (.next .start (by decide)) (by decide)
  have cut : Unreadable (extremes.take 5) 4 := .cut rfl rfl rfl rfl
  obtain ⟨assembled, accepted, items⟩ : ∃ assembled,
      assemble [] (Text.ofString "loop:\njump loop\n") .empty = .ok assembled ∧
        ∀ it ∈ assembled.program.items, it.IsCode := by
    refine ⟨_, rfl, ?_⟩
    refine List.forall_mem_cons.mpr ⟨.inl rfl, ?_⟩
    exact List.forall_mem_cons.mpr ⟨.inr ⟨_, rfl⟩, List.forall_mem_nil _⟩
  obtain ⟨again, reassembled, same⟩ := programs [] _ _ assembled accepted items
  exact ⟨⟨readable, (words extremes).1 readable⟩,
    ⟨swept, cut, (words _).2 ⟨4, swept, cut⟩⟩, assembled, again, accepted,
    items, reassembled, same⟩

end Assembly

end WordMachine
