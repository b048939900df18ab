import WordMachine.Proofs.Assembly.Mentions
import WordMachine.Proofs.Editor.Agreement
import WordMachine.Proofs.Editor.LatestText

/-!
# Navigation from every column of a name

The assembler finds names by splitting lines into tokens, and an editor finds
them again by looking at the bytes around the cursor.  On a line of ASCII bytes
both find the same: from every column of a name, up to the one behind its last
byte, its declaration and its uses are found.
-/

namespace WordMachine.Editor

open Assembly

/-! ## Words on ASCII lines -/

theorem isWordByte_of_isIdentifierChar : ∀ b : UInt8, b < 0x80 →
    isIdentifierChar (Char.ofNat b.toNat) = true → isWordByte b = true :=
  Text.byte_forall (by decide +kernel)

theorem isWordByte_of_isBlank : ∀ b : UInt8, b < 0x80 →
    Text.isBlank (Char.ofNat b.toNat) = true → isWordByte b = false :=
  Text.byte_forall (by decide +kernel)

/-- The bytes of an identifier stand in words. -/
theorem isWordByte_of_isIdentifier {name : Text}
    (identifier : isIdentifier name = true) (ascii : ∀ b ∈ name, b < 0x80) :
    ∀ b ∈ name, isWordByte b = true := by
  intro b member
  cases name with
  | nil => cases member
  | cons first others =>
      rw [isIdentifier, Bool.and_eq_true] at identifier
      exact isWordByte_of_isIdentifierChar b (ascii b member)
        (Text.of_mem_of_allChars identifier.2 member (ascii b member))

/-- A word ends where a token does. -/
theorem isWordByte_of_endsToken {b : UInt8} {rest : Text}
    (ends : EndsToken (b :: rest))
    (ascii : b < 0x80) : isWordByte b = false := by
  rcases ends with startsBlank | endsCode
  · rw [StartsBlank, Text.spanLength_ascii _ ascii] at startsBlank
    apply isWordByte_of_isBlank b ascii
    cases blank : Text.isBlank (Char.ofNat b.toNat) with
    | true => rfl
    | false =>
        rw [blank] at startsBlank
        exact absurd startsBlank (by simp)
  · rcases endsCode b rfl with rfl | rfl
    · decide +kernel
    · decide +kernel

/-- On an ASCII line a mention of a name is a whole word. -/
theorem bounds_of_mentions {p : Place} {line name : Text} {pos : Position}
    (mentions : p.Mentions line pos name) (ascii : ∀ b ∈ line, b < 0x80) :
    ∃ front rest, line = front ++ (name ++ rest) ∧ pos = p.offset front.length ∧
      (∀ b ∈ name, isWordByte b = true) ∧
      (∀ b, front.getLast? = some b → isWordByte b = false) ∧
      ∀ b, rest.head? = some b → isWordByte b = false := by
  obtain ⟨identifier, front, blank, rest, rfl, apart, position, ends⟩ :=
    mentions
  refine ⟨front ++ blank.text, rest, rfl, position, ?_, ?_, ?_⟩
  · apply isWordByte_of_isIdentifier identifier
    intro b member
    exact ascii b (by simp [member])
  · intro b last
    have member : b ∈ blank.text := by
      rcases apart with rfl | nonempty
      · exact List.mem_of_getLast? last
      · rw [List.getLast?_append, List.getLast?_eq_some_getLast nonempty,
          Option.some_or] at last
        cases last
        exact List.getLast_mem nonempty
    have small : b < 0x80 := ascii b (by simp [member])
    exact isWordByte_of_isBlank b small
      (Text.of_mem_of_allChars blank.allBlank member small)
  · intro b first
    obtain ⟨later, rfl⟩ := List.head?_eq_some_iff.mp first
    rcases ends with token | colon
    · exact isWordByte_of_endsToken token (ascii b (by simp))
    · cases colon
      decide +kernel

/-! ## The word at the cursor -/

theorem takeWhile_of_boundary {p : UInt8 → Bool} {word rest : Text}
    (inside : ∀ b ∈ word, p b = true)
    (boundary : ∀ b, rest.head? = some b → p b = false) :
    (word ++ rest).takeWhile p = word := by
  rw [List.takeWhile_append_of_pos inside]
  cases rest with
  | nil => exact List.append_nil word
  | cons b later =>
      rw [List.takeWhile_cons_of_neg (by simp [boundary b rfl]),
        List.append_nil]

/-- With the cursor on a whole word, or right behind it, this is the word at the
cursor. -/
theorem word_of_bounds {cursor : Cursor} {text front name rest : Text}
    (found : text.lines[cursor.line]? = some (front ++ (name ++ rest)))
    (inside : ∀ b ∈ name, isWordByte b = true)
    (left : ∀ b, front.getLast? = some b → isWordByte b = false)
    (right : ∀ b, rest.head? = some b → isWordByte b = false)
    (first : front.length ≤ cursor.column)
    (last : cursor.column ≤ front.length + name.length) :
    cursor.word text = name := by
  obtain ⟨n, offset⟩ := Nat.exists_eq_add_of_le first
  have within : n ≤ name.length := by omega
  have split : cursor.split text =
      (front ++ name.take n, name.drop n ++ rest) := by
    simp only [Cursor.split, found, offset, List.take_length_add_append,
      List.drop_length_add_append, List.take_append_of_le_length within,
      List.drop_append_of_le_length within]
  have before : ((front ++ name.take n).reverse.takeWhile isWordByte).reverse =
      name.take n := by
    rw [List.reverse_append, takeWhile_of_boundary, List.reverse_reverse]
    · intro b member
      exact inside b (List.mem_of_mem_take (List.mem_reverse.mp member))
    · intro b head
      rw [List.head?_reverse] at head
      exact left b head
  have behind : (name.drop n ++ rest).takeWhile isWordByte = name.drop n :=
    takeWhile_of_boundary (fun b member =>
      inside b (List.mem_of_mem_drop member)) right
  rw [Cursor.word, Cursor.wordBefore, split, before, behind,
    List.take_append_drop]

/-! ## Documents -/

/-- Where the bytes of a name at a position are.  The number of the line has 32
bits. -/
def nameLocation (uri name : Text) (pos : Position) : Location :=
  ⟨uri, wrap32 (pos.line - 1).toNat, (pos.column - 1).toNat,
    (pos.column - 1).toNat + name.length⟩

/-- The name stands in the text at the position. -/
def ShownAt (text name : Text) (pos : Position) : Prop :=
  1 ≤ pos.line ∧ 1 ≤ pos.column ∧ ∃ line,
  text.lines[(pos.line - 1).toNat]? = some line ∧
    name <+: line.drop (pos.column - 1).toNat

theorem toNat_line_offset (file : Text) (k n : Nat) :
    (((Place.mk file (k + 1)).offset n).line - 1).toNat = k := by
  simp [Place.offset]

theorem toNat_column_offset (p : Place) (n : Nat) :
    ((p.offset n).column - 1).toNat = n := by
  simp [Place.offset]

/-- The analysis of a document that can be read is about the program that is
read. -/
theorem Analysis.of_read {uri text : Text} {reading : Reading}
    (parsed : read uri text = .ok reading) :
    (Analysis.ofText uri text).uri = uri ∧
      (Analysis.ofText uri text).program = reading.program := by
  have analyzed := Analysis.ofText_of_read parsed
  dsimp only at analyzed
  rw [analyzed]
  split
  next =>
    split
    next =>
      split
      next => exact ⟨rfl, rfl⟩
      next => exact ⟨rfl, rfl⟩
    next => exact ⟨rfl, rfl⟩
  next => exact ⟨rfl, rfl⟩

section Document

variable {uri text : Text} {reading : Reading}
  (parsed : read uri text = .ok reading) {name : Text} {pos : Position}
  (mentioned : pos ∈ reading.program.labelPositions name ++
    reading.program.operandPositions name)

include parsed mentioned

theorem name_ne_nil_of_mentioned : name ≠ [] := by
  obtain ⟨k, line, -, -, identifier, -⟩ := mentions_of_read parsed mentioned
  rintro rfl
  cases identifier

theorem shownAt_of_mentioned : ShownAt text name pos := by
  obtain ⟨k, line, found, -, -, front, blank, rest, rfl, -, rfl, -⟩ :=
    mentions_of_read parsed mentioned
  rw [ShownAt, toNat_line_offset, toNat_column_offset]
  refine ⟨?_, ?_, _, found, ?_⟩
  · simp only [Place.offset]
    omega
  · simp only [Place.offset]
    omega
  · rw [List.drop_left]
    exact List.prefix_append name rest

theorem locate_eq_nameLocation :
    (Analysis.ofText uri text).locate pos name = nameLocation uri name pos := by
  obtain ⟨k, line, found, short, -, front, blank, rest, rfl, -, rfl, -⟩ :=
    mentions_of_read parsed mentioned
  have within : (front ++ blank.text).length + name.length < Nat.pow 2 32 := by
    refine Nat.lt_of_le_of_lt ?_ (Nat.lt_trans short (by decide))
    simp only [List.length_append]
    omega
  rw [Analysis.locate, (Analysis.of_read parsed).1, spanAt, nameLocation,
    toNat_column_offset, Int.toNat_natCast, wrap32, wrap32, wrap32,
    Nat.mod_eq_of_lt within,
    Nat.mod_eq_of_lt (Nat.lt_of_le_of_lt (Nat.le_add_right _ _) within)]

/-- The word at every column of a mention on an ASCII line is the name. -/
theorem word_of_mentioned {column : Nat}
    (ascii : ∀ line, text.lines[(pos.line - 1).toNat]? = some line →
      ∀ b ∈ line, b < 0x80)
    (first : pos.column ≤ column + 1)
    (last : column + 1 ≤ pos.column + name.length) :
    (Cursor.mk (pos.line - 1).toNat column).word text = name := by
  obtain ⟨k, line, found, -, mentions⟩ := mentions_of_read parsed mentioned
  have number : (pos.line - 1).toNat = k := by
    obtain ⟨-, front, blank, rest, -, -, rfl, -⟩ := mentions
    exact toNat_line_offset uri k _
  rw [number] at ascii ⊢
  obtain ⟨front, rest, rfl, rfl, inside, left, right⟩ :=
    bounds_of_mentions mentions (ascii line found)
  simp only [Place.offset] at first last
  apply word_of_bounds found inside left right
  · dsimp only
    omega
  · dsimp only
    omega

end Document

/-! ## Answers -/

theorem declarations_eq {a : Analysis} {name : Text} {first : Position}
    {others : List Position}
    (declared : a.program.labelPositions name = first :: others) :
    a.declarations name = [a.locate first name] := by
  obtain ⟨it, rest, labels, rfl, -⟩ := List.map_eq_cons_iff.mp declared
  have found : a.declaration? name = some it := by
    rw [Analysis.declaration?, ← List.head?_filter, labels]
    rfl
  have declares := List.find?_some found
  obtain ⟨-, named⟩ := label?_eq_some.mp (eq_of_beq declares)
  rw [Analysis.declarations, found, Option.toList_some,
    List.map_singleton, named]

theorem useLocations_eq (a : Analysis) (name : Text) :
    a.useLocations name =
      (a.program.operandPositions name).map (a.locate · name) := by
  rw [Analysis.useLocations, Program.operandPositions, List.map_map,
    List.filter_filterMap]
  rfl

section Answers

variable {uri text : Text} {reading : Reading}
  (parsed : read uri text = .ok reading)

include parsed

theorem declarations_ofText {name : Text} {first : Position}
    {others : List Position}
    (declared : reading.program.labelPositions name = first :: others) :
    (Analysis.ofText uri text).declarations name =
      [nameLocation uri name first] := by
  have member : first ∈ reading.program.labelPositions name ++
      reading.program.operandPositions name := by
    rw [declared]
    exact List.mem_cons_self
  rw [← (Analysis.of_read parsed).2] at declared
  rw [declarations_eq declared, locate_eq_nameLocation parsed member]

theorem useLocations_ofText (name : Text) :
    (Analysis.ofText uri text).useLocations name =
      (reading.program.operandPositions name).map (nameLocation uri name) := by
  rw [useLocations_eq, (Analysis.of_read parsed).2]
  apply List.map_congr_left
  intro place member
  exact locate_eq_nameLocation parsed (List.mem_append_right _ member)

end Answers

/-- The reply to a message that makes a call is the one for the texts that the
editor gave last. -/
theorem outcomeAfter_of_call {before : List Message} {m : Message} {call : Call}
    (ongoing : ∀ earlier ∈ before, earlier.method ≠ shutdownMethod)
    (called : m.call? = some call) :
    Session.outcomeAfter before m =
      .ok (call.replyFor (latestText (before.filterMap Message.call?))) := by
  rw [Session.outcomeAfter_eq m ongoing]
  unfold Message.call? at called
  cases made : callOf m.method m.params with
  | error rejection =>
      rw [made] at called
      cases called
  | ok other =>
      rw [made] at called
      cases called
      rfl

/-- A question about the word at a cursor is answered for that word. -/
theorem answerAbout_of_word {uri text word : Text} {wordIn : Text → Text}
    (found : wordIn text = word) (nonempty : word ≠ [])
    (question : Option Analysis → Text → Answer) :
    answerAbout uri (some text) wordIn question =
      question (some (Analysis.ofText uri text)) word := by
  have present : word.isEmpty = false := by simpa using nonempty
  rw [answerAbout, found, present]
  rfl

/-- From every column of a mention of a declared name on an ASCII line, up to
the one behind its last byte, its first declaration and its uses are found.

The document is the one that the editor gave last, also one with problems.  The
places that are answered are those where the name stands in the text, and they
stand in source order. -/
theorem navigation_from_every_column {before : List Message}
    (ongoing : ∀ earlier ∈ before, earlier.method ≠ shutdownMethod)
    {uri text : Text} (latest : latestText (before.filterMap Message.call?)
      uri = some text) {reading : Reading}
    (parsed : read uri text = .ok reading) {name : Text} {first pos : Position}
    {others : List Position}
    (declared : reading.program.labelPositions name = first :: others)
    (mentioned : pos ∈ reading.program.labelPositions name ++
      reading.program.operandPositions name)
    (ascii : ∀ line, text.lines[(pos.line - 1).toNat]? = some line →
      ∀ b ∈ line, b < 0x80)
    {column : Nat} (onFirst : pos.column ≤ column + 1)
    (onLast : column + 1 ≤ pos.column + name.length) :
    let cursor : Cursor := ⟨(pos.line - 1).toNat, column⟩
    (∀ m : Message, m.call? = some (.define uri cursor) →
      Session.outcomeAfter before m =
        .ok (Session.success (.locations [nameLocation uri name first]))) ∧
    (∀ (m : Message) (withDeclaration : Bool),
      m.call? = some (.refer uri cursor withDeclaration) →
      Session.outcomeAfter before m = .ok (Session.success (.locations
        (((if withDeclaration then [first] else []) ++
          reading.program.operandPositions name).map
            (nameLocation uri name))))) ∧
    (∀ place ∈ reading.program.labelPositions name ++
      reading.program.operandPositions name,
      ShownAt text name place) ∧
    (reading.program.labelPositions name).Pairwise Position.Before ∧
    (reading.program.operandPositions name).Pairwise Position.Before := by
  intro cursor
  have word : cursor.word text = name :=
    word_of_mentioned parsed mentioned ascii onFirst onLast
  have nonempty := name_ne_nil_of_mentioned parsed mentioned
  refine ⟨?_, ?_, fun place => shownAt_of_mentioned parsed,
    mentions_before parsed name⟩
  · intro m called
    rw [outcomeAfter_of_call ongoing called, Call.replyFor, latest,
      answerAbout_of_word word nonempty, definition, Option.map_some,
      Option.getD_some, declarations_ofText parsed declared]
    rfl
  · intro m withDeclaration called
    rw [outcomeAfter_of_call ongoing called, Call.replyFor, latest,
      answerAbout_of_word word nonempty, references,
      declarations_ofText parsed declared, useLocations_ofText parsed,
      List.map_append]
    cases withDeclaration with
    | true => rfl
    | false => rfl

/-- A document with a label that is declared twice, and an instruction that does
not exist. -/
def loopText : Text :=
  Text.ofString "loop: frob\r\n\tjump loop;again\nloop:end"

def openLoop : Message :=
  ⟨Text.ofString "textDocument/didOpen",
    .record [("textDocument",
      .record [("uri", .ofString "a"), ("text", .string loopText)])]⟩

/-- A question about the column right behind the operand in the document. -/
def askLoop (method : String) : Message :=
  ⟨Text.ofString method,
    .record [("textDocument", .record [("uri", .ofString "a")]),
      ("position", .record [("line", .ofNat 1), ("character", .ofNat 10)]),
      ("context", .record [("includeDeclaration", .bool true)])]⟩

theorem navigation_from_every_column_loop :
    Session.outcomeAfter [openLoop] (askLoop "textDocument/definition") =
        .ok (Session.success (.locations [⟨Text.ofString "a", ⟨0, 0, 4⟩⟩])) ∧
      Session.outcomeAfter [openLoop] (askLoop "textDocument/references") =
        .ok (Session.success (.locations
          [⟨Text.ofString "a", ⟨0, 0, 4⟩⟩,
            ⟨Text.ofString "a", ⟨1, 6, 10⟩⟩])) := by
  obtain ⟨reading, parsed, labels, operands⟩ : ∃ reading,
      read (Text.ofString "a") loopText = .ok reading ∧
      reading.program.labelPositions (Text.ofString "loop") =
        [⟨Text.ofString "a", 1, 1⟩, ⟨Text.ofString "a", 3, 1⟩] ∧
      reading.program.operandPositions (Text.ofString "loop") =
        [⟨Text.ofString "a", 2, 7⟩] :=
    ⟨_, rfl, by decide +kernel, by decide +kernel⟩
  have ascii : ∀ line, loopText.lines[1]? = some line → ∀ b ∈ line,
      b < 0x80 := by
    intro line found b member
    have all : line.all (fun b => b < 0x80) = true := by
      cases found
      decide
    exact of_decide_eq_true (List.all_eq_true.mp all b member)
  have mentioned : ⟨Text.ofString "a", 2, 7⟩ ∈
      reading.program.labelPositions (Text.ofString "loop") ++
        reading.program.operandPositions (Text.ofString "loop") := by
    rw [operands]
    exact List.mem_append_right _ List.mem_cons_self
  obtain ⟨defined, referred, -⟩ := navigation_from_every_column
    (show ∀ earlier ∈ [openLoop], earlier.method ≠
      shutdownMethod by decide +kernel)
    (show latestText ([openLoop].filterMap Message.call?) (Text.ofString "a") =
      some loopText from rfl)
    parsed labels mentioned ascii (show (7 : Int) ≤ (10 : Nat) + 1 by decide)
    (show ((10 : Nat) : Int) + 1 ≤ 7 + (Text.ofString "loop").length by decide)
  refine ⟨defined (askLoop "textDocument/definition") rfl, ?_⟩
  have found := referred (askLoop "textDocument/references") true rfl
  rw [operands] at found
  exact found

end WordMachine.Editor
