import Mathlib.Algebra.GroupWithZero.Nat
import WordMachine.Proofs.Assembly.Lines
import WordMachine.Proofs.Assembly.Passes
import WordMachine.Proofs.Assembly.Words

/-!
# A program is no longer than its source

Every word of a program is paid for by a byte of the source: a number has at
least one digit, a mnemonic at least as many letters as its instruction has
words, and a string literal two quotes for the zero words behind its characters.
So a source whose length is a machine integer has addresses that are machine
integers.
-/

namespace WordMachine

/-! ## Strings -/

namespace StringLiteral

theorem length_unescapeFrom_le {cs done out : List Char}
    (unescaped : unescapeFrom cs done = .ok out) :
    out.length ≤ done.length + cs.length := by
  fun_induction unescapeFrom cs done with
  | case1 done =>
      simp only [Except.ok.injEq] at unescaped
      simp [← unescaped]
  | case2 => cases unescaped
  | case3 done c rest e escaped ih =>
      have shorter := ih unescaped
      simp only [List.length_cons] at shorter ⊢
      omega
  | case4 => cases unescaped
  | case5 => cases unescaped
  | case6 done c rest notBackslash notEscape notQuote ih =>
      have shorter := ih unescaped
      simp only [List.length_cons] at shorter ⊢
      omega

/-- The words of a literal are not more than its bytes, the quotes included. -/
theorem length_encode_le {literal : Text} {words : List Word}
    (encoded : encode literal = .ok words) : words.length ≤ literal.length := by
  obtain ⟨inner, cs, rfl, unescaped, rfl⟩ := exists_body encoded
  have shorter := length_unescapeFrom_le unescaped
  have characters := Text.length_chars_le inner
  have terminated : (terminator cs.length).length ≤ 2 := by
    rw [terminator]
    split <;> simp
  rw [layout, List.length_append, List.length_map, List.length_cons,
    List.length_append, List.length_singleton]
  rw [List.length_nil] at shorter
  omega

end StringLiteral

/-! ## Mnemonics -/

namespace Opcode

/-- A mnemonic has at least as many letters as its instruction has words. -/
theorem width_le_length_name (op : Opcode) : op.width ≤ op.name.length := by
  cases op <;> decide

theorem name_of_ofName? {name : Text} {op : Opcode}
    (found : ofName? name = some op) :
    op.name = name := by
  have matched := Array.find?_some found
  simpa using matched

end Opcode

namespace Assembly

/-- The number of words an item takes, zero if it has no size. -/
def Item.extent (it : Item) : Nat :=
  match it.size with
  | .ok n => n
  | .error _ => 0

def totalExtent (items : List Item) : Nat :=
  (items.map Item.extent).sum

@[simp] theorem totalExtent_nil : totalExtent [] = 0 := rfl

@[simp] theorem totalExtent_cons (it : Item) (rest : List Item) :
    totalExtent (it :: rest) = it.extent + totalExtent rest := rfl

@[simp] theorem totalExtent_append (front back : List Item) :
    totalExtent (front ++ back) = totalExtent front + totalExtent back := by
  simp [totalExtent]

/-! ## Lines -/

theorem extent_string_le (pos : Position) (literal : Text) :
    Item.extent { pos, form := .string literal } ≤ literal.length := by
  cases encoded : StringLiteral.encode literal with
  | error fault =>
      simp [Item.extent, Item.size, StringLiteral.size, encoded, Except.map]
  | ok words =>
      simp only [Item.extent, Item.size, StringLiteral.size,
        encoded, Except.map]
      exact StringLiteral.length_encode_le encoded

theorem extent_instruction_le (pos : Position) (name : Text)
    (operand : Option Operand) :
    Item.extent { pos, name, form := .instruction operand } ≤ name.length := by
  cases found : Opcode.ofName? name with
  | none => simp [Item.extent, Item.size, found]
  | some op =>
      simp only [Item.extent, Item.size, found]
      rw [← Opcode.name_of_ofName? found]
      exact op.width_le_length_name

theorem Place.Statement.extent_le {p : Place} {s : Slice} {it : Item}
    (statement : p.Statement s it) : it.extent ≤ s.text.length := by
  cases statement with
  | string encoded =>
      refine Nat.le_trans (extent_string_le _ _) ?_
      exact List.length_take_le' _ _
  | data value tokens => exact (Slice.of_tokens_cons tokens).2.1
  | instruction tokens operands =>
      refine Nat.le_trans (extent_instruction_le _ _ _) ?_
      exact (Slice.of_tokens_cons tokens).2.2

theorem Place.CodeItems.totalExtent_le {p : Place} {s : Slice}
    {items : List Item} (code : p.CodeItems s items) :
    totalExtent items ≤ s.text.length := by
  have label (n : Nat) : (p.label s n).extent = 0 := rfl
  cases code with
  | nothing => simp
  | label n => simp [label]
  | statement statement => simpa using statement.extent_le
  | labelled n statement =>
      simp only [totalExtent_cons, totalExtent_nil, label]
      have shorter := statement.extent_le
      have trimmed := (s.drop (n + 1)).length_trimStart_le
      have dropped := s.length_drop_le (n + 1)
      omega

theorem totalExtent_readLine_le (p : Place) (line : Text) :
    totalExtent (readLine p line).items ≤ line.length := by
  obtain ⟨s, shorter, yields⟩ := readLine_yields p line
  exact Nat.le_trans yields.items.totalExtent_le shorter

/-! ## Sources -/

theorem length_withoutReturn_le (line : Text) :
    (withoutReturn line).length ≤ line.length := by
  unfold withoutReturn
  split <;> simp

theorem totalExtent_readingsFrom_le (name : Text) (lines : List Text)
    (line : Nat) :
    totalExtent ((readingsFrom name lines line).flatMap LineReading.items) ≤
      (lines.map List.length).sum := by
  induction lines generalizing line with
  | nil => simp [readingsFrom]
  | cons text rest ih =>
      simp only [readingsFrom, List.flatMap_cons, totalExtent_append,
        List.map_cons, List.sum_cons]
      have own := totalExtent_readLine_le ⟨name, line⟩ (withoutReturn text)
      have returned := length_withoutReturn_le text
      have later := ih (line + 1)
      omega

theorem sum_length_splitFrom (separator : UInt8) (t current : Text)
    (done : List Text) :
    ((Text.splitFrom separator t current done).map List.length).sum ≤
      t.length + current.length + (done.map List.length).sum := by
  fun_induction Text.splitFrom separator t current done with
  | case1 current done => simp [List.sum_reverse, Nat.add_comm]
  | case2 current done rest ih =>
      simp only [List.map_cons, List.sum_cons, List.length_reverse,
        List.length_nil, List.length_cons] at ih ⊢
      omega
  | case3 current done b rest different ih =>
      simp only [List.length_cons] at ih ⊢
      omega

/-- The lines of a source have no more bytes than the source. -/
theorem sum_length_sourceLines_le (source : Text) :
    ((sourceLines source).map List.length).sum ≤ source.length := by
  have split : (source.lines.map List.length).sum ≤ source.length := by
    simpa [Text.lines, Text.split]
      using sum_length_splitFrom Text.newline source [] []
  unfold sourceLines
  dsimp only
  split
  next last =>
      obtain ⟨front, equal⟩ := List.getLast?_eq_some_iff.mp last
      rw [equal] at split ⊢
      simpa using split
  next => exact split

/-- A program takes no more words than its source has bytes. -/
theorem totalExtent_sourceItems_le (name source : Text) :
    totalExtent (sourceItems name source) ≤ source.length :=
  Nat.le_trans (totalExtent_readingsFrom_le name _ 1)
    (sum_length_sourceLines_le source)

end Assembly

end WordMachine
