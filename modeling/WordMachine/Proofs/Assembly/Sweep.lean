import WordMachine.Assembly.Listing

/-!
# Sweeping over a program

A sweep disassembles a program from its first word on, one instruction after the
other.  What it shows depends on the words only: `decode` gives the list of it,
from which both the words and the text can be had back.
-/

namespace WordMachine

/-! ## Opcodes as words -/

namespace Opcode

theorem ofWord?_code (op : Opcode) : ofWord? op.code = some op := by
  cases op <;> decide

theorem code_of_ofWord? {w : Word} {op : Opcode} (found : ofWord? w = some op) :
    op.code = w := by
  have codes : ∀ i < all.size, ∀ op ∈ all[i]?, op.ctorIdx = i := by decide
  obtain ⟨i, index, entry⟩ := Option.bind_eq_some_iff.mp found
  unfold Word.index? at index
  split at index
  next bounds =>
    cases index
    have position : op.ctorIdx = w.toInt.toNat := codes _ (by omega) op entry
    rw [code, position, ← Int64.ofInt_eq_ofNat, Int.toNat_of_nonneg bounds.1,
      Int64.ofInt_toInt]
  next => cases index

end Opcode

namespace Assembly

/-! ## Sweeps -/

theorem next_disassemble {code : Array Word} {address : Int}
    (inside : 0 ≤ address ∧ address < code.size) (sink : Sink) :
    (disassemble code address sink).next =
      address + (instructionAt code address.toNat).2 := by
  rw [disassemble, if_pos inside]

/-- Write the instructions from an address on, each on a line of its own. -/
def sweepFrom (code : Array Word) (address : Int) (sink : Sink) : Sink :=
  if 0 ≤ address ∧ address < code.size then
    let shown := disassemble code address sink
    sweepFrom code shown.next (shown.sink.write [Text.newline]).target
  else sink
termination_by (code.size - address).toNat
decreasing_by
  have positive := instructionAt_width_pos code address.toNat
  have next := next_disassemble ‹_› sink
  omega

/-- The instructions of a program, one on a line. -/
def sweep (code : Array Word) : Text :=
  (sweepFrom code 0 {}).text

/-- The addresses that a sweep comes to. -/
inductive Swept (code : Array Word) : Nat → Prop where
  | start : Swept code 0
  | next {address : Nat} : Swept code address → address < code.size →
      Swept code (disassemble code address {}).next.toNat

/-- There is no instruction at an address of the program. -/
inductive Unreadable (code : Array Word) (address : Nat) : Prop where
  /-- The word is no opcode. -/
  | undefined {w : Word} : code[address]? = some w → Opcode.ofWord? w = none →
      Unreadable code address
  /-- The program ends where the immediate should be. -/
  | cut {w : Word} {op : Opcode} :
      code[address]? = some w → Opcode.ofWord? w = some op →
      op.info.immediate = true → address + 1 = code.size →
        Unreadable code address

/-! ## What a sweep shows -/

/-- What a sweep shows on one line. -/
inductive Shown where
  /-- A word that is no opcode. -/
  | data (w : Word)
  /-- An opcode without the immediate it takes. -/
  | cut (op : Opcode)
  | plain (op : Opcode) (alone : op.info.immediate = false)
  | full (op : Opcode) (immediate : Word) (takes : op.info.immediate = true)

namespace Shown

def words : Shown → List Word
  | data w => [w]
  | cut op => [op.code]
  | plain op _ => [op.code]
  | full op immediate _ => [op.code, immediate]

/-- The operand of an instruction; only calls show the name of a native
function. -/
def operand (op : Opcode) (immediate : Word) : Text :=
  match if op = .call then NativeAddress.name? immediate else none with
  | some name => name
  | none => immediate.toText

def text : Shown → Text
  | data w => Text.ofString ".word " ++ w.toText
  | cut op => op.name ++ Text.ofString " ???"
  | plain op _ => op.name
  | full op immediate _ => op.name ++ Text.space :: operand op immediate

def isReadable : Shown → Bool
  | data _ | cut _ => false
  | plain _ _ | full _ _ _ => true

theorem words_ne_nil (s : Shown) : s.words ≠ [] := by
  cases s <;> nofun

end Shown

/-- What a sweep over some words shows. -/
def decode : List Word → List Shown
  | [] => []
  | w :: rest =>
    match Opcode.ofWord? w with
    | none => .data w :: decode rest
    | some op =>
      if takes : op.info.immediate = true then
        match rest with
        | [] => [.cut op]
        | immediate :: rest => .full op immediate takes :: decode rest
      else .plain op (Bool.eq_false_iff.mpr takes) :: decode rest

/-- A sweep shows every word. -/
theorem flatMap_words_decode (ws : List Word) :
    (decode ws).flatMap Shown.words = ws := by
  fun_induction decode ws with
  | case1 => rfl
  | case2 w rest undefined ih => simp [Shown.words, ih]
  | case3 w op found takes => simp [Shown.words, Opcode.code_of_ofWord? found]
  | case4 w op found takes immediate rest ih =>
      simp [Shown.words, Opcode.code_of_ofWord? found, ih]
  | case5 w rest op found takes ih =>
      simp [Shown.words, Opcode.code_of_ofWord? found, ih]

/-- Behind the words `front` a program has words that are shown as `s`, and then
`rest`. -/
structure Shows (code : Array Word) (front : List Word) (s : Shown)
    (rest : List Word) :
    Prop where
  split : code.toList = front ++ (s.words ++ rest)
  decode : decode (s.words ++ rest) = s :: decode rest
  instruction : instructionAt code front.length = (s.text, s.words.length)
  readable : s.isReadable = false ↔ Unreadable code front.length

section Shows

variable {code : Array Word} {front rest : List Word} {s : Shown}

theorem ne_nil_of_inside (split : code.toList = front ++ rest)
    (inside : front.length < code.size) : rest ≠ [] := by
  rintro rfl
  rw [← Array.length_toList, split, List.append_nil] at inside
  exact Nat.lt_irrefl _ inside

/-- An opcode makes an address unreadable only by the immediate that it
lacks. -/
theorem unreadable_iff {address : Nat} {w : Word} {op : Opcode}
    (here : code[address]? = some w) (found : Opcode.ofWord? w = some op) :
    Unreadable code address ↔
      op.info.immediate = true ∧ address + 1 = code.size := by
  constructor
  · intro unreadable
    cases unreadable with
    | undefined there unassigned =>
        cases here.symm.trans there
        rw [found] at unassigned
        cases unassigned
    | cut there opcode takes last =>
        cases here.symm.trans there
        cases found.symm.trans opcode
        exact ⟨takes, last⟩
  · rintro ⟨takes, last⟩
    exact .cut here found takes last

theorem exists_shows (split : code.toList = front ++ rest)
    (nonempty : rest ≠ []) :
    ∃ s others, rest = s.words ++ others ∧ Shows code front s others := by
  obtain ⟨w, tail, rfl⟩ := List.exists_cons_of_ne_nil nonempty
  have here : code[front.length]? = some w := by
    rw [← Array.getElem?_toList, split]
    simp
  have behind : code[front.length + 1]? = tail.head? := by
    rw [← Array.getElem?_toList, split,
      List.getElem?_append_right (Nat.le_add_right _ 1)]
    simp [List.head?_eq_getElem?]
  have size : code.size = front.length + (tail.length + 1) := by
    rw [← Array.length_toList, split, List.length_append, List.length_cons]
  cases found : Opcode.ofWord? w with
  | none =>
      refine ⟨.data w, tail, rfl, split, ?_, ?_, ?_⟩
      · simp [Shown.words, decode, found]
      · simp [instructionAt, here, found, Shown.text, Shown.words]
      · exact ⟨fun _ => .undefined here found, fun _ => rfl⟩
  | some op =>
      obtain rfl := Opcode.code_of_ofWord? found
      cases takes : op.info.immediate with
      | false =>
          refine ⟨.plain op takes, tail, rfl, split, ?_, ?_, ?_⟩
          · simp [Shown.words, decode, found, takes]
          · simp [instructionAt, here, found, takes, Shown.text, Shown.words]
          · rw [unreadable_iff here found]
            simp [Shown.isReadable, takes]
      | true =>
          cases tail with
          | nil =>
              refine ⟨.cut op, [], rfl, split, ?_, ?_, ?_⟩
              · simp [Shown.words, decode, found, takes]
              · simp [instructionAt, here, behind, found, takes,
                  Shown.text, Shown.words]
              · rw [unreadable_iff here found]
                simp [Shown.isReadable, takes, size]
          | cons immediate others =>
              refine ⟨.full op immediate takes, others, rfl, split, ?_, ?_, ?_⟩
              · simp [Shown.words, decode, found, takes]
              · simp only [instructionAt, here, behind, found, takes, if_true,
                  List.head?_cons]
                rfl
              · rw [unreadable_iff here found]
                simp [Shown.isReadable, size]

/-- Induction along a sweep, from the end of the program. -/
@[elab_as_elim]
theorem sweep_induction {motive : (front rest : List Word) → Prop}
    (finish : ∀ front, code.toList = front ++ [] → motive front [])
    (step : ∀ front s rest, Shows code front s rest →
      motive (front ++ s.words) rest → motive front (s.words ++ rest))
    {front rest : List Word} (split : code.toList = front ++ rest) :
    motive front rest := by
  induction size : rest.length
    using Nat.strongRecOn generalizing front rest with
  | ind n ih =>
      by_cases empty : rest = []
      · subst empty
        exact finish front split
      · obtain ⟨s, others, rfl, shows⟩ := exists_shows split empty
        have shorter : others.length < n := by
          have positive := List.length_pos_iff.mpr s.words_ne_nil
          rw [List.length_append] at size
          omega
        have further : code.toList = front ++ s.words ++ others := by
          rw [split, List.append_assoc]
        exact step front s others shows (ih _ shorter further rfl)

theorem Shows.inside (shows : Shows code front s rest) :
    0 ≤ (front.length : Int) ∧ (front.length : Int) < code.size := by
  have positive := List.length_pos_iff.mpr s.words_ne_nil
  rw [← Array.length_toList, shows.split, List.length_append,
    List.length_append]
  omega

theorem Shows.next (shows : Shows code front s rest) (sink : Sink) :
    (disassemble code front.length sink).next =
      ((front ++ s.words).length : Nat) := by
  rw [next_disassemble shows.inside, Int.toNat_natCast, shows.instruction,
    List.length_append]
  exact (Int.natCast_add _ _).symm

theorem Shows.sink (shows : Shows code front s rest) (sink : Sink) :
    (disassemble code front.length sink).sink = (sink.write s.text).target := by
  rw [disassemble, if_pos shows.inside, Int.toNat_natCast, shows.instruction]
  rfl

/-- The text of a sweep is what is shown, line by line. -/
theorem text_sweepFrom (split : code.toList = front ++ rest) :
    ∀ written : Array UInt8, (sweepFrom code front.length { written }).text =
      written.toList ++ (decode rest).flatMap fun s =>
        s.text ++ [Text.newline] := by
  refine sweep_induction ?finish ?step split
  case finish =>
      intro front split written
      have outside : ¬ (0 ≤ (front.length : Int) ∧
          (front.length : Int) < code.size) := by
        rw [← Array.length_toList, split, List.append_nil]
        omega
      rw [sweepFrom, if_neg outside]
      simp [Sink.text, decode]
  case step =>
      intro front s rest shows ih written
      have line : (({ written } : Sink).write s.text).target.write
          [Text.newline] =
          ⟨{ written := written ++ s.text ++ [Text.newline] }, 1, none⟩ := rfl
      rw [sweepFrom, if_pos shows.inside]
      simp only [shows.next, shows.sink, line]
      rw [ih, shows.decode, List.flatMap_cons]
      simp

theorem text_sweep (code : Array Word) :
    sweep code = (decode code.toList).flatMap fun s =>
      s.text ++ [Text.newline] := by
  have whole : code.toList = [] ++ code.toList := rfl
  exact text_sweepFrom whole #[]

/-! ## Where a sweep comes -/

theorem Swept.step (swept : Swept code front.length)
    (shows : Shows code front s rest) :
    Swept code (front ++ s.words).length := by
  have next := Swept.next swept (Int.ofNat_lt.mp shows.inside.2)
  rwa [shows.next, Int.toNat_natCast] at next

/-- Where a sweep comes, it shows the rest of the program. -/
theorem Swept.exists_split {address : Nat} (swept : Swept code address) :
    ∃ front rest, code.toList = front ++ rest ∧ front.length = address ∧
      ∀ s ∈ decode rest, s ∈ decode code.toList := by
  induction swept with
  | start => exact ⟨[], code.toList, rfl, rfl, fun _ => id⟩
  | @next address swept inside ih =>
      obtain ⟨front, rest, split, rfl, shown⟩ := ih
      obtain ⟨s, others, rfl, shows⟩ :=
        exists_shows split (ne_nil_of_inside split inside)
      refine ⟨front ++ s.words, others, ?_, ?_, ?_⟩
      · rw [split, List.append_assoc]
      · rw [shows.next, Int.toNat_natCast]
      · intro later member
        apply shown
        rw [shows.decode]
        exact List.mem_cons_of_mem s member

theorem Unreadable.inside {address : Nat}
    (unreadable : Unreadable code address) :
    address < code.size := by
  cases unreadable with
  | undefined here | cut here =>
      obtain ⟨inside, -⟩ := Array.getElem?_eq_some_iff.mp here
      exact inside

theorem exists_unreadable_of_shown (split : code.toList = front ++ rest) :
    Swept code front.length → s ∈ decode rest → s.isReadable = false →
      ∃ address, Swept code address ∧ Unreadable code address := by
  refine sweep_induction ?finish ?step split
  case finish =>
      intro front split swept shown
      cases shown
  case step =>
      intro front first rest shows ih swept shown unreadable
      rw [shows.decode] at shown
      rcases List.mem_cons.mp shown with rfl | later
      · exact ⟨front.length, swept, shows.readable.mp unreadable⟩
      · exact ih (swept.step shows) later unreadable

/-- A sweep comes to an address without an instruction exactly if it shows no
instruction there. -/
theorem exists_unreadable_iff (code : Array Word) :
    (∃ address, Swept code address ∧ Unreadable code address) ↔
      ∃ s ∈ decode code.toList, s.isReadable = false := by
  constructor
  · rintro ⟨address, swept, unreadable⟩
    obtain ⟨front, rest, split, rfl, shown⟩ := swept.exists_split
    obtain ⟨s, others, rfl, shows⟩ :=
      exists_shows split (ne_nil_of_inside split unreadable.inside)
    refine ⟨s, shown s ?_, shows.readable.mpr unreadable⟩
    rw [shows.decode]
    exact List.mem_cons_self
  · rintro ⟨s, shown, unreadable⟩
    have whole : code.toList = [] ++ code.toList := rfl
    exact exists_unreadable_of_shown whole .start shown unreadable

end Shows

end Assembly

end WordMachine
