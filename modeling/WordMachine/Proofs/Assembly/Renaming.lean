import Mathlib.Data.Set.Function
import WordMachine.Machine.Native
import WordMachine.Proofs.Assembly.Acceptance

/-!
# The names of labels carry no meaning

Labels are named by the tables of the passes only.  If the labels of a program
get other names, in declarations and operands alike, then the code stays the
same and the label table changes in its names only.  Mnemonics are looked up in
a table of their own, so that a label may be spelt like one before or after.
-/

namespace WordMachine

/-! ## Tables -/

namespace NameTable

variable {f : Text → Text} {s t : NameTable} {name : Text}

/-- `t` is `s` with other names: each entry keeps its place and its address. -/
def RenamedTo (f : Text → Text) (s t : NameTable) : Prop :=
  t.entries = s.entries.map fun entry => (f entry.1, entry.2)

theorem RenamedTo.names (renamed : s.RenamedTo f t) :
    t.names = s.names.map f := by
  rw [NameTable.names, renamed, NameTable.names, List.map_map, List.map_map]
  rfl

theorem RenamedTo.get? (renamed : s.RenamedTo f t) {address : Word}
    (found : s.get? name = some address) : t.get? (f name) = some address := by
  rw [get?_eq_some_iff] at found ⊢
  rw [renamed]
  exact List.mem_map_of_mem found

theorem RenamedTo.insert (renamed : s.RenamedTo f t) (address : Word)
    (fresh : name ∉ s.names) (stillFresh : f name ∉ s.names.map f) :
    (s.insert name address).RenamedTo f (t.insert (f name) address) := by
  rw [← renamed.names] at stillFresh
  rw [RenamedTo, entries_insert_of_fresh address fresh,
    entries_insert_of_fresh address stillFresh, renamed, List.map_append]
  rfl

end NameTable

namespace Assembly

/-! ## Programs -/

section Rename

variable (f : Text → Text)

/-- The operand with another name, if it is a name. -/
def Operand.rename (o : Operand) : Operand :=
  match o.value with
  | .numeral _ => o
  | .name target => { o with value := .name (f target) }

/-- The item with another label or another name as its operand.  Mnemonics
stay. -/
def Item.rename (it : Item) : Item :=
  match it.form with
  | .label => { it with name := f it.name }
  | .instruction operand =>
    { it with form := .instruction (operand.map (Operand.rename f)) }
  | .data _ | .string _ | .unknown => it

/-- The program with other names for labels, where they are declared and where
they are used. -/
def Program.rename (p : Program) : Program :=
  { p with items := p.items.map (Item.rename f) }

variable (it : Item)

theorem Item.label?_rename : (it.rename f).label? = it.label?.map f := by
  cases form : it.form <;> simp [Item.rename, Item.label?, form]

theorem Item.size_rename : (it.rename f).size = it.size := by
  cases form : it.form <;> simp [Item.rename, Item.size, form]

theorem declared_rename (items : List Item) :
    declared (items.map (Item.rename f)) = (declared items).map f := by
  rw [declared, declared, List.filterMap_map, List.map_filterMap]
  exact congrArg (List.filterMap · items) (funext (Item.label?_rename f))

end Rename

/-- The program passes layout, linking and emission without problems. -/
structure Program.Accepted (p : Program) (natives : NameTable) : Prop where
  laid : p.layout.problems = []
  linked : (p.link p.layout.labels natives).problems = []
  emitted : (p.emit (p.link p.layout.labels natives).table).problems = []

/-- The words of a program that may call the given native functions. -/
def Program.code (p : Program) (natives : NameTable) : Array Word :=
  (p.emit (p.link p.layout.labels natives).table).code

section Passes

variable {f : Text → Text} {it : Item} {items : List Item}

/-! ## Layout -/

/-- An item in order stays in order if its label, renamed, is not among the
renamed names. -/
theorem layoutOffence?_rename {taken : List Text}
    (clean : layoutOffence? taken it = none)
    (fresh : ∀ label, it.label? = some label → f label ∉ taken.map f) :
    layoutOffence? (taken.map f) (it.rename f) = none := by
  by_cases form : it.form = .label
  · have renamed : it.rename f = { it with name := f it.name } := by
      simp [Item.rename, form]
    have new := fresh it.name (label?_eq_some.mpr ⟨form, rfl⟩)
    rw [renamed]
    simp [layoutOffence?, form, new]
  · have notLabel : (it.rename f).form ≠ .label := by
      intro label
      have isLabel := label?_eq_some.mpr ⟨label, rfl⟩
      rw [Item.label?_rename, Option.map_eq_some_iff] at isLabel
      obtain ⟨own, found, -⟩ := isLabel
      exact form (label?_eq_some.mp found).1
    obtain ⟨n, size⟩ := size_of_layoutOffence? clean
    rw [layoutOffence?_eq_size _ notLabel, Item.size_rename, size]

theorem declare_rename {s t : NameTable} (renamed : s.RenamedTo f t)
    (address : Nat)
    (fresh : ∀ label, it.label? = some label →
      label ∉ s.names ∧ f label ∉ s.names.map f) :
    (declare s address it).RenamedTo f (declare t address (it.rename f)) := by
  rw [declare, declare, Item.label?_rename]
  cases label : it.label? with
  | none => exact renamed
  | some own =>
      obtain ⟨new, stillNew⟩ := fresh own label
      exact renamed.insert _ new stillNew

section Layout

variable {taken : List Text} {s t : NameTable}

theorem HasNames.mem_names (names : HasNames s taken) (name : Text) :
    name ∈ s.names ↔ name ∈ taken := by
  rw [← names name, NameTable.contains_iff, NameTable.mem_names_iff]

theorem HasNames.rename (names : HasNames s taken) (renamed : s.RenamedTo f t) :
    HasNames t (taken.map f) := by
  intro name
  rw [NameTable.contains_iff, ← NameTable.mem_names_iff, renamed.names,
    List.mem_map, List.mem_map]
  simp only [names.mem_names]

/-- A label in order is new under its other name too. -/
theorem fresh_rename {rest : List Item} (clean : layoutOffence? taken it = none)
    (injective : Set.InjOn f {name | name ∈ taken ++ declared (it :: rest)}) :
    ∀ label, it.label? = some label → f label ∉ taken.map f := by
  intro label isLabel again
  obtain ⟨old, isOld, same⟩ := List.mem_map.mp again
  have inside : old ∈ taken ++ declared (it :: rest) :=
    List.mem_append_left _ isOld
  have own : label ∈ taken ++ declared (it :: rest) := by simp [isLabel]
  exact fresh_of_clean clean isLabel (injective inside own same ▸ isOld)

/-- The layout of renamed items meets no problems either and finds the same
addresses under the other names. -/
theorem layoutFrom_rename (address : Nat) (names : HasNames s taken)
    (renamed : s.RenamedTo f t) (clean : layoutOffences taken items = [])
    (injective : Set.InjOn f {name | name ∈ taken ++ declared items}) :
    layoutOffences (taken.map f) (items.map (Item.rename f)) = [] ∧
      (layoutFrom items address s []).labels.RenamedTo f
        (layoutFrom (items.map (Item.rename f)) address t []).labels := by
  induction items generalizing taken s t address with
  | nil => exact ⟨rfl, renamed⟩
  | cons it rest ih =>
      simp only [layoutOffences, List.append_eq_nil_iff,
        Option.toList_eq_nil_iff] at clean
      have fresh := fresh_rename clean.1 injective
      have headClean := layoutOffence?_rename clean.1 fresh
      have renamedNames := names.rename renamed
      obtain ⟨n, size, step⟩ :=
        layoutFrom_cons_of_clean names clean.1 rest address []
      obtain ⟨m, renamedSize, renamedStep⟩ :=
        layoutFrom_cons_of_clean renamedNames headClean
          (rest.map (Item.rename f)) address []
      rw [Item.size_rename, size] at renamedSize
      cases renamedSize
      have declares := declare_rename renamed address fun label isLabel =>
        ⟨(names.mem_names label).not.mpr (fresh_of_clean clean.1 isLabel),
          fun again => by
          rw [← renamed.names, renamedNames.mem_names] at again
          exact fresh label isLabel again⟩
      have later := ih (address + n) (names.declare address it)
        declares clean.2 <| by
        refine injective.mono fun name member => ?_
        simp only [declared_cons, List.mem_append,
          Set.mem_ofPred_eq] at member ⊢
        tauto
      have taking : (it.label?.toList ++ taken).map f =
          (it.rename f).label?.toList ++ taken.map f := by
        rw [List.map_append, Item.label?_rename]
        cases it.label? <;> rfl
      rw [taking] at later
      rw [List.map_cons, step, renamedStep, layoutOffences, headClean]
      exact later

end Layout

/-- The layout of a renamed program is the old one under the other names. -/
theorem Program.layout_rename {p : Program} (laid : p.layout.problems = [])
    (injective : Set.InjOn f {label | label ∈ declared p.items}) :
    (p.rename f).layout.problems = [] ∧
      p.layout.labels.RenamedTo f (p.rename f).layout.labels := by
  have renamed : NameTable.empty.RenamedTo f .empty := rfl
  obtain ⟨clean, labels⟩ :=
    layoutFrom_rename 0 HasNames.empty renamed
      (layoutOffences_of_layout laid) injective
  refine ⟨?_, labels⟩
  rw [layout_problems]
  exact congrArg (List.take maxProblems) clean

/-! ## Linking -/

section Linking

variable {p : Program} {natives : NameTable}

/-- Renamed labels are linked without problems if none of them is a native
function. -/
theorem Program.link_rename (labels : NameTable)
    (apart : ∀ label ∈ declared p.items, f label ∉ natives.names) :
    ((p.rename f).link labels natives).problems = [] := by
  rw [link_problems, take_maxProblems_eq_nil, List.filterMap_eq_nil_iff]
  intro renamed member
  obtain ⟨it, inside, rfl⟩ := List.mem_map.mp member
  rw [linkOffence?_eq_none]
  intro name isLabel
  rw [Item.label?_rename, Option.map_eq_some_iff] at isLabel
  obtain ⟨label, found, rfl⟩ := isLabel
  have absent := apart label (List.mem_filterMap.mpr ⟨it, inside, found⟩)
  rwa [NameTable.mem_names_iff, ← NameTable.contains_iff,
    Bool.not_eq_true] at absent

/-- What a name of the program stands for, its other name stands for in the
renamed one. -/
theorem Program.get?_link_rename (laid : p.layout.problems = [])
    (linked : (p.link p.layout.labels natives).problems = [])
    (renamed : p.layout.labels.RenamedTo f (p.rename f).layout.labels)
    (fixed : ∀ name ∈ natives.names, f name = name)
    (apart : ∀ label ∈ declared p.items, f label ∉ natives.names)
    {target : Text} {address : Word}
    (found : (p.link p.layout.labels natives).table.get? target =
      some address) :
    ((p.rename f).link (p.rename f).layout.labels natives).table.get?
    (f target) =
      some address := by
  have labels : declared (p.rename f).items = (declared p.items).map f :=
    declared_rename f p.items
  rw [(link_get? linked target).2] at found
  rw [(link_get? (Program.link_rename _ apart) (f target)).2, labels]
  split at found
  next label =>
    obtain ⟨value, known⟩ := (layout_names_iff laid target).mpr label
    rw [known, Option.getD_some] at found
    rw [if_pos (List.mem_map_of_mem label), renamed.get? known,
      Option.getD_some, found]
  next =>
    have native : target ∈ natives.names :=
      NameTable.mem_names_iff.mpr ⟨address, found⟩
    have notLabel : f target ∉ (declared p.items).map f := by
      intro member
      obtain ⟨label, declares, same⟩ := List.mem_map.mp member
      apply apart label declares
      rwa [same, fixed target native]
    rw [if_neg notLabel, fixed target native, found]

end Linking

/-! ## Emission -/

/-- Without an operand no name is looked up. -/
theorem encodeInstruction_none (s t : NameTable) (pos : Position)
    (mnemonic : Text) :
    encodeInstruction s pos mnemonic none =
      encodeInstruction t pos mnemonic none := by
  cases opcode : Opcode.ofName? mnemonic with
  | none => simp [encodeInstruction, opcode]
  | some op =>
      cases immediate : op.info.immediate <;> simp [encodeInstruction,
        opcode, immediate]

section Emission

variable {table renamed : NameTable}
  (found : ∀ {target address}, table.get? target = some address →
    renamed.get? (f target) = some address)

include found

theorem Operand.word_rename {o : Operand} {word : Word}
    (resolved : o.word table = .ok word) :
    (o.rename f).word renamed = .ok word := by
  cases value : o.value with
  | numeral n => simpa [Operand.rename, Operand.word, value] using resolved
  | name target =>
      simp [Operand.rename, Operand.word, value,
        found (word_of_name value resolved)]

/-- An item that can be encoded is encoded to the same words under other
names. -/
theorem Item.encode_rename {words : List Word}
    (encoded : it.encode table = .ok words) :
    (it.rename f).encode renamed = .ok words := by
  cases form : it.form with
  | label | data | string | unknown =>
      simpa [Item.rename, Item.encode, form] using encoded
  | instruction operand =>
      cases operand with
      | none =>
          simp only [Item.encode, form] at encoded
          simp only [Item.rename, Item.encode, form, Option.map_none]
          rw [encodeInstruction_none renamed table, encoded]
      | some o =>
          have isOperand : it.operand? = some o := by simp [Item.operand?, form]
          obtain ⟨op, word, opcode, immediate, resolved, rfl⟩ :=
            encode_of_operand isOperand encoded
          simp [Item.rename, Item.encode, encodeInstruction, form,
            opcode, immediate, Operand.word_rename found resolved, Except.map]

theorem emitFrom_rename (code : Array Word)
    (clean : (emitFrom table items code []).problems = []) :
    emitFrom renamed (items.map (Item.rename f)) code [] =
      emitFrom table items code [] := by
  induction items generalizing code with
  | nil => rfl
  | cons it rest ih =>
      have inOrder := emitFrom_clean clean it List.mem_cons_self
      have encoded := encode_of_clean inOrder
      rw [emitFrom_cons_of_clean inOrder (by decide)] at clean ⊢
      rw [List.map_cons, emitFrom, Item.encode_rename found encoded]
      exact ih _ clean

end Emission

end Passes

/-- The names of labels carry no meaning.

Let a program be accepted with a table of native functions, and let its labels
get other names, in declarations and operands alike, so that different labels
stay different, no label gets the name of a native function and the names of
native functions stay.  Then the renamed program is accepted too, its words are
the same, and its label table has the same entries under the other names. -/
theorem label_names_carry_no_meaning (p : Program) (natives : NameTable)
    (f : Text → Text) (accepted : p.Accepted natives)
    (injective : Set.InjOn f {label | label ∈ declared p.items})
    (fixed : ∀ name ∈ natives.names, f name = name)
    (apart : ∀ label ∈ declared p.items, f label ∉ natives.names) :
    (p.rename f).Accepted natives ∧ (p.rename f).code natives = p.code natives ∧
      p.layout.labels.RenamedTo f (p.rename f).layout.labels := by
  obtain ⟨laid, renamed⟩ := Program.layout_rename accepted.laid injective
  have linked := Program.link_rename (p.rename f).layout.labels apart
  have emission := emitFrom_rename
    (Program.get?_link_rename accepted.laid accepted.linked renamed fixed apart)
      #[]
    accepted.emitted
  have emitted : ((p.rename f).emit
      ((p.rename f).link (p.rename f).layout.labels natives).table).problems =
        [] :=
    (congrArg Emission.problems emission).trans accepted.emitted
  exact ⟨⟨laid, linked, emitted⟩, congrArg Emission.code emission, renamed⟩

/-- Two labels, one of them spelt like the instruction behind it, and a native
function. -/
def crossingLabels : Program where
  name := []
  items :=
    [instruction "jump" (some "start"), label "addi", instruction "addi" none,
      label "start", instruction "call" (some "printf"),
      instruction "jump" (some "addi")]
where
  label (name : String) : Item :=
    { pos := ⟨[], 1, 1⟩, name := Text.ofString name, form := .label }
  instruction (mnemonic : String) (operand : Option String) : Item :=
    { pos := ⟨[], 1, 1⟩, name := Text.ofString mnemonic
      form := .instruction (operand.map fun name =>
        ⟨⟨[], 1, 1⟩, .name (Text.ofString name)⟩) }

/-- Swap the names of the two labels. -/
def swapLabels (name : Text) : Text :=
  if name = Text.ofString "addi" then Text.ofString "start"
  else if name = Text.ofString "start" then Text.ofString "addi"
  else name

theorem label_names_carry_no_meaning_crossing :
    declared (crossingLabels.rename swapLabels).items =
      [Text.ofString "start", Text.ofString "addi"] ∧
    (crossingLabels.rename swapLabels).Accepted NativeAddress.standard ∧
    (crossingLabels.rename swapLabels).code NativeAddress.standard =
      crossingLabels.code NativeAddress.standard ∧
    crossingLabels.layout.labels.RenamedTo swapLabels
      (crossingLabels.rename swapLabels).layout.labels := by
  refine ⟨by decide,
    label_names_carry_no_meaning crossingLabels
      NativeAddress.standard swapLabels
    ⟨by rfl, by rfl, by rfl⟩ ?_ (by decide) (by decide)⟩
  have distinct : ∀ a ∈ declared crossingLabels.items,
      ∀ b ∈ declared crossingLabels.items,
      swapLabels a = swapLabels b → a = b := by
    decide
  exact fun a isLabel b isOther => distinct a isLabel b isOther

end Assembly

end WordMachine
