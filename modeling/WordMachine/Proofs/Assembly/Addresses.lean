import WordMachine.Proofs.Assembly.Extent

/-!
# Layout and emission agree

The layout adds up the sizes of items and the emission appends their words;
neither looks at the other.  They agree because an item has as many words as its
size says, so the code emitted before an item is as long as the layout says.
Hence the labels are addresses in the code, and an operand that names a label is
the address of the word behind it.
-/

namespace WordMachine.Assembly

/-! ## Addresses of items -/

/-- The address of the item with number `i`: the sum of the sizes of those
before. -/
def addressOf (items : List Item) (i : Nat) : Nat :=
  totalExtent (items.take i)

@[simp] theorem addressOf_zero (items : List Item) :
    addressOf items 0 = 0 := rfl

@[simp] theorem addressOf_cons_succ (it : Item) (rest : List Item) (i : Nat) :
    addressOf (it :: rest) (i + 1) = it.extent + addressOf rest i := by
  simp [addressOf]

theorem addressOf_le (items : List Item) (i : Nat) :
    addressOf items i ≤ totalExtent items := by
  induction items generalizing i with
  | nil => simp [addressOf]
  | cons it rest ih =>
      cases i with
      | zero => simp
      | succ i => simpa using ih i

/-- An item has as many words as its size says. -/
theorem length_encode {table : NameTable} {it : Item} {n : Nat}
    {words : List Word} (size : it.size = .ok n)
    (encoded : it.encode table = .ok words) : words.length = n := by
  cases form : it.form with
  | label =>
      simp only [Item.size, Item.encode, form, Except.ok.injEq] at size encoded
      simp [← size, ← encoded]
  | data value =>
      simp only [Item.size, Item.encode, form, Except.ok.injEq] at size encoded
      simp [← size, ← encoded]
  | unknown => simp [Item.size, form] at size
  | string literal =>
      simp only [Item.size, Item.encode, form, StringLiteral.size]
        at size encoded
      cases literalWords : StringLiteral.encode literal with
      | error fault => simp [literalWords] at encoded
      | ok own =>
          simp only [literalWords, Except.map, Except.ok.injEq] at size encoded
          rw [← size, ← encoded]
  | instruction operand =>
      simp only [Item.size, Item.encode, form, encodeInstruction]
        at size encoded
      cases opcode : Opcode.ofName? it.name with
      | none => simp [opcode] at size
      | some op =>
          simp only [opcode, Except.ok.injEq] at size encoded
          subst size
          cases immediate : op.info.immediate with
          | false =>
              cases operand with
              | none =>
                  simp only [immediate, Except.ok.injEq] at encoded
                  simp [← encoded, Opcode.width, immediate]
              | some operand => simp [immediate] at encoded
          | true =>
              cases operand with
              | none => simp [immediate] at encoded
              | some operand =>
                  simp only [immediate] at encoded
                  cases word : operand.word table with
                  | error problem => simp [word, Except.map] at encoded
                  | ok value =>
                      simp only [word, Except.map, Except.ok.injEq] at encoded
                      simp [← encoded, Opcode.width, immediate]

theorem length_words {table : NameTable} {it : Item} {n : Nat}
    (size : it.size = .ok n) (clean : emitOffence? table.contains it = none) :
    (it.words table).length = it.extent := by
  simp only [Item.extent, size]
  exact length_encode size (encode_of_clean clean)

/-! ## The code at an address -/

section Code

variable {table : NameTable} {items : List Item}

theorem length_flatMap_words
    (agree : ∀ it ∈ items, (it.words table).length = it.extent) :
    (items.flatMap (Item.words table)).length = totalExtent items := by
  rw [List.length_flatMap]
  exact congrArg List.sum (List.map_congr_left agree)

/-- The words of the item with number `i` stand at its address. -/
theorem getElem?_flatMap_words {i : Nat} {it : Item}
    (agree : ∀ it ∈ items, (it.words table).length = it.extent)
    (item : items[i]? = some it) (k : Nat)
    (inside : k < (it.words table).length) :
    (items.flatMap (Item.words table))[addressOf items i + k]? =
      (it.words table)[k]? := by
  induction items generalizing i with
  | nil => simp at item
  | cons first rest ih =>
      rw [List.flatMap_cons]
      cases i with
      | zero =>
          simp only [List.getElem?_cons_zero, Option.some.injEq] at item
          subst item
          rw [addressOf_zero, Nat.zero_add, List.getElem?_append_left inside]
      | succ i =>
          rw [List.getElem?_cons_succ] at item
          have head := agree first (by simp)
          have beyond : (first.words table).length ≤
              first.extent + addressOf rest i + k := by
            omega
          rw [addressOf_cons_succ, List.getElem?_append_right beyond, head]
          have shifted : first.extent + addressOf rest i + k - first.extent =
              addressOf rest i + k := by
            omega
          rw [shifted]
          exact ih (fun other member => agree other (by simp [member])) item

end Code

/-! ## The labels -/

section Labels

variable {taken : List Text} {labels : NameTable}

/-- The layout of items in order keeps the addresses it started with. -/
theorem layoutFrom_get?_of_taken {items : List Item}
    (address : Nat) {name : Text} {value : Word} (names : HasNames labels taken)
    (clean : layoutOffences taken items = [])
    (known : labels.get? name = some value) :
    (layoutFrom items address labels []).labels.get? name = some value := by
  induction items generalizing taken labels address with
  | nil => exact known
  | cons it rest ih =>
      simp only [layoutOffences, List.append_eq_nil_iff,
        Option.toList_eq_nil_iff] at clean
      obtain ⟨n, -, equal⟩ :=
        layoutFrom_cons_of_clean names clean.1 rest address []
      rw [equal]
      apply ih _ (names.declare address it) clean.2
      cases label : it.label? with
      | none => simpa [declare, label] using known
      | some own =>
          have old : name ∈ taken := by
            rw [← names name, NameTable.contains_iff]
            exact ⟨value, known⟩
          have different : name ≠ own := by
            intro same
            exact fresh_of_clean clean.1 label (same ▸ old)
          simpa [declare, label, different] using known

/-- The layout of items in order gives each label the address of its item. -/
theorem layoutFrom_get?_of_declared {items : List Item} (address : Nat)
    {i : Nat} {it : Item} {name : Text} (names : HasNames labels taken)
    (clean : layoutOffences taken items = [])
    (item : items[i]? = some it) (label : it.label? = some name) :
    (layoutFrom items address labels []).labels.get? name =
      some (Int64.ofNat (address + addressOf items i)) := by
  induction items generalizing taken labels address i with
  | nil => simp at item
  | cons first rest ih =>
      simp only [layoutOffences, List.append_eq_nil_iff,
        Option.toList_eq_nil_iff] at clean
      obtain ⟨n, size, equal⟩ :=
        layoutFrom_cons_of_clean names clean.1 rest address []
      have extent : first.extent = n := by simp [Item.extent, size]
      rw [equal]
      cases i with
      | zero =>
          simp only [List.getElem?_cons_zero, Option.some.injEq] at item
          subst item
          apply layoutFrom_get?_of_taken _ (names.declare address first) clean.2
          simp [declare, label]
      | succ i =>
          rw [List.getElem?_cons_succ] at item
          rw [ih _ (names.declare address first) clean.2 item,
            addressOf_cons_succ, extent, Nat.add_assoc]

/-- The layout of items in order has no names but those declared. -/
theorem mem_declared_of_layoutFrom {items : List Item}
    (address : Nat) {name : Text} {value : Word} (names : HasNames labels taken)
    (clean : layoutOffences taken items = [])
    (found : (layoutFrom items address labels []).labels.get? name =
      some value) :
    name ∈ taken ∨ name ∈ declared items := by
  induction items generalizing taken labels address with
  | nil =>
      left
      rw [← names name, NameTable.contains_iff]
      exact ⟨value, found⟩
  | cons it rest ih =>
      simp only [layoutOffences, List.append_eq_nil_iff,
        Option.toList_eq_nil_iff] at clean
      obtain ⟨n, -, equal⟩ :=
        layoutFrom_cons_of_clean names clean.1 rest address []
      rw [equal] at found
      have either := ih _ (names.declare address it) clean.2 found
      simp only [List.mem_append] at either
      rw [declared_cons, List.mem_append]
      rcases either with (own | old) | later
      · exact Or.inr (Or.inl own)
      · exact Or.inl old
      · exact Or.inr (Or.inr later)

end Labels

/-- Every item in a layout without problems has a size. -/
theorem size_of_clean {taken : List Text} {items : List Item}
    (clean : layoutOffences taken items = []) :
    ∀ it ∈ items, it.size = .ok it.extent := by
  induction items generalizing taken with
  | nil => simp
  | cons first rest ih =>
      simp only [layoutOffences, List.append_eq_nil_iff,
        Option.toList_eq_nil_iff] at clean
      intro it member
      rcases List.mem_cons.mp member with equal | later
      · subst equal
        obtain ⟨n, size⟩ := size_of_layoutOffence? clean.1
        simp [Item.extent, size]
      · exact ih clean.2 it later

/-! ## Programs -/

/-- The code holds the words of each item at the address of the item, and
nothing else. -/
structure Placed (items : List Item) (table : NameTable)
    (code : Array Word) : Prop where
  sizes : ∀ it ∈ items, it.size = .ok it.extent
  length : code.size = totalExtent items
  words : ∀ (i : Nat) (it : Item), items[i]? = some it →
    ∃ words, it.encode table = .ok words ∧ words.length = it.extent ∧
      ∀ k < words.length, code[addressOf items i + k]? = words[k]?
  before : ∀ i, (emitFrom table (items.take i) #[] []).code.size =
    addressOf items i

theorem layoutOffences_of_layout {p : Program} (laid : p.layout.problems = []) :
    layoutOffences [] p.items = [] := by
  rw [layout_problems, List.take_eq_nil_iff] at laid
  simpa [maxProblems] using laid

/-- Layout and emission without problems place every item. -/
theorem placed_of_passes {p : Program} {table : NameTable}
    (laid : p.layout.problems = []) (emitted : (p.emit table).problems = []) :
    Placed p.items table (p.emit table).code := by
  have sizes := size_of_clean (layoutOffences_of_layout laid)
  have clean := emitFrom_clean emitted
  have agree : ∀ it ∈ p.items, (it.words table).length = it.extent := by
    intro it member
    exact length_words (sizes it member) (clean it member)
  have code : (p.emit table).code = #[] ++ p.items.flatMap (Item.words table) :=
    emitFrom_code #[] clean
  refine ⟨sizes, ?_, ?_, ?_⟩
  · rw [code, ← length_flatMap_words agree]
    simp
  · intro i it item
    have member := List.mem_of_getElem? item
    refine ⟨it.words table, encode_of_clean (clean it member),
      agree it member, ?_⟩
    intro k inside
    rw [code, ← getElem?_flatMap_words agree item k inside]
    simp
  · intro i
    have cleanFront : ∀ it ∈ p.items.take i,
        emitOffence? table.contains it = none := by
      intro it member
      exact clean it (List.mem_of_mem_take member)
    have agreeFront : ∀ it ∈ p.items.take i, (it.words table).length =
        it.extent := by
      intro it member
      exact agree it (List.mem_of_mem_take member)
    rw [emitFrom_code _ cleanFront, addressOf,
      ← length_flatMap_words agreeFront]
    simp

/-! ## Assembled sources -/

/-- What is known of a source that was assembled. -/
theorem assemble_ok {name source : Text} {natives : NameTable}
    {assembled : Assembled}
    (result : assemble name source natives = .ok assembled) :
    let program := assembled.program
    let linkage := program.link program.layout.labels natives
    program = ⟨name, sourceItems name source⟩ ∧
      assembled.labels = program.layout.labels ∧
      assembled.code = (program.emit linkage.table).code ∧
      program.layout.problems = [] ∧ linkage.problems = [] ∧
      (program.emit linkage.table).problems = [] := by
  cases readResult : read name source with
  | error fault => simp [assemble, readResult] at result
  | ok reading =>
      rw [assemble_of_read readResult] at result
      split at result
      next noProblems =>
          have program := readLines_program readResult noProblems
          split at result
          next laid =>
              split at result
              next linked =>
                  split at result
                  next emitted =>
                      cases result
                      exact ⟨program, rfl, rfl, laid, linked, emitted⟩
                  next => cases result
              next => cases result
          next => cases result
      next => cases result

/-- Linking without problems gives native functions their address and labels the
address from the layout; no label has the name of a native function. -/
theorem link_get? {p : Program} {labels natives : NameTable}
    (linked : (p.link labels natives).problems = []) (name : Text) :
    (name ∈ declared p.items → natives.get? name = none) ∧
      (p.link labels natives).table.get? name =
        if name ∈ declared p.items then some ((labels.get? name).getD 0)
        else natives.get? name := by
  rw [link_problems, List.take_eq_nil_iff, List.filterMap_eq_nil_iff] at linked
  have clean : ∀ it ∈ p.items, linkOffence? natives it = none := by
    simpa [maxProblems] using linked
  refine ⟨?_, linkFrom_get? labels natives p.items natives [] name clean⟩
  intro member
  obtain ⟨it, item, label⟩ := List.mem_filterMap.mp member
  obtain ⟨form, rfl⟩ := label?_eq_some.mp label
  have noOffence := clean it item
  cases native : natives.contains it.name with
  | true => simp [linkOffence?, form, native] at noOffence
  | false => exact NameTable.contains_eq_false.mp native

/-- The labels of a layout without problems are the declared ones, each with the
address of its declaration. -/
theorem layout_get?_iff {p : Program}
    (laid : p.layout.problems = []) (name : Text)
    (value : Word) :
    p.layout.labels.get? name = some value ↔
      ∃ i it, p.items[i]? = some it ∧ it.label? = some name ∧
        value = Int64.ofNat (addressOf p.items i) := by
  have clean := layoutOffences_of_layout laid
  have address {i : Nat} {it : Item} (item : p.items[i]? = some it)
      (label : it.label? = some name) :
      p.layout.labels.get? name = some (Int64.ofNat (addressOf p.items i)) := by
    have found := layoutFrom_get?_of_declared 0 HasNames.empty clean item label
    rwa [Nat.zero_add] at found
  constructor
  · intro found
    have either := mem_declared_of_layoutFrom 0 HasNames.empty clean found
    simp only [List.not_mem_nil, false_or] at either
    obtain ⟨it, member, label⟩ := List.mem_filterMap.mp either
    obtain ⟨i, item⟩ := List.mem_iff_getElem?.mp member
    refine ⟨i, it, item, label, ?_⟩
    rw [address item label] at found
    exact (Option.some.inj found).symm
  · rintro ⟨i, it, item, label, rfl⟩
    exact address item label

theorem layout_names_iff {p : Program} (laid : p.layout.problems = [])
    (name : Text) :
    (∃ value, p.layout.labels.get? name = some value) ↔
      name ∈ declared p.items := by
  simp only [layout_get?_iff laid, declared, List.mem_filterMap]
  constructor
  · rintro ⟨value, i, it, item, label, -⟩
    exact ⟨it, List.mem_of_getElem? item, label⟩
  · rintro ⟨it, member, label⟩
    obtain ⟨i, item⟩ := List.mem_iff_getElem?.mp member
    exact ⟨_, i, it, item, label, rfl⟩

theorem word_of_name {table : NameTable} {o : Operand}
    {target : Text} {word : Word} (value : o.value = .name target)
    (resolved : o.word table = .ok word) :
    table.get? target = some word := by
  simp only [Operand.word, value] at resolved
  cases found : table.get? target with
  | none => simp [found] at resolved
  | some address =>
      simp only [found, Except.ok.injEq] at resolved
      rw [resolved]

/-- The words of an instruction with an operand are its opcode and the
operand. -/
theorem encode_of_operand {table : NameTable} {it : Item} {o : Operand}
    {words : List Word} (operand : it.operand? = some o)
    (encoded : it.encode table = .ok words) :
    ∃ op word, Opcode.ofName? it.name = some op ∧ op.info.immediate = true ∧
      o.word table = .ok word ∧ words = [op.code, word] := by
  cases form : it.form with
  | label | data | string | unknown => simp [Item.operand?, form] at operand
  | instruction own =>
      simp only [Item.operand?, form] at operand
      subst operand
      simp only [Item.encode, form, encodeInstruction] at encoded
      cases opcode : Opcode.ofName? it.name with
      | none => simp [opcode] at encoded
      | some op =>
          cases immediate : op.info.immediate with
          | false => simp [opcode, immediate] at encoded
          | true =>
              cases resolved : o.word table with
              | error problem =>
                  simp [opcode, immediate, resolved, Except.map] at encoded
              | ok word =>
                  simp only [opcode, immediate, resolved, Except.map,
                    Except.ok.injEq] at encoded
                  exact ⟨op, word, rfl, immediate, rfl, encoded.symm⟩

/-- An operand of an assembled source that names a label or a native function
stands in the code as the address of that label or function. -/
theorem assembled_operand {name source : Text} {natives : NameTable}
    {assembled : Assembled}
    (result : assemble name source natives = .ok assembled) {i : Nat}
    {it : Item} {operand : Operand} {target : Text}
    (item : assembled.program.items[i]? = some it)
    (written : it.operand? = some operand)
    (named : operand.value = .name target) :
    let start := addressOf assembled.program.items i
    (∃ op, Opcode.ofName? it.name = some op ∧
      assembled.code[start]? = some op.code) ∧
    ((∃ value, assembled.labels.get? target = some value) ∨
      ∃ value, natives.get? target = some value) ∧
    (∀ value, assembled.labels.get? target = some value →
      assembled.code[start + 1]? = some value) ∧
    ∀ value, natives.get? target = some value →
      assembled.code[start + 1]? = some value := by
  obtain ⟨-, labels, code, laid, linked, emitted⟩ := assemble_ok result
  obtain ⟨words, encoded, -, placed⟩ :=
    (placed_of_passes laid emitted).words i it item
  obtain ⟨op, word, opcode, -, resolved, rfl⟩ :=
    encode_of_operand written encoded
  have first := placed 0 (by simp)
  have second := placed 1 (by simp)
  simp only [Nat.add_zero, List.getElem?_cons_zero, List.getElem?_cons_succ]
    at first second
  have looked := word_of_name named resolved
  obtain ⟨unshadowed, table⟩ := link_get? linked target
  rw [table] at looked
  rw [labels, code]
  refine ⟨⟨op, opcode, first⟩, ?_⟩
  rw [second, ← looked]
  by_cases label : target ∈ declared assembled.program.items
  · obtain ⟨value, found⟩ := (layout_names_iff laid target).mpr label
    simp [label, found, unshadowed label]
  · have absent : assembled.program.layout.labels.get? target = none := by
      rw [Option.eq_none_iff_forall_not_mem]
      intro value found
      exact label ((layout_names_iff laid target).mp ⟨value, found⟩)
    simp only [label, if_false] at looked ⊢
    simp [absent, looked]

/-- Layout and emission agree on every address.

In any program whose layout and emission report nothing, the code is as long as
the sizes of the items say, and each item's words stand at the sum of the sizes
before it, which is the number of words emitted before it.  In an assembled
source, accordingly, the labels are exactly the declared ones, each with the
number of words before its declaration, and an operand that names a label or a
native function is the address of that label or function. -/
theorem layout_agrees_with_emission :
    (∀ (p : Program) (table : NameTable),
      p.layout.problems = [] → (p.emit table).problems = [] →
        Placed p.items table (p.emit table).code) ∧
    (∀ (name source : Text) (natives : NameTable) (assembled : Assembled),
      assemble name source natives = .ok assembled →
        let items := assembled.program.items
        let code := assembled.code
        (∃ table, Placed items table code) ∧
        (∀ label value, assembled.labels.get? label = some value ↔
          ∃ i it, items[i]? = some it ∧ it.label? = some label ∧
            value = Int64.ofNat (addressOf items i)) ∧
        (∀ i, addressOf items i ≤ code.size ∧
          (source.length < 2 ^ 63 →
            (Int64.ofNat (addressOf items i)).toInt = addressOf items i)) ∧
        (∀ i it operand target, items[i]? = some it →
          it.operand? = some operand → operand.value = .name target →
          (∃ op, Opcode.ofName? it.name = some op ∧
            code[addressOf items i]? = some op.code) ∧
          ((∃ value, assembled.labels.get? target = some value) ∨
            ∃ value, natives.get? target = some value) ∧
          (∀ value, assembled.labels.get? target = some value →
            code[addressOf items i + 1]? = some value) ∧
          ∀ value, natives.get? target = some value →
            code[addressOf items i + 1]? = some value)) := by
  refine ⟨fun p table laid emitted => placed_of_passes laid emitted, ?_⟩
  intro name source natives assembled result
  obtain ⟨program, labels, code, laid, linked, emitted⟩ := assemble_ok result
  have placed := placed_of_passes laid emitted
  rw [← code] at placed
  refine ⟨⟨_, placed⟩, ?_, ?_, ?_⟩
  · intro label value
    rw [labels]
    exact layout_get?_iff laid label value
  · intro i
    have inside := addressOf_le assembled.program.items i
    refine ⟨placed.length ▸ inside, ?_⟩
    intro short
    apply Int64.toInt_ofNat_of_lt
    have paid := totalExtent_sourceItems_le name source
    rw [program] at inside
    rw [program]
    exact Nat.lt_of_le_of_lt (Nat.le_trans inside paid) short
  · intro i it operand target item written named
    exact assembled_operand result item written named

/-- A loop behind one instruction: the jump holds the address of its label. -/
theorem layout_agrees_with_emission_loop :
    ∃ assembled,
      assemble [] (Text.ofString "noop\nagain: jump again\n") .empty =
        .ok assembled ∧ Placed assembled.program.items assembled.labels
          (assembled.program.emit assembled.labels).code ∧
        assembled.labels.get? (Text.ofString "again") = some 1 ∧
        (Int64.ofNat (addressOf assembled.program.items 1)).toInt = 1 ∧
        assembled.code[2]? = some 1 := by
  obtain ⟨passes, sources⟩ := layout_agrees_with_emission
  have agreed := sources []
    (Text.ofString "noop\nagain: jump again\n") .empty _ rfl
  have operand := agreed.2.2.2 2 _ ⟨_, .name (Text.ofString "again")⟩
    (Text.ofString "again") rfl rfl rfl
  refine ⟨_, rfl, passes _ _ rfl rfl, rfl, ?_, operand.2.2.1 1 rfl⟩
  exact (agreed.2.2.1 1).2 (by decide)

end WordMachine.Assembly
