import WordMachine.Assembly.Assemble
import WordMachine.Proofs.NameTable

/-!
# What the passes report

Every pass over the items of a program reports the offending ones, in the order
in which they stand, and gives up after ten.  The offences of a pass are defined
here for one item at a time, from what the program declares and without the
tables that the passes build; the main results say that a pass reports the first
ten of them.
-/

namespace WordMachine.Assembly

/-! ## Offences of single items -/

/-- The names that items declare as labels, in order. -/
def declared (items : List Item) : List Text :=
  items.filterMap Item.label?

@[simp] theorem declared_nil : declared [] = [] := rfl

@[simp] theorem declared_cons (it : Item) (rest : List Item) :
    declared (it :: rest) = it.label?.toList ++ declared rest := by
  cases label : it.label? <;> simp [declared, label]

/-- The offence of an item against the layout, after the names in `taken` were
declared: a label declared again, an unknown mnemonic, a malformed string or an
item of no known form. -/
def layoutOffence? (taken : List Text) (it : Item) : Option Problem :=
  match it.form with
  | .label =>
    if it.name ∈ taken then some ⟨it.pos, .duplicateLabel, it.name⟩ else none
  | .instruction _ =>
    match Opcode.ofName? it.name with
    | some _ => none
    | none => some ⟨it.pos, .unknownMnemonic, it.name⟩
  | .data _ => none
  | .string literal =>
    match StringLiteral.encode literal with
    | .ok _ => none
    | .error _ => some ⟨it.pos, .malformedSource, it.name⟩
  | .unknown => some ⟨it.pos, .malformedSource, it.name⟩

/-- An item that is no label offends if it has no size. -/
theorem layoutOffence?_eq_size {it : Item} (taken : List Text)
    (notLabel : it.form ≠ .label) :
    layoutOffence? taken it =
      match it.size with
      | .ok _ => none
      | .error cause => some ⟨it.pos, cause, it.name⟩ := by
  cases form : it.form with
  | label => exact absurd form notLabel
  | instruction operand =>
      cases opcode : Opcode.ofName? it.name <;> simp [layoutOffence?,
        Item.size, form, opcode]
  | data value => simp [layoutOffence?, Item.size, form]
  | string literal =>
      cases encoded : StringLiteral.encode literal <;>
        simp [layoutOffence?, Item.size, form, StringLiteral.size,
          encoded, Except.map]
  | unknown => simp [layoutOffence?, Item.size, form]

theorem label?_eq_some {it : Item} {name : Text} :
    it.label? = some name ↔ it.form = .label ∧ it.name = name := by
  cases form : it.form <;> simp [Item.label?, form]

/-- A label in order is new. -/
theorem fresh_of_clean {taken : List Text} {it : Item} {name : Text}
    (clean : layoutOffence? taken it = none) (label : it.label? = some name) :
    name ∉ taken := by
  obtain ⟨form, rfl⟩ := label?_eq_some.mp label
  intro again
  simp [layoutOffence?, form, again] at clean

/-- An item in order has a size. -/
theorem size_of_layoutOffence? {taken : List Text} {it : Item}
    (clean : layoutOffence? taken it = none) : ∃ n, it.size = .ok n := by
  cases size : it.size with
  | ok n => exact ⟨n, rfl⟩
  | error cause =>
      by_cases form : it.form = .label
      · simp [Item.size, form] at size
      · simp [layoutOffence?_eq_size taken form, size] at clean

/-- The offences of items against the layout, after the names in `taken` were
declared. -/
def layoutOffences (taken : List Text) : List Item → List Problem
  | [] => []
  | it :: rest =>
    (layoutOffence? taken it).toList ++
      layoutOffences (it.label?.toList ++ taken) rest

/-- The offence of an item against linking: a label with the name of a native
function. -/
def linkOffence? (natives : NameTable) (it : Item) : Option Problem :=
  match it.form with
  | .label =>
    if natives.contains it.name then
      some ⟨it.pos, .duplicateLabel,
        it.name ++ Text.ofString " is a native function"⟩
    else none
  | _ => none

/-- The offence of an item against emission, where `defined` tells which names
operands may use: an unknown mnemonic, an operand too many or too few, an
operand that names nothing, or a malformed string. -/
def emitOffence? (defined : Text → Bool) (it : Item) : Option Problem :=
  match it.form with
  | .label | .data _ | .unknown => none
  | .string literal =>
    match StringLiteral.encode literal with
    | .ok _ => none
    | .error fault => some ⟨it.pos, .malformedSource, fault.message⟩
  | .instruction operand =>
    match Opcode.ofName? it.name with
    | none => some ⟨it.pos, .unknownMnemonic, it.name⟩
    | some op =>
      match op.info.immediate, operand with
      | false, none => none
      | false, some o =>
        some ⟨o.pos, .invalidOperand,
          it.name ++ Text.ofString " takes no operand"⟩
      | true, none =>
        some ⟨it.pos, .invalidOperand,
          it.name ++ Text.ofString " expects an operand"⟩
      | true, some o =>
        match o.value with
        | .numeral _ => none
        | .name target =>
          if defined target then none else some ⟨o.pos, .undefinedLabel, target⟩

/-- An item offends against emission if it cannot be encoded. -/
theorem emitOffence?_eq_encode (table : NameTable) (it : Item) :
    emitOffence? table.contains it =
      match it.encode table with
      | .ok _ => none
      | .error problem => some problem := by
  cases form : it.form with
  | label | data | unknown => simp [emitOffence?, Item.encode, form]
  | string literal =>
      cases encoded : StringLiteral.encode literal <;>
        simp [emitOffence?, Item.encode, form, encoded]
  | instruction operand =>
      cases opcode : Opcode.ofName? it.name with
      | none =>
          simp [emitOffence?, Item.encode, encodeInstruction, form, opcode]
      | some op =>
          cases immediate : op.info.immediate with
          | false =>
              cases operand <;>
                simp [emitOffence?, Item.encode, encodeInstruction, form,
                  opcode, immediate]
          | true =>
              cases operand with
              | none =>
                  simp [emitOffence?, Item.encode, encodeInstruction, form,
                    opcode, immediate]
              | some o =>
                  cases value : o.value with
                  | numeral n =>
                      simp [emitOffence?, Item.encode,
                        encodeInstruction, form, opcode, immediate, value,
                        Operand.word, Except.map]
                  | name target =>
                      cases found : table.get? target <;>
                        simp [emitOffence?, Item.encode,
                          encodeInstruction, form, opcode, immediate, value,
                          Operand.word, Except.map, NameTable.contains, found]

/-! ## Giving up -/

theorem isFull_iff {problems : List Problem} :
    isFull problems = true ↔ maxProblems ≤ problems.length := by
  simp [isFull]

/-- Reporting one more problem and giving up when there are ten of them leaves
the first ten of all that could be reported, if the rest of the pass does. -/
theorem take_reported {found reported more : List Problem} {problem : Problem}
    (room : found.length < maxProblems)
    (later : (problem :: found).length < maxProblems →
      reported = ((problem :: found).reverse ++ more).take maxProblems) :
    (if isFull (problem :: found) then (problem ::
      found).reverse else reported) =
      (found.reverse ++ problem :: more).take maxProblems := by
  have shifted : (problem :: found).reverse ++ more = found.reverse ++
      problem :: more := by
    simp
  split
  next full =>
      rw [isFull_iff] at full
      have length : (problem :: found).reverse.length = maxProblems := by
        simp only [List.length_reverse, List.length_cons] at full ⊢
        omega
      rw [← shifted, ← length, List.take_left]
  next notFull =>
      rw [isFull_iff, Nat.not_le] at notFull
      rw [← shifted, later notFull]

theorem take_found {found : List Problem} (room : found.length < maxProblems) :
    (found.reverse ++ []).take maxProblems = found.reverse := by
  rw [List.append_nil, List.take_of_length_le]
  simpa using Nat.le_of_lt room

/-! ## Reading -/

/-- What the lines of a source yield, the first of which has the number
`line`. -/
def readingsFrom (name : Text) : List Text → (line : Nat) → List LineReading
  | [], _ => []
  | text :: rest, line =>
    readLine ⟨name, line⟩ (withoutReturn text) ::
      readingsFrom name rest (line + 1)

def lineReadings (name source : Text) : List LineReading :=
  readingsFrom name (sourceLines source) 1

def sourceItems (name source : Text) : List Item :=
  (lineReadings name source).flatMap LineReading.items

/-- A source can be read if no line is too long. -/
theorem readLines_of_short {lines : List Text} (name : Text) (line : Nat)
    (items : List Item) (found : List Problem)
    (short : ∀ text ∈ lines, text.length < maxLineLength) :
    ∃ reading, readLines name lines line items found = .ok reading := by
  induction lines generalizing line items found with
  | nil => exact ⟨_, rfl⟩
  | cons text rest ih =>
      have headShort : ¬ maxLineLength ≤ text.length :=
        Nat.not_le.mpr (short text (by simp))
      have restShort : ∀ other ∈ rest, other.length < maxLineLength := by
        intro other member
        exact short other (by simp [member])
      rw [readLines, if_neg headShort]
      split
      · exact ⟨_, rfl⟩
      · exact ih _ _ _ restShort

/-- Reading reports the problems of the first ten lines that have one. -/
theorem readLines_problems {name : Text} {lines : List Text} {line : Nat}
    {items : List Item} {found : List Problem} {reading : Reading}
    (result : readLines name lines line items found = .ok reading)
    (room : found.length ≤ maxProblems) :
    reading.problems =
      (found.reverse ++ (readingsFrom name lines line).filterMap
        LineReading.problem?).take maxProblems := by
  induction lines generalizing line items found with
  | nil =>
      simp only [readLines, Except.ok.injEq] at result
      subst result
      simp [readingsFrom, List.take_of_length_le, room]
  | cons text rest ih =>
      rw [readLines] at result
      split at result
      · cases result
      · split at result
        next full =>
            simp only [Except.ok.injEq] at result
            subst result
            have length : found.reverse.length = maxProblems := by
              rw [isFull_iff] at full
              simpa using Nat.le_antisymm room full
            rw [← length, List.take_left]
        next notFull =>
            rw [isFull_iff, Nat.not_le] at notFull
            have roomNext : ((readLine ⟨name,
                line⟩ (withoutReturn text)).problem?.toList ++
                found).length ≤ maxProblems := by
              cases (readLine ⟨name, line⟩ (withoutReturn text)).problem? <;>
                simp <;> omega
            rw [ih result roomNext, readingsFrom, List.filterMap_cons]
            cases (readLine ⟨name, line⟩ (withoutReturn text)).problem? <;> simp

/-- Reading without problems yields the items of all lines. -/
theorem readLines_program {name : Text} {lines : List Text} {line : Nat}
    {items : List Item} {found : List Problem} {reading : Reading}
    (result : readLines name lines line items found = .ok reading)
    (clean : reading.problems = []) :
    reading.program =
      ⟨name,
        items.reverse ++
          (readingsFrom name lines line).flatMap LineReading.items⟩ := by
  induction lines generalizing line items found with
  | nil =>
      simp only [readLines, Except.ok.injEq] at result
      simp [← result, readingsFrom]
  | cons text rest ih =>
      rw [readLines] at result
      split at result
      · cases result
      · split at result
        next full =>
            simp only [Except.ok.injEq] at result
            subst result
            rw [isFull_iff] at full
            have empty : found.length = 0 := by
              simpa using congrArg List.length clean
            simp [empty, maxProblems] at full
        next notFull =>
            rw [ih result]
            simp [readingsFrom]

/-! ## Layout -/

/-- The table has an address for exactly these names. -/
def HasNames (labels : NameTable) (taken : List Text) : Prop :=
  ∀ name, labels.contains name = true ↔ name ∈ taken

/-- The labels after an item that is laid out at `address`. -/
def declare (labels : NameTable) (address : Nat) (it : Item) : NameTable :=
  match it.label? with
  | some name => labels.insert name (Int64.ofNat address)
  | none => labels

theorem HasNames.empty : HasNames .empty [] := by
  intro name
  simp [NameTable.contains]

theorem HasNames.declare {labels : NameTable} {taken : List Text}
    (names : HasNames labels taken) (address : Nat) (it : Item) :
    HasNames (Assembly.declare labels address it)
      (it.label?.toList ++ taken) := by
  intro name
  cases label : it.label? with
  | none => simpa [Assembly.declare, label] using names name
  | some new =>
      have old := names name
      rw [NameTable.contains_iff] at old
      by_cases equal : name = new
      · simp [Assembly.declare, label, equal]
      · simp [Assembly.declare, label, equal, old]

/-- A label that is declared again adds no name. -/
theorem HasNames.offence {labels : NameTable} {taken : List Text} {it : Item}
    {problem : Problem} (names : HasNames labels taken)
    (offence : layoutOffence? taken it = some problem) :
    HasNames labels (it.label?.toList ++ taken) := by
  intro name
  rw [names name]
  cases form : it.form with
  | label =>
      have again : it.name ∈ taken := by
        by_cases again : it.name ∈ taken
        · exact again
        · simp [layoutOffence?, form, again] at offence
      simp only [Item.label?, form, Option.toList_some, List.singleton_append,
        List.mem_cons]
      constructor
      · exact Or.inr
      · rintro (rfl | old)
        · exact again
        · exact old
  | instruction | data | string | unknown => simp [Item.label?, form]

section LayoutStep

variable {taken : List Text} {labels : NameTable} {it : Item}

/-- One step of the layout pass at an offending item. -/
theorem layoutFrom_cons_of_offence {problem : Problem}
    (names : HasNames labels taken)
    (offence : layoutOffence? taken it = some problem) (rest : List Item)
    (address : Nat) (found : List Problem) :
    layoutFrom (it :: rest) address labels found =
      if isFull (problem :: found) then ⟨labels, (problem :: found).reverse⟩
      else layoutFrom rest address labels (problem :: found) := by
  by_cases form : it.form = .label
  · by_cases again : it.name ∈ taken
    · have contained := (names it.name).mpr again
      simp only [layoutOffence?, form, again, if_true,
        Option.some.injEq] at offence
      simp [layoutFrom, form, contained, offence]
    · simp [layoutOffence?, form, again] at offence
  · rw [layoutOffence?_eq_size taken form] at offence
    cases size : it.size with
    | ok n => simp [size] at offence
    | error cause =>
        simp only [size, Option.some.injEq] at offence
        simp [layoutFrom, size, offence]

/-- One step of the layout pass at an item in order. -/
theorem layoutFrom_cons_of_clean (names : HasNames labels taken)
    (clean : layoutOffence? taken it = none)
    (rest : List Item) (address : Nat) (found : List Problem) :
    ∃ n, it.size = .ok n ∧
      layoutFrom (it :: rest) address labels found =
        layoutFrom rest (address + n) (declare labels address it) found := by
  obtain ⟨n, size⟩ := size_of_layoutOffence? clean
  refine ⟨n, size, ?_⟩
  by_cases form : it.form = .label
  · have absent : labels.contains it.name = false := by
      rw [← Bool.not_eq_true, names]
      exact fresh_of_clean clean (label?_eq_some.mpr ⟨form, rfl⟩)
    simp only [Item.size, form, Except.ok.injEq] at size
    simp [layoutFrom, form, absent, declare, Item.label?, ← size]
  · simp [layoutFrom, size, declare, Item.label?]

end LayoutStep

/-- The layout pass reports the first ten offences; `taken` are the names that
have an address when it starts. -/
theorem layoutFrom_problems {taken : List Text} {labels : NameTable}
    {found : List Problem} (items : List Item) (address : Nat)
    (names : HasNames labels taken) (room : found.length < maxProblems) :
    (layoutFrom items address labels found).problems =
      (found.reverse ++ layoutOffences taken items).take maxProblems := by
  induction items generalizing taken labels found address with
  | nil => exact (take_found room).symm
  | cons it rest ih =>
      cases offence : layoutOffence? taken it with
      | none =>
          obtain ⟨n, -, equal⟩ :=
            layoutFrom_cons_of_clean names offence rest address found
          rw [equal, ih (address + n) (names.declare address it) room]
          simp [layoutOffences, offence]
      | some problem =>
          rw [layoutFrom_cons_of_offence names offence,
            apply_ite Layout.problems]
          simp only [layoutOffences, offence, Option.toList_some,
            List.singleton_append]
          exact take_reported room (ih address (names.offence offence))

theorem layout_problems (p : Program) :
    p.layout.problems = (layoutOffences [] p.items).take maxProblems :=
  layoutFrom_problems p.items 0 HasNames.empty (by decide)

/-! ## Linking -/

/-- The table of operand names after an item, given the addresses of the
labels. -/
def joined (labels table : NameTable) (it : Item) : NameTable :=
  match it.label? with
  | some name => table.insert name ((labels.get? name).getD 0)
  | none => table

section LinkStep

variable {natives : NameTable} {it : Item}

/-- One step of linking at an offending item. -/
theorem linkFrom_cons_of_offence {problem : Problem}
    (offence : linkOffence? natives it = some problem)
    (labels table : NameTable) (rest : List Item) (found : List Problem) :
    linkFrom labels natives (it :: rest) table found =
      if isFull (problem :: found) then ⟨table, (problem :: found).reverse⟩
      else linkFrom labels natives rest table (problem :: found) := by
  cases form : it.form with
  | label =>
      cases native : natives.contains it.name with
      | true =>
          simp only [linkOffence?, form, native, if_true,
            Option.some.injEq] at offence
          simp [linkFrom, form, native, offence]
      | false => simp [linkOffence?, form, native] at offence
  | instruction | data | string | unknown =>
      simp [linkOffence?, form] at offence

/-- One step of linking at an item in order. -/
theorem linkFrom_cons_of_clean (clean : linkOffence? natives it = none)
    (labels table : NameTable) (rest : List Item) (found : List Problem) :
    linkFrom labels natives (it :: rest) table found =
      linkFrom labels natives rest (joined labels table it) found := by
  cases form : it.form with
  | label =>
      cases native : natives.contains it.name with
      | true => simp [linkOffence?, form, native] at clean
      | false => simp [linkFrom, form, native, joined, Item.label?]
  | instruction | data | string | unknown =>
      simp [linkFrom, form, joined, Item.label?]

end LinkStep

/-- Linking reports the first ten offences. -/
theorem linkFrom_problems {found : List Problem} (labels natives : NameTable)
    (items : List Item) (table : NameTable)
    (room : found.length < maxProblems) :
    (linkFrom labels natives items table found).problems =
      (found.reverse ++ items.filterMap (linkOffence? natives)).take
        maxProblems := by
  induction items generalizing table found with
  | nil => exact (take_found room).symm
  | cons it rest ih =>
      cases offence : linkOffence? natives it with
      | none =>
          rw [linkFrom_cons_of_clean offence, ih _ room,
            List.filterMap_cons_none offence]
      | some problem =>
          rw [linkFrom_cons_of_offence offence, apply_ite Linkage.problems,
            List.filterMap_cons_some offence]
          exact take_reported room (ih table)

theorem link_problems (p : Program) (labels natives : NameTable) :
    (p.link labels natives).problems =
      (p.items.filterMap (linkOffence? natives)).take maxProblems :=
  linkFrom_problems labels natives p.items natives (by decide)

/-- The table that linking builds has the labels of the program above whatever
was in it. -/
theorem linkFrom_get? (labels natives : NameTable) (items : List Item)
    (table : NameTable) (found : List Problem) (name : Text)
    (clean : ∀ it ∈ items, linkOffence? natives it = none) :
    (linkFrom labels natives items table found).table.get? name =
      if name ∈ declared items then some ((labels.get? name).getD 0)
        else table.get? name := by
  induction items generalizing table with
  | nil => simp [linkFrom]
  | cons it rest ih =>
      have headClean := clean it (by simp)
      have restClean : ∀ other ∈ rest, linkOffence? natives other = none := by
        intro other member
        exact clean other (by simp [member])
      rw [linkFrom_cons_of_clean headClean, ih _ restClean]
      by_cases later : name ∈ declared rest
      · simp [later]
      · cases label : it.label? with
        | none => simp [later, label, joined]
        | some own =>
            by_cases equal : name = own <;> simp [later, label, joined, equal]

/-! ## Emission -/

/-- The words of an item, none if it has a problem. -/
def Item.words (table : NameTable) (it : Item) : List Word :=
  match it.encode table with
  | .ok words => words
  | .error _ => []

section EmitStep

variable {table : NameTable} {it : Item}

theorem encode_of_clean (clean : emitOffence? table.contains it = none) :
    it.encode table = .ok (it.words table) := by
  rw [emitOffence?_eq_encode] at clean
  cases encoded : it.encode table with
  | ok words => simp [Item.words, encoded]
  | error problem => simp [encoded] at clean

theorem encode_of_offence {problem : Problem}
    (offence : emitOffence? table.contains it = some problem) :
    it.encode table = .error problem := by
  rw [emitOffence?_eq_encode] at offence
  cases encoded : it.encode table with
  | ok words => simp [encoded] at offence
  | error reported =>
      simp only [encoded, Option.some.injEq] at offence
      rw [offence]

/-- A pass without problems does not stop at an item in order. -/
theorem emitFrom_cons_of_clean {found : List Problem}
    (clean : emitOffence? table.contains it = none)
    (room : found.length < maxProblems) (rest : List Item) (code : Array Word) :
    emitFrom table (it :: rest) code found =
      emitFrom table rest (code ++ it.words table) found := by
  have notFull : isFull found = false := by
    simpa [isFull] using room
  simp [emitFrom, encode_of_clean clean, notFull]

end EmitStep

/-- What was reported before stays reported. -/
theorem emitFrom_keeps (table : NameTable) (items : List Item)
    (code : Array Word) (found : List Problem) :
    found.reverse <+: (emitFrom table items code found).problems := by
  fun_induction emitFrom table items code found with
  | case1 code found => exact List.prefix_rfl
  | case2 => exact List.prefix_rfl
  | case3 code found it rest words encoded notFull ih => exact ih
  | case4 code found it rest problem encoded literal form ih =>
      refine List.IsPrefix.trans ?_ ih
      split <;> simp
  | case5 => simp
  | case6 code found it rest problem encoded notString notFull ih =>
      refine List.IsPrefix.trans ?_ ih
      simp

/-- Whether the literal of a string item, if it is one, stands for words. -/
def Item.HasLiteral (it : Item) : Prop :=
  ∀ literal, it.form = .string literal → ∃ words,
  StringLiteral.encode literal = .ok words

/-- An offending item is reported while there is room. -/
theorem emitFrom_reports {table : NameTable} {it : Item} {problem : Problem}
    {found : List Problem}
    (offence : emitOffence? table.contains it = some problem)
    (room : found.length < maxProblems) (rest : List Item) (code : Array Word) :
    (problem :: found).reverse <+:
      (emitFrom table (it :: rest) code found).problems := by
  have notFull : isFull found = false := by
    simpa [isFull] using room
  simp only [emitFrom, encode_of_offence offence, notFull]
  split
  next => exact emitFrom_keeps table rest code _
  next =>
      split
      next => exact List.prefix_rfl
      next => exact emitFrom_keeps table rest code _

/-- Emission without problems has met no offending item. -/
theorem emitFrom_clean {table : NameTable} {items : List Item}
    {code : Array Word} (clean : (emitFrom table items code []).problems = []) :
    ∀ it ∈ items, emitOffence? table.contains it = none := by
  induction items generalizing code with
  | nil => simp
  | cons it rest ih =>
      have room : ([] : List Problem).length < maxProblems := by decide
      cases offence : emitOffence? table.contains it with
      | some problem =>
          have reported := emitFrom_reports offence room rest code
          rw [clean] at reported
          simp at reported
      | none =>
          rw [emitFrom_cons_of_clean offence room] at clean
          intro other member
          rcases List.mem_cons.mp member with equal | later
          · exact equal ▸ offence
          · exact ih clean other later

/-- Emission of items in order appends their words. -/
theorem emitFrom_code {table : NameTable} {items : List Item}
    (code : Array Word)
    (clean : ∀ it ∈ items, emitOffence? table.contains it = none) :
    (emitFrom table items code []).code =
      code ++ items.flatMap (Item.words table) := by
  induction items generalizing code with
  | nil => simp [emitFrom]
  | cons it rest ih =>
      have restClean : ∀ other ∈ rest,
          emitOffence? table.contains other = none := by
        intro other member
        exact clean other (by simp [member])
      rw [emitFrom_cons_of_clean (clean it (by simp)) (by decide),
        ih _ restClean]
      apply Array.ext'
      simp

/-- Emission reports the first ten offences, if no literal is malformed. -/
theorem emitFrom_problems {table : NameTable} {items : List Item}
    {found : List Problem} (code : Array Word)
    (literals : ∀ it ∈ items, it.HasLiteral)
    (room : found.length < maxProblems) :
    (emitFrom table items code found).problems =
      (found.reverse ++ items.filterMap (emitOffence? table.contains)).take
        maxProblems := by
  induction items generalizing code found with
  | nil => exact (take_found room).symm
  | cons it rest ih =>
      have restLiterals : ∀ other ∈ rest, other.HasLiteral := by
        intro other member
        exact literals other (by simp [member])
      cases offence : emitOffence? table.contains it with
      | none =>
          rw [emitFrom_cons_of_clean offence room, ih _ restLiterals room,
            List.filterMap_cons_none offence]
      | some problem =>
          have encoded := encode_of_offence offence
          have refused : emitFrom table (it :: rest) code found =
              if isFull (problem :: found) then
                ⟨code, (problem :: found).reverse⟩
              else emitFrom table rest code (problem :: found) := by
            cases form : it.form with
            | string literal =>
                obtain ⟨words, literalEncoded⟩ :=
                  literals it (by simp) literal form
                simp [Item.encode, form, literalEncoded] at encoded
            | label | instruction | data | unknown =>
                simp [emitFrom, encoded, form]
          rw [refused, apply_ite Emission.problems,
            List.filterMap_cons_some offence]
          exact take_reported room (ih code restLiterals)

/-! ## The passes in order -/

theorem checkProblems_bind {α : Type} (problems : List Problem)
    (next : Unit → Except Failure α) :
    (checkProblems problems >>= next) =
      if problems = [] then next () else .error (.problems problems) := by
  cases problems <;> rfl

/-- A source that could be read is assembled unless one of the passes reports
problems, and the first of them that does decides. -/
theorem assemble_of_read {name source : Text} {reading : Reading}
    (result : read name source = .ok reading) (natives : NameTable) :
    let program := reading.program
    let linkage := program.link program.layout.labels natives
    let emission := program.emit linkage.table
    assemble name source natives =
      if reading.problems = [] then
        if program.layout.problems = [] then
          if linkage.problems = [] then
            if emission.problems = [] then
              .ok ⟨emission.code, program.layout.labels, natives, program⟩
            else .error (.problems emission.problems)
          else .error (.problems linkage.problems)
        else .error (.problems program.layout.problems)
      else .error (.problems reading.problems) := by
  simp only [assemble, result, checkProblems_bind]
  rfl

end WordMachine.Assembly
