import WordMachine.NameTable

/-!
# Looking up names

Inserting a name changes the address of that name only.  Everything else about
tables of names follows from these equations.  The order of the entries matters
to no answer.
-/

namespace WordMachine

/-- Where no key comes twice, a key is looked up to exactly the value it stands
with. -/
theorem lookup_eq_some_iff_mem {α β : Type} [BEq α] [LawfulBEq α]
    {entries : List (α × β)}
    (distinct : (entries.map Prod.fst).Nodup) {a : α} {b : β} :
    entries.lookup a = some b ↔ (a, b) ∈ entries := by
  induction entries with
  | nil => simp
  | cons entry rest ih =>
    rw [List.map_cons, List.nodup_cons] at distinct
    obtain ⟨key, value⟩ := entry
    rw [List.lookup_cons, List.mem_cons]
    by_cases same : a = key
    · subst same
      have absent : (a, b) ∉ rest := fun member =>
        distinct.1 (List.mem_map.mpr ⟨_, member, rfl⟩)
      simp [absent, eq_comm]
    · simp [beq_eq_false_iff_ne.mpr same, same, ih distinct.2]

namespace NameTable

@[ext] theorem ext {s t : NameTable}
    (entries : s.entries = t.entries) : s = t := by
  obtain ⟨_, _⟩ := s
  obtain ⟨_, _⟩ := t
  cases entries
  rfl

@[simp] theorem get?_empty (name : Text) : empty.get? name = none := rfl

private theorem lookup_setEntry (name other : Text) (address : Word)
    (entries : List (Text × Word)) :
    (setEntry name address entries).lookup other =
      if other = name then some address else entries.lookup other := by
  induction entries with
  | nil =>
      by_cases equal : other = name
      · simp [setEntry, equal]
      · simp [setEntry, List.lookup_cons, beq_eq_false_iff_ne.mpr equal, equal]
  | cons entry rest ih =>
      obtain ⟨key, value⟩ := entry
      by_cases same : key = name
      · subst same
        by_cases equal : other = key
        · simp [setEntry, equal]
        · simp [setEntry, List.lookup_cons,
            beq_eq_false_iff_ne.mpr equal, equal]
      · simp only [setEntry, same, if_false]
        by_cases found : other = key
        · simp [found, same]
        · simp [List.lookup_cons, beq_eq_false_iff_ne.mpr found, ih]

@[simp] theorem get?_insert (t : NameTable) (name other : Text)
    (address : Word) :
    (t.insert name address).get? other =
      if other = name then some address else t.get? other :=
  lookup_setEntry name other address t.entries

@[simp] theorem contains_iff {t : NameTable} {name : Text} :
    t.contains name = true ↔ ∃ address, t.get? name = some address := by
  simp [contains, Option.isSome_iff_exists]

@[simp] theorem contains_eq_false {t : NameTable} {name : Text} :
    t.contains name = false ↔ t.get? name = none := by
  simp [contains]

/-- A table holds an address of a name exactly if it has the entry. -/
theorem get?_eq_some_iff {t : NameTable} {name : Text} {address : Word} :
    t.get? name = some address ↔ (name, address) ∈ t.entries :=
  lookup_eq_some_iff_mem t.nodup

theorem mem_names_iff {t : NameTable} {name : Text} :
    name ∈ t.names ↔ ∃ address, t.get? name = some address := by
  simp [names, get?_eq_some_iff]

theorem entries_insert_of_fresh {t : NameTable} {name : Text} (address : Word)
    (fresh : name ∉ t.names) :
    (t.insert name address).entries = t.entries ++ [(name, address)] := by
  obtain ⟨entries, distinct⟩ := t
  simp only [names, insert] at fresh ⊢
  clear distinct
  induction entries with
  | nil => rfl
  | cons entry rest ih =>
    simp only [List.map_cons, List.mem_cons, not_or] at fresh
    rw [setEntry, if_neg (Ne.symm fresh.1), ih fresh.2, List.cons_append]

theorem size_insert_le (t : NameTable) (name : Text) (address : Word) :
    (t.insert name address).size ≤ t.size + 1 := by
  obtain ⟨entries, distinct⟩ := t
  simp only [size, insert]
  clear distinct
  induction entries with
  | nil => exact Nat.le_refl 1
  | cons entry rest ih =>
    rw [setEntry]
    split
    · exact Nat.le_succ _
    · exact Nat.succ_le_succ ih

/-- Tables that give the same answers. -/
def Agrees (s t : NameTable) : Prop :=
  ∀ name, s.get? name = t.get? name

theorem agrees_of_perm {s t : NameTable} (same : s.entries.Perm t.entries) :
    s.Agrees t := by
  intro name
  apply Option.ext
  intro address
  rw [get?_eq_some_iff, get?_eq_some_iff, same.mem_iff]

theorem nodup_entries (t : NameTable) : t.entries.Nodup := by
  apply List.Pairwise.of_map Prod.fst _ t.nodup
  intro a b different same
  exact different (congrArg Prod.fst same)

/-- Tables that give the same answers have the same entries, in some order. -/
theorem perm_of_agrees {s t : NameTable} (agrees : s.Agrees t) :
    s.entries.Perm t.entries := by
  rw [List.perm_ext_iff_of_nodup s.nodup_entries t.nodup_entries]
  rintro ⟨name, address⟩
  rw [← get?_eq_some_iff, ← get?_eq_some_iff, agrees name]

end NameTable

end WordMachine
