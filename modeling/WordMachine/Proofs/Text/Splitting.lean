import WordMachine.Text.Basic

/-!
# Splitting and joining texts

The parts of a text between separators are those that the library's
`List.splitOn` finds, and joining parts puts a separator in front of all of them
but the first.
-/

namespace WordMachine.Text

theorem splitFrom_eq_splitOn (separator : UInt8) (t current : Text)
    (done : List Text) :
    splitFrom separator t current done =
      done.reverse ++ List.splitOnPPrepend (· == separator) t current := by
  induction t generalizing current done with
  | nil => simp [splitFrom]
  | cons b t ih =>
      rw [splitFrom, List.splitOnPPrepend_cons_eq_if]
      by_cases same : b = separator
      · simp [same, ih]
      · simp [same, ih]

theorem split_eq_splitOn (separator : UInt8) (t : Text) :
    t.split separator = t.splitOn separator :=
  splitFrom_eq_splitOn separator t [] []

theorem split_append (separator : UInt8) (s t : Text) :
    split separator (s ++ separator :: t) = s.split separator ++
      t.split separator := by
  simp only [split_eq_splitOn, List.splitOn_append_cons_self]

theorem not_mem_of_mem_split {separator : UInt8} {t part : Text}
    (member : part ∈ t.split separator) : separator ∉ part := by
  rw [split_eq_splitOn] at member
  induction t generalizing part with
  | nil => simp_all
  | cons b t ih =>
      rw [List.splitOn_cons_eq_if_modifyHead] at member
      split at member
      next =>
        rcases List.mem_cons.mp member with rfl | later
        · exact List.not_mem_nil
        · exact ih later
      next other =>
        cases parts : t.splitOn separator with
        | nil => exact absurd parts (List.splitOn_ne_nil separator t)
        | cons first rest =>
            rw [parts, List.modifyHead_cons, List.mem_cons] at member
            rcases member with rfl | later
            · have inner : separator ∉ first := ih (parts ▸ List.mem_cons_self)
              simp only [List.mem_cons, not_or]
              exact ⟨fun same => other (beq_iff_eq.mpr same.symm), inner⟩
            · exact ih (parts ▸ List.mem_cons_of_mem first later)

theorem join_cons (separator : UInt8) (first : Text) (rest : List Text) :
    join [separator] (first :: rest) =
      first ++ rest.flatMap (separator :: ·) := by
  change List.intercalate [separator] (first :: rest) = _
  induction rest generalizing first with
  | nil => simp
  | cons second rest ih =>
      rw [List.intercalate_cons_cons, List.append_assoc,
        List.singleton_append, ih second]
      simp

theorem mem_join {separator b : UInt8} {part : Text} {parts : List Text}
    (member : part ∈ parts) (inside : b ∈ part) :
    b ∈ join [separator] parts := by
  cases parts with
  | nil => cases member
  | cons first rest =>
      rw [join_cons, List.mem_append, List.mem_flatMap]
      rcases List.mem_cons.mp member with rfl | later
      · exact .inl inside
      · exact .inr ⟨part, later, List.mem_cons_of_mem separator inside⟩

theorem mem_of_mem_split {separator b : UInt8} {t part : Text}
    (member : part ∈ t.split separator) (inside : b ∈ part) : b ∈ t := by
  have joined : join [separator] (t.split separator) = t := by
    rw [split_eq_splitOn]
    exact List.intercalate_splitOn separator
  rw [← joined]
  exact mem_join member inside

theorem split_join {separator : UInt8} {parts : List Text}
    (unbroken : ∀ part ∈ parts, separator ∉ part) (nonempty : parts ≠ []) :
    (join [separator] parts).split separator = parts := by
  rw [split_eq_splitOn]
  exact List.splitOn_intercalate _ unbroken nonempty

end WordMachine.Text
