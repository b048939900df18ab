import Mathlib.Logic.Function.Iterate
import WordMachine.Path
import WordMachine.Proofs.Text.Splitting

/-!
# Paths and the names they are made of

A clean path that starts at the root directory is a list of names, and its text
is only a way to write that list.  Putting a name behind a path puts it behind
the list, and the directory that a path lies in is told by the list without its
last name.  So going up from a directory ends at the root, which alone lies in
itself.

A relative path leads on from the working directory, and it may be cleaned
before or after it is put behind that.
-/

namespace WordMachine

namespace Path

/-! ## Names -/

/-- A text that can be the name of a file or directory. -/
structure IsName (part : Text) : Prop where
  nonempty : part ≠ []
  notHere : part ≠ here
  notAbove : part ≠ above
  unbroken : Text.slash ∉ part

theorem IsName.split {name : Text} (isName : IsName name) :
    name.split Text.slash = [name] := by
  rw [Text.split_eq_splitOn, List.splitOn_eq_singleton isName.unbroken]

/-- The text of the path from the root directory along the given names. -/
def ofNames (names : List Text) : Text :=
  (⟨true, names⟩ : Path).toText

/-- What is left of the parts before a step up, held in reverse. -/
def stepUp (rooted : Bool) : List Text → List Text
  | [] => if rooted then [] else [above]
  | last :: before => if last = above then above :: last :: before else before

theorem cleanFrom_cons (rooted : Bool) (part : Text) (rest done : List Text) :
    cleanFrom rooted (part :: rest) done =
      if part = [] ∨ part = here then cleanFrom rooted rest done
      else if part = above then cleanFrom rooted rest (stepUp rooted done)
      else cleanFrom rooted rest (part :: done) := by
  cases done <;> rw [cleanFrom] <;> rfl

theorem cleanFrom_append (rooted : Bool) (front back done : List Text) :
    cleanFrom rooted (front ++ back) done =
      cleanFrom rooted back (cleanFrom rooted front done).reverse := by
  induction front generalizing done with
  | nil => simp [cleanFrom]
  | cons part front ih =>
      rw [List.cons_append, cleanFrom_cons, cleanFrom_cons]
      split
      next => exact ih done
      next => split <;> exact ih _

theorem cleanFrom_name {name : Text} (isName : IsName name) (rooted : Bool)
    (rest done : List Text) :
    cleanFrom rooted (name :: rest) done =
      cleanFrom rooted rest (name :: done) := by
  have kept : ¬ (name = [] ∨ name = here) :=
    not_or.mpr ⟨isName.nonempty, isName.notHere⟩
  rw [cleanFrom_cons, if_neg kept, if_neg isName.notAbove]

theorem cleanFrom_names {names : List Text} (all : ∀ name ∈ names, IsName name)
    (rooted : Bool) (done : List Text) :
    cleanFrom rooted names done = done.reverse ++ names := by
  induction names generalizing done with
  | nil => simp [cleanFrom]
  | cons name names ih =>
      rw [List.forall_mem_cons] at all
      rw [cleanFrom_name all.1, ih all.2]
      simp

theorem stepUp_eq_tail {done : List Text} (names : ∀ name ∈ done, IsName name) :
    stepUp true done = done.tail := by
  cases done with
  | nil => rfl
  | cons last before => exact if_neg (names last List.mem_cons_self).notAbove

/-- Behind the root directory only names are left. -/
theorem isName_of_mem_cleanFrom {parts done : List Text}
    (unbroken : ∀ part ∈ parts, Text.slash ∉ part)
    (before : ∀ name ∈ done, IsName name) :
    ∀ name ∈ cleanFrom true parts done, IsName name := by
  induction parts generalizing done with
  | nil =>
      intro name member
      exact before name (List.mem_reverse.mp member)
  | cons part rest ih =>
      rw [List.forall_mem_cons] at unbroken
      rw [cleanFrom_cons]
      split
      next => exact ih unbroken.2 before
      next kept =>
        rw [not_or] at kept
        split
        next =>
          rw [stepUp_eq_tail before]
          exact ih unbroken.2 fun name member =>
            before name (List.mem_of_mem_tail member)
        next notAbove =>
          apply ih unbroken.2
          rw [List.forall_mem_cons]
          exact ⟨⟨kept.1, kept.2, notAbove, unbroken.1⟩, before⟩

section Rooted

variable {t : Text} (rooted : isRooted t = true)

include rooted

theorem isName_of_mem_ofText : ∀ name ∈ (ofText t).parts, IsName name := by
  rw [ofText, rooted]
  exact isName_of_mem_cleanFrom (fun part => Text.not_mem_of_mem_split)
    (List.forall_mem_nil _)

theorem clean_eq_ofNames : clean t = ofNames (ofText t).parts := by
  rw [clean, ofText, rooted]
  rfl

theorem ofText_append (more : Text) :
    ofText (t ++ Text.slash :: more) =
      ⟨true, cleanFrom true (more.split Text.slash)
        (ofText t).parts.reverse⟩ := by
  have still : isRooted (t ++ Text.slash :: more) = true := by
    cases t with
    | nil => cases rooted
    | cons b t => exact rooted
  rw [ofText, still, Text.split_append, cleanFrom_append, ofText, rooted]

end Rooted

/-! ## The texts of lists of names -/

theorem isRooted_ofNames (names : List Text) :
    isRooted (ofNames names) = true := rfl

theorem ofNames_eq_flatMap {names : List Text} (nonempty : names ≠ []) :
    ofNames names = names.flatMap (Text.slash :: ·) := by
  cases names with
  | nil => exact absurd rfl nonempty
  | cons first rest =>
      exact congrArg (Text.slash :: ·) (Text.join_cons Text.slash first rest)

theorem ofNames_concat (names : List Text) (name : Text) :
    ofNames (names ++ [name]) = names.flatMap (Text.slash :: ·) ++
      Text.slash :: name := by
  rw [ofNames_eq_flatMap (by simp), List.flatMap_append, List.flatMap_singleton]

theorem split_ofNames {names : List Text} (all : ∀ name ∈ names, IsName name)
    (nonempty : names ≠ []) :
    (ofNames names).split Text.slash = [] :: names := by
  have tail : (Text.join [Text.slash] names).split Text.slash = names :=
    Text.split_join (fun name member => (all name member).unbroken) nonempty
  have parts := Text.split_append Text.slash [] (Text.join [Text.slash] names)
  rw [tail] at parts
  exact parts

/-- A list of names can be read off its text. -/
theorem ofText_ofNames {names : List Text} (all : ∀ name ∈ names, IsName name) :
    ofText (ofNames names) = ⟨true, names⟩ := by
  by_cases empty : names = []
  · subst empty
    rfl
  · rw [ofText, isRooted_ofNames, split_ofNames all empty, cleanFrom_cons,
      if_pos (.inl rfl), cleanFrom_names all]
    rfl

theorem clean_ofNames {names : List Text} (all : ∀ name ∈ names, IsName name) :
    clean (ofNames names) = ofNames names := by
  rw [clean, ofText_ofNames all]
  rfl

theorem ofNames_inj {names others : List Text}
    (all : ∀ name ∈ names, IsName name)
    (allOthers : ∀ name ∈ others, IsName name)
    (same : ofNames names = ofNames others) :
    names = others := by
  have read := congrArg ofText same
  rw [ofText_ofNames all, ofText_ofNames allOthers] at read
  exact congrArg Path.parts read

/-- A name put behind a path goes behind its names. -/
theorem join_name {dir name : Text} (rooted : isRooted dir = true)
    (isName : IsName name) :
    join dir name = ofNames ((ofText dir).parts ++ [name]) := by
  have present : dir.isEmpty = false := by
    cases dir with
    | nil => cases rooted
    | cons b dir => rfl
  have named : name.isEmpty = false := by
    simpa using isName.nonempty
  simp only [join, present, named, clean, ofText_append rooted, isName.split,
    Bool.false_eq_true, if_false]
  rw [cleanFrom_names (List.forall_mem_singleton.mpr isName),
    List.reverse_reverse]
  rfl

/-! ## Relative paths -/

theorem mem_stepUp {rooted : Bool} {done : List Text} {part : Text}
    (member : part ∈ stepUp rooted done) : part = above ∨ part ∈ done := by
  cases done with
  | nil =>
      rw [stepUp] at member
      split at member
      next => cases member
      next => exact .inl (List.mem_singleton.mp member)
  | cons last before =>
      rw [stepUp] at member
      split at member
      next => exact List.mem_cons.mp member
      next => exact .inr (List.mem_cons_of_mem last member)

/-- What holds of the parts of a path and of `..` holds of the parts of its
clean form. -/
theorem of_mem_cleanFrom {motive : Text → Prop} (up : motive above)
    {rooted : Bool} {parts done : List Text}
    (kept : ∀ part ∈ parts, part ≠ [] → motive part)
    (before : ∀ part ∈ done, motive part) :
    ∀ part ∈ cleanFrom rooted parts done, motive part := by
  induction parts generalizing done with
  | nil =>
      intro part member
      exact before part (List.mem_reverse.mp member)
  | cons part rest ih =>
      rw [List.forall_mem_cons] at kept
      rw [cleanFrom_cons]
      split
      next => exact ih kept.2 before
      next solid =>
        rw [not_or] at solid
        split
        next =>
          apply ih kept.2
          intro other member
          rcases mem_stepUp member with rfl | old
          · exact up
          · exact before other old
        next =>
          apply ih kept.2
          rw [List.forall_mem_cons]
          exact ⟨kept.1 solid.1, before⟩

theorem cleanFrom_above (rooted : Bool) (done : List Text) :
    cleanFrom rooted [above] done = (stepUp rooted done).reverse := by
  rw [cleanFrom_cons, if_neg (by decide), if_pos rfl, cleanFrom]

theorem cleanFrom_stepUp {before : List Text}
    (kept : ∀ part ∈ before, part ≠ [] ∧ part ≠ here)
    (done : List Text) :
    cleanFrom true (stepUp false before).reverse done =
      (stepUp true (cleanFrom true before.reverse done).reverse).reverse := by
  cases before with
  | nil => exact (cleanFrom_above true done).trans (by simp [cleanFrom])
  | cons last before =>
      rw [List.forall_mem_cons] at kept
      by_cases up : last = above
      · rw [stepUp, if_pos up, List.reverse_cons, cleanFrom_append,
          cleanFrom_above]
      · rw [stepUp, if_neg up, List.reverse_cons, cleanFrom_append,
          cleanFrom_cons, if_neg (not_or.mpr kept.1), if_neg up, cleanFrom,
          List.reverse_reverse, stepUp, if_neg up, List.reverse_reverse]

/-- Cleaning parts on their own makes no difference to where they lead from a
directory. -/
theorem cleanFrom_cleanFrom {parts before : List Text}
    (kept : ∀ part ∈ before, part ≠ [] ∧ part ≠ here) (done : List Text) :
    cleanFrom true (cleanFrom false parts before) done =
      cleanFrom true parts (cleanFrom true before.reverse done).reverse := by
  induction parts generalizing before with
  | nil => simp [cleanFrom]
  | cons part parts ih =>
      rw [cleanFrom_cons, cleanFrom_cons]
      split
      next => exact ih kept
      next solid =>
        rw [not_or] at solid
        split
        next =>
          rw [ih, cleanFrom_stepUp kept, List.reverse_reverse]
          intro other member
          rcases mem_stepUp member with rfl | old
          · exact ⟨by decide, by decide⟩
          · exact kept other old
        next notAbove =>
          rw [ih (List.forall_mem_cons.mpr ⟨solid, kept⟩), List.reverse_cons,
            cleanFrom_append, cleanFrom_cons, if_neg (not_or.mpr solid),
            if_neg notAbove, cleanFrom, List.reverse_reverse]

/-- No part of a path is empty or has a slash. -/
theorem of_mem_ofText {t part : Text} (member : part ∈ (ofText t).parts) :
    part ≠ [] ∧ Text.slash ∉ part := by
  refine of_mem_cleanFrom (motive := fun part => part ≠ [] ∧ Text.slash ∉ part)
    ⟨by decide, by decide⟩ ?_ (List.forall_mem_nil _) part member
  intro part inside nonempty
  exact ⟨nonempty, Text.not_mem_of_mem_split inside⟩

/-- The parts of a path have the bytes of its text only. -/
theorem not_mem_of_mem_ofText {t part : Text} {b : UInt8} (other : b ≠ Text.dot)
    (absent : b ∉ t) (member : part ∈ (ofText t).parts) : b ∉ part := by
  refine of_mem_cleanFrom (motive := fun part =>
    b ∉ part) (by simp [above, other]) ?_
    (List.forall_mem_nil _) part member
  intro part inside _ within
  exact absent (Text.mem_of_mem_split inside within)

theorem isRooted_join {parts : List Text}
    (all : ∀ part ∈ parts, part ≠ [] ∧ Text.slash ∉ part) :
    isRooted (Text.join [Text.slash] parts) = false := by
  cases parts with
  | nil => rfl
  | cons first rest =>
      obtain ⟨nonempty, unbroken⟩ := all first List.mem_cons_self
      cases first with
      | nil => exact absurd rfl nonempty
      | cons b first =>
          rw [List.mem_cons, not_or] at unbroken
          rw [Text.join_cons, List.cons_append, isRooted, List.head?_cons,
            beq_eq_false_iff_ne]
          exact fun slash => unbroken.1 (Option.some.inj slash).symm

theorem isRooted_clean (t : Text) : isRooted (clean t) = isRooted t := by
  cases start : isRooted t with
  | true => rw [clean_eq_ofNames start, isRooted_ofNames]
  | false =>
      have relative : (ofText t).rooted = false := start
      rw [clean, toText, relative, if_neg Bool.false_ne_true]
      split
      next => rfl
      next => exact isRooted_join fun part => of_mem_ofText

theorem ofText_clean {t : Text} (rooted : isRooted t = true) :
    ofText (clean t) = ofText t := by
  rw [clean_eq_ofNames rooted, ofText_ofNames (isName_of_mem_ofText rooted),
    ofText, rooted]

theorem isRooted_append {t : Text} (nonempty : t ≠ []) (more : Text) :
    isRooted (t ++ more) = isRooted t := by
  cases t with
  | nil => exact absurd rfl nonempty
  | cons b t => rfl

section Relative

variable {workingDir dir : Text} (relative : isRooted dir = false)

include relative

theorem join_name_of_relative {name : Text} (isName : IsName name) :
    join dir name = Text.join [Text.slash] ((ofText dir).parts ++ [name]) := by
  have named : name.isEmpty = false := by
    simpa using isName.nonempty
  have relation (t : Text) (start : isRooted t = false)
      (parts : cleanFrom false (t.split Text.slash) [] =
        (ofText dir).parts ++ [name]) :
      clean t = Text.join [Text.slash] ((ofText dir).parts ++ [name]) := by
    simp [clean, ofText, toText, start, parts]
  by_cases empty : dir = []
  · subst empty
    have start : isRooted name = false := by
      have single :=
        isRooted_join (List.forall_mem_singleton.mpr
          ⟨isName.nonempty, isName.unbroken⟩)
      rwa [Text.join_cons, List.flatMap_nil, List.append_nil] at single
    simp only [join, named, List.isEmpty_nil, if_true,
      Bool.false_eq_true, if_false]
    apply relation name start
    rw [isName.split, cleanFrom_names (List.forall_mem_singleton.mpr isName)]
    rfl
  · have present : dir.isEmpty = false := by
      simpa using empty
    have start : isRooted (dir ++ Text.slash :: name) = false := by
      rw [isRooted_append empty, relative]
    simp only [join, present, named, Bool.false_eq_true, if_false]
    apply relation _ start
    rw [Text.split_append, cleanFrom_append, isName.split,
      cleanFrom_names (List.forall_mem_singleton.mpr isName),
      List.reverse_reverse, ofText, relative]

theorem isRooted_workingDir
    (rooted : isRooted (absolute workingDir dir) = true) :
    isRooted workingDir = true := by
  rw [absolute, relative, if_neg Bool.false_ne_true, join] at rooted
  by_cases nowhere : workingDir = []
  · subst nowhere
    by_cases empty : dir.isEmpty
    · simp [empty, isRooted] at rooted
    · simp [empty, isRooted_clean, relative] at rooted
  · by_cases empty : dir.isEmpty
    · simpa [nowhere, empty, isRooted_clean] using rooted
    · simpa [nowhere, empty, isRooted_clean, isRooted_append nowhere]
        using rooted

/-- A relative path leads on from the working directory. -/
theorem parts_absolute (rooted : isRooted workingDir = true) :
    (ofText (absolute workingDir dir)).parts =
      cleanFrom true (ofText dir).parts (ofText workingDir).parts.reverse := by
  have present : workingDir ≠ [] := by
    rintro rfl
    cases rooted
  rw [absolute, relative, if_neg Bool.false_ne_true, join,
    List.isEmpty_eq_false_iff.mpr present, if_neg Bool.false_ne_true]
  split
  next empty =>
    rw [List.isEmpty_iff.mp empty, ofText_clean rooted]
    exact (List.reverse_reverse _).symm
  next =>
    have start : isRooted (workingDir ++ Text.slash :: dir) = true := by
      rw [isRooted_append present, rooted]
    rw [ofText_clean start, ofText_append rooted]
    conv => rhs; rw [ofText, relative,
      cleanFrom_cleanFrom (List.forall_mem_nil _)]
    rw [List.reverse_nil, cleanFrom, List.reverse_reverse]

end Relative

/-! ## Going up -/

/-- The directory that a path lies in: the text up to the last slash, in clean
form. -/
def parent (t : Text) : Text :=
  clean (t.reverse.dropWhile (· != Text.slash)).reverse

theorem parent_ofNames_concat {names : List Text}
    (all : ∀ name ∈ names, IsName name) {name : Text} (isName : IsName name) :
    parent (ofNames (names ++ [name])) = ofNames names := by
  have front : ((ofNames (names ++ [name])).reverse.dropWhile
      (· != Text.slash)).reverse =
      names.flatMap (Text.slash :: ·) ++ Text.slash :: [] := by
    have inside : ∀ b ∈ name.reverse, (b != Text.slash) = true := by
      intro b member
      rw [bne_iff_ne]
      rintro rfl
      exact isName.unbroken (List.mem_reverse.mp member)
    rw [ofNames_concat, List.reverse_append, List.reverse_cons,
      List.append_assoc, List.dropWhile_append_of_pos inside]
    simp
  rw [parent, front]
  by_cases empty : names = []
  · subst empty
    rfl
  · rw [← ofNames_eq_flatMap empty, clean,
      ofText_append (isRooted_ofNames names), ofText_ofNames all]
    exact congrArg ofNames (List.reverse_reverse names)

theorem parent_ofNames {names : List Text} (all : ∀ name ∈ names, IsName name) :
    parent (ofNames names) = ofNames names.dropLast := by
  rcases List.eq_nil_or_concat names with rfl | ⟨front, name, rfl⟩
  · rfl
  · rw [List.concat_eq_append] at all ⊢
    rw [List.forall_mem_append, List.forall_mem_singleton] at all
    rw [parent_ofNames_concat all.1 all.2, List.dropLast_concat]

/-- Only the root directory lies in itself. -/
theorem parent_eq_self_iff {names : List Text}
    (all : ∀ name ∈ names, IsName name) :
    parent (ofNames names) = ofNames names ↔ names = [] := by
  rw [parent_ofNames all]
  constructor
  · intro same
    have short := ofNames_inj (fun name member =>
      all name (List.dropLast_subset names member)) all same
    have lengths := congrArg List.length short
    rw [List.length_dropLast] at lengths
    exact List.eq_nil_of_length_eq_zero (by omega)
  · rintro rfl
    rfl

theorem iterate_parent {names : List Text} (all : ∀ name ∈ names, IsName name)
    (steps : Nat) :
    parent^[steps] (ofNames names) =
      ofNames (names.take (names.length - steps)) := by
  induction steps with
  | zero => simp
  | succ steps ih =>
      have inside : ∀ name ∈ names.take (names.length - steps), IsName name :=
        fun name member => all name (List.mem_of_mem_take member)
      rw [Function.iterate_succ_apply', ih, parent_ofNames inside,
        List.dropLast_eq_take, List.length_take, List.take_take]
      congr 2
      omega

/-- Going up stops after as many steps as the path has names. -/
theorem parent_iterate_eq_self_iff {names : List Text}
    (all : ∀ name ∈ names, IsName name) (steps : Nat) :
    parent (parent^[steps] (ofNames names)) = parent^[steps] (ofNames names) ↔
      names.length ≤ steps := by
  have inside : ∀ name ∈ names.take (names.length - steps), IsName name :=
    fun name member => all name (List.mem_of_mem_take member)
  rw [iterate_parent all, parent_eq_self_iff inside, ← List.length_eq_zero_iff,
    List.length_take]
  omega

end Path

end WordMachine
