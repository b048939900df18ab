import WordMachine.FileTree
import WordMachine.Proofs.Path

/-!
# What is found under a path

Following a path from the root directory goes through the directories that its
names lead to.  So a path to a file can be followed if the names before the last
one lead to a directory, and what is found there is told by the names.  What is
written under a path is found under it afterwards.
-/

namespace WordMachine.FileTree

open WordMachine.Path

/-! ## Descending -/

section Descending

variable {tree new : FileTree} {names : List Text} {name : Text}

theorem descend_append (tree : FileTree) (front back : List Text) :
    tree.descend (front ++ back) =
      (tree.descend front).bind (·.descend back) := by
  induction front generalizing tree with
  | nil => rfl
  | cons name front ih =>
      cases tree with
      | file content => rfl
      | directory entries =>
          rw [List.cons_append, descend, descend]
          split
          next => rfl
          next =>
            split
            next found => exact ih _
            next => rfl

theorem descend_append_eq_ok {front back : List Text}
    (found : tree.descend (front ++ back) = .ok new) :
    ∃ middle, tree.descend front = .ok middle ∧
      middle.descend back = .ok new := by
  rw [descend_append] at found
  cases first : tree.descend front with
  | error reason =>
      rw [first] at found
      cases found
  | ok middle =>
      rw [first] at found
      exact ⟨middle, rfl, found⟩

theorem descend_cons_eq_ok (found : tree.descend (name :: names) = .ok new) :
    ∃ entries below, tree = .directory entries ∧ name.length ≤ nameLimit ∧
      entries.lookup name = some below ∧ below.descend names = .ok new := by
  cases tree with
  | file content => cases found
  | directory entries =>
      rw [descend] at found
      split at found
      next => cases found
      next short =>
        split at found
        next below entry =>
          exact ⟨entries, below, rfl, Nat.not_lt.mp short, entry, found⟩
        next => cases found

/-- All names but the last one lead to directories. -/
theorem descend_concat_eq_ok
    (found : tree.descend (names ++ [name]) = .ok new) :
    ∃ entries, tree.descend names = .ok (.directory entries) ∧
      name.length ≤ nameLimit ∧ entries.lookup name = some new := by
  obtain ⟨middle, front, last⟩ := descend_append_eq_ok found
  obtain ⟨entries, below, rfl, short, entry, same⟩ := descend_cons_eq_ok last
  cases same
  exact ⟨entries, front, short, entry⟩

theorem descend_concat {entries : List (Text × FileTree)}
    (front : tree.descend names = .ok (.directory entries))
    (short : name.length ≤ nameLimit) :
    tree.descend (names ++ [name]) =
      (entries.lookup name).elim (.error .notFound) .ok := by
  rw [descend_append, front]
  change descend (.directory entries) [name] = _
  rw [descend, if_neg (Nat.not_lt.mpr short)]
  cases entries.lookup name <;> rfl

end Descending

/-! ## Following paths -/

section Following

variable {tree : FileTree} {names parts here found : List Text}
  {name part : Text}

theorem exists_directory_of_follow
    (followed : tree.follow (part :: parts) here = .ok found) :
    ∃ entries, tree.descend here.reverse = .ok (.directory entries) := by
  rw [follow] at followed
  split at followed
  next => cases followed
  next => cases followed
  next entries directory => exact ⟨entries, directory⟩

theorem follow_of_directory {entries : List (Text × FileTree)}
    (directory : tree.descend here.reverse = .ok (.directory entries)) :
    tree.follow (part :: parts) here =
      if part = Path.here then tree.follow parts here
      else if part = above then tree.follow parts here.tail
      else tree.follow parts (part :: here) := by
  rw [follow, directory]

theorem follow_name {entries : List (Text × FileTree)}
    (directory : tree.descend here.reverse = .ok (.directory entries))
    (isName : IsName name) :
    tree.follow (name :: parts) here = tree.follow parts (name :: here) := by
  rw [follow_of_directory directory, if_neg isName.notHere,
    if_neg isName.notAbove]

/-- Names can be followed if all but the last one lead to directories. -/
theorem follow_concat_eq_ok_iff (all : ∀ name ∈ names, IsName name)
    (isName : IsName name) :
    tree.follow (names ++ [name]) here = .ok found ↔
      found = here.reverse ++ names ++ [name] ∧
        ∃ entries, tree.descend (here.reverse ++ names) =
          .ok (.directory entries) := by
  induction names generalizing here with
  | nil =>
      rw [List.nil_append, List.append_nil]
      constructor
      · intro followed
        obtain ⟨entries, directory⟩ := exists_directory_of_follow followed
        rw [follow_name directory isName] at followed
        cases followed
        exact ⟨List.reverse_cons, entries, directory⟩
      · rintro ⟨rfl, entries, directory⟩
        rw [follow_name directory isName, follow, List.reverse_cons]
  | cons first rest ih =>
      rw [List.forall_mem_cons] at all
      have shift : here.reverse ++ first :: rest = (first :: here).reverse ++
          rest := by simp
      rw [List.cons_append, shift, ← ih all.2]
      constructor
      · intro followed
        obtain ⟨entries, directory⟩ := exists_directory_of_follow followed
        rwa [follow_name directory all.1] at followed
      · intro followed
        have reached := ((ih all.2).mp followed).2
        rw [← shift] at reached
        obtain ⟨last, descended⟩ := reached
        obtain ⟨middle, front, behind⟩ := descend_append_eq_ok descended
        obtain ⟨entries, -, rfl, -⟩ := descend_cons_eq_ok behind
        rwa [follow_name front all.1]

/-- What is followed successfully can be told by the text of the path alone. -/
theorem eq_cleanFrom_of_follow (nonempty : ∀ part ∈ parts, part ≠ [])
    (unbroken : ∀ part ∈ parts, Text.slash ∉ part)
    (names : ∀ name ∈ here, IsName name)
    (followed : tree.follow parts here = .ok found) :
    found = cleanFrom true parts here := by
  induction parts generalizing here with
  | nil =>
      cases followed
      rfl
  | cons part rest ih =>
      rw [List.forall_mem_cons] at nonempty unbroken
      obtain ⟨entries, directory⟩ := exists_directory_of_follow followed
      rw [follow_of_directory directory] at followed
      rw [cleanFrom_cons]
      by_cases stays : part = Path.here
      · rw [if_pos stays] at followed
        rw [if_pos (.inr stays)]
        exact ih nonempty.2 unbroken.2 names followed
      · rw [if_neg stays] at followed
        rw [if_neg (not_or.mpr ⟨nonempty.1, stays⟩)]
        by_cases up : part = above
        · rw [if_pos up] at followed ⊢
          rw [stepUp_eq_tail names]
          exact ih nonempty.2 unbroken.2 (fun name member =>
            names name (List.mem_of_mem_tail member))
            followed
        · rw [if_neg up] at followed ⊢
          refine ih nonempty.2 unbroken.2 ?_ followed
          rw [List.forall_mem_cons]
          exact ⟨⟨nonempty.1, stays, up, unbroken.1⟩, names⟩

end Following

/-! ## Paths from the root directory -/

section Rooted

variable {tree : FileTree} {workingDir : Text}
  {names found : List Text} {name : Text}

theorem getLast?_ofNames_concat (isName : IsName name) (names : List Text) :
    (ofNames (names ++ [name])).getLast? ≠ some Text.slash := by
  intro last
  rcases List.eq_nil_or_concat name with rfl | ⟨front, b, rfl⟩
  · exact isName.nonempty rfl
  · rw [ofNames_concat, List.concat_eq_append, ← List.cons_append,
      ← List.append_assoc, List.getLast?_concat, Option.some.injEq] at last
    exact isName.unbroken (by simp [last])

theorem followedParts_ofNames_concat
    (all : ∀ part ∈ names ++ [name], IsName part) :
    followedParts (ofNames (names ++ [name])) = names ++ [name] := by
  have isName := all name (by simp)
  have nonempty : names ++ [name] ≠ [] := by simp
  have kept : (names ++ [name]).filter (!·.isEmpty) = names ++ [name] := by
    rw [List.filter_eq_self]
    intro part member
    simpa using (all part member).nonempty
  simp only [followedParts,
    beq_eq_false_iff_ne.mpr (getLast?_ofNames_concat isName names),
    split_ofNames all nonempty, Bool.false_eq_true, if_false]
  exact kept

/-- The bytes of a path from the root directory are those of its names, slashes
aside. -/
theorem mem_ofNames_concat {b : UInt8} (other : b ≠ Text.slash)
    (names : List Text) (name : Text) :
    b ∈ ofNames (names ++ [name]) ↔ ∃ part ∈ names ++ [name], b ∈ part := by
  rw [ofNames_eq_flatMap (by simp), List.mem_flatMap]
  simp [other]

theorem locate_ofNames_concat_eq_ok_iff
    (all : ∀ part ∈ names ++ [name], IsName part) :
    tree.locate workingDir (ofNames (names ++ [name])) = .ok found ↔
      (∀ part ∈ names ++ [name], (0 : UInt8) ∉ part) ∧ found = names ++ [name] ∧
        ∃ entries, tree.descend names = .ok (.directory entries) := by
  have present : (ofNames (names ++ [name])).isEmpty = false := rfl
  have illegal := mem_ofNames_concat (by decide : (0 : UInt8) ≠
    Text.slash) names name
  by_cases zero : (0 : UInt8) ∈ ofNames (names ++ [name])
  · obtain ⟨part, member, inside⟩ := illegal.mp zero
    simp only [locate, present, List.contains_iff_mem.mpr zero,
      Bool.false_eq_true, if_false, if_true]
    constructor
    · intro refused
      cases refused
    · intro located
      exact absurd inside (located.1 part member)
  · obtain ⟨front, isName⟩ := List.forall_mem_append.mp all
    have legal : ∀ part ∈ names ++ [name], (0 : UInt8) ∉ part :=
      fun part member inside => zero (illegal.mpr ⟨part, member, inside⟩)
    simp only [locate, present, List.contains_iff_mem, zero,
      Bool.false_eq_true, if_false, isRooted_ofNames, if_true,
      followedParts_ofNames_concat all, List.reverse_nil]
    rw [follow_concat_eq_ok_iff front (isName name List.mem_cons_self),
      List.reverse_nil, List.nil_append]
    exact ⟨fun followed => ⟨legal, followed⟩, fun located => located.2⟩

/-- What is found under a path from the root directory is what its names lead
to. -/
theorem find_ofNames_concat_eq_ok_iff {new : FileTree}
    (all : ∀ part ∈ names ++ [name], IsName part) :
    tree.find workingDir (ofNames (names ++ [name])) = .ok new ↔
      (∀ part ∈ names ++ [name], (0 : UInt8) ∉ part) ∧
        tree.descend (names ++ [name]) = .ok new := by
  rw [find]
  constructor
  · intro result
    cases target : tree.locate workingDir (ofNames (names ++ [name])) with
    | error reason =>
        rw [target] at result
        cases result
    | ok found =>
        obtain ⟨legal, rfl, -⟩ :=
          (locate_ofNames_concat_eq_ok_iff all).mp target
        rw [target] at result
        exact ⟨legal, result⟩
  · rintro ⟨legal, result⟩
    obtain ⟨entries, directory, -⟩ := descend_concat_eq_ok result
    rw [(locate_ofNames_concat_eq_ok_iff all).mpr ⟨legal, rfl,
      entries, directory⟩]
    exact result

end Rooted

/-! ## Writing -/

theorem dropTrailing_of_getLast? {b : UInt8} {t : Text}
    (other : t.getLast? ≠ some b) :
    t.dropTrailing b = t := by
  rcases List.eq_nil_or_concat t with rfl | ⟨front, last, rfl⟩
  · rfl
  · rw [List.concat_eq_append, List.getLast?_concat, ne_eq,
      Option.some.injEq] at other
    simp [Text.dropTrailing, beq_eq_false_iff_ne.mpr other]

theorem lookup_replaceEntry (name : Text) (tree : FileTree)
    (entries : List (Text × FileTree)) :
    (replaceEntry name tree entries).lookup name = some tree := by
  induction entries with
  | nil => simp [replaceEntry]
  | cons entry rest ih =>
      rw [replaceEntry]
      split
      next => exact List.lookup_cons_self
      next other =>
        rw [List.lookup_cons, beq_eq_false_iff_ne.mpr (Ne.symm other)]
        exact ih

section Writing

variable {tree : FileTree} {names : List Text} {name : Text}
  {entries : List (Text × FileTree)}

/-- What is put into a directory is there. -/
theorem descend_place
    (directory : tree.descend names = .ok (.directory entries))
    (short : name.length ≤ nameLimit) (new : FileTree) :
    (tree.place (names ++ [name]) new).descend (names ++ [name]) = .ok new := by
  induction names generalizing tree with
  | nil =>
      cases directory
      rw [List.nil_append, place, descend, if_neg (Nat.not_lt.mpr short),
        lookup_replaceEntry]
      simp [place, descend]
  | cons first rest ih =>
      obtain ⟨siblings, below, rfl, fits, entry, further⟩ :=
        descend_cons_eq_ok directory
      rw [List.cons_append, place, descend, if_neg (Nat.not_lt.mpr fits),
        lookup_replaceEntry, entry]
      exact ih further

/-- A file can be made under a name, or replaced, in the directory that the
names lead to.  No name in a file tree has a zero byte. -/
def Writable (tree : FileTree) (names : List Text) (name : Text) : Prop :=
  (∀ part ∈ names ++ [name], (0 : UInt8) ∉ part) ∧
    ∃ entries, tree.descend names = .ok (.directory entries) ∧
      ∀ inner, entries.lookup name ≠ some (.directory inner)

variable (all : ∀ part ∈ names ++ [name], IsName part)
  (short : name.length ≤ nameLimit)

include all short

theorem write_of_writable (writable : tree.Writable names name)
    (workingDir content : Text) :
    tree.write workingDir (ofNames (names ++ [name])) content =
      .ok (tree.place (names ++ [name]) (.file content)) := by
  obtain ⟨legal, entries, directory, free⟩ := writable
  have isName := all name (by simp)
  have last := getLast?_ofNames_concat isName names
  have whole := dropTrailing_of_getLast? last
  have located : tree.locate workingDir (ofNames (names ++ [name])) =
      .ok (names ++ [name]) :=
    (locate_ofNames_concat_eq_ok_iff all).mpr ⟨legal, rfl, entries, directory⟩
  have target := descend_concat directory short
  simp only [write, whole, located, beq_eq_false_iff_ne.mpr last,
    Bool.false_eq_true, if_false]
  cases entry : entries.lookup name with
  | none =>
      rw [entry] at target
      simp only [target, Option.elim, List.dropLast_concat, directory]
  | some below =>
      rw [entry] at target
      cases below with
      | file old => simp only [target, Option.elim]
      | directory inner => exact absurd entry (free inner)

theorem writable_of_write {workingDir content : Text} {new : FileTree}
    (written : tree.write workingDir (ofNames (names ++ [name])) content =
      .ok new) :
    tree.Writable names name := by
  have isName := all name (by simp)
  have last := getLast?_ofNames_concat isName names
  simp only [write, dropTrailing_of_getLast? last, beq_eq_false_iff_ne.mpr last,
    Bool.false_eq_true, if_false] at written
  cases located : tree.locate workingDir (ofNames (names ++ [name])) with
  | error reason =>
      rw [located] at written
      cases written
  | ok found =>
      obtain ⟨legal, rfl, entries, directory⟩ :=
        (locate_ofNames_concat_eq_ok_iff all).mp located
      refine ⟨legal, entries, directory, fun inner entry => ?_⟩
      -- a directory of that name is not replaced
      rw [located] at written
      simp only [descend_concat directory short, entry, Option.elim] at written
      cases written

end Writing

/-! ## Relative paths -/

section Relative

variable {tree new : FileTree} {workingDir dir name : Text}

theorem followedParts_join {parts : List Text} (isName : IsName name)
    (all : ∀ part ∈ parts ++ [name], part ≠ [] ∧ Text.slash ∉ part) :
    followedParts (Text.join [Text.slash] (parts ++ [name])) =
      parts ++ [name] := by
  have last : (Text.join [Text.slash] (parts ++ [name])).getLast? ≠
      some Text.slash := by
    intro slash
    apply getLast?_ofNames_concat isName parts
    change (Text.slash :: Text.join [Text.slash] (parts ++ [name])).getLast? = _
    rw [List.getLast?_cons, slash]
    rfl
  have split : (Text.join [Text.slash] (parts ++ [name])).split Text.slash =
      parts ++ [name] :=
    Text.split_join (fun part member => (all part member).2) (by simp)
  simp only [followedParts, beq_eq_false_iff_ne.mpr last, split,
    Bool.false_eq_true, if_false]
  rw [List.filter_eq_self]
  intro part member
  simpa using (all part member).1

theorem follow_of_locate {path : Text} {found : List Text}
    (relative : isRooted path = false)
    (located : tree.locate workingDir path = .ok found) :
    tree.follow (followedParts path) (ofText workingDir).parts.reverse =
      .ok found := by
  rw [locate, relative] at located
  split at located
  next => cases located
  next =>
    split at located
    next => cases located
    next => exact located

/-- What is found in a directory is what the absolute path of the directory
leads to. -/
theorem descend_of_find_join (isName : IsName name)
    (rooted : isRooted (absolute workingDir dir) = true)
    (found : tree.find workingDir (join dir name) = .ok new) :
    tree.descend ((ofText (absolute workingDir dir)).parts ++ [name]) =
      .ok new := by
  cases start : isRooted dir with
  | true =>
      have all : ∀ part ∈ (ofText dir).parts ++ [name], IsName part := by
        rw [List.forall_mem_append, List.forall_mem_singleton]
        exact ⟨isName_of_mem_ofText start, isName⟩
      rw [join_name start isName] at found
      rw [absolute, if_pos start, ofText_clean start]
      exact ((find_ofNames_concat_eq_ok_iff all).mp found).2
  | false =>
      have base := isRooted_workingDir start rooted
      have all : ∀ part ∈ (ofText dir).parts ++ [name], part ≠ [] ∧
          Text.slash ∉ part := by
        rw [List.forall_mem_append, List.forall_mem_singleton]
        exact ⟨fun part => of_mem_ofText, isName.nonempty, isName.unbroken⟩
      have names : ∀ part ∈ (ofText workingDir).parts.reverse, IsName part :=
        fun part member =>
          isName_of_mem_ofText base part (List.mem_reverse.mp member)
      rw [join_name_of_relative start isName, find] at found
      cases located : tree.locate workingDir
          (Text.join [Text.slash] ((ofText dir).parts ++ [name])) with
      | error reason =>
          rw [located] at found
          cases found
      | ok reached =>
          have followed := follow_of_locate (isRooted_join all) located
          rw [followedParts_join isName all] at followed
          have same := eq_cleanFrom_of_follow (fun part member =>
            (all part member).1)
            (fun part member => (all part member).2) names followed
          rw [cleanFrom_append,
            cleanFrom_names (List.forall_mem_singleton.mpr isName),
            List.reverse_reverse, ← parts_absolute start base] at same
          rw [located, same] at found
          exact found

/-- Nothing is found under a path with a zero byte. -/
theorem zero_not_mem_of_find {path : Text}
    (found : tree.find workingDir path = .ok new) :
    (0 : UInt8) ∉ path := by
  intro zero
  have contained := List.contains_iff_mem.mpr zero
  have present : path.isEmpty = false :=
    List.isEmpty_eq_false_iff.mpr (List.ne_nil_of_mem zero)
  rw [find, locate, present, contained] at found
  cases found

theorem zero_not_mem_of_find_join (isName : IsName name)
    (rooted : isRooted (absolute workingDir dir) = true)
    (legal : (0 : UInt8) ∉ workingDir)
    (found : tree.find workingDir (join dir name) = .ok new) :
    ∀ part ∈ (ofText (absolute workingDir dir)).parts, (0 : UInt8) ∉ part := by
  have whole := zero_not_mem_of_find found
  cases start : isRooted dir with
  | true =>
      rw [absolute, if_pos start, ofText_clean start]
      rw [join_name start isName, mem_ofNames_concat (by decide)] at whole
      intro part member zero
      exact whole ⟨part, List.mem_append_left _ member, zero⟩
  | false =>
      rw [join_name_of_relative start isName] at whole
      rw [parts_absolute start (isRooted_workingDir start rooted)]
      refine of_mem_cleanFrom (motive := fun part =>
        (0 : UInt8) ∉ part) (by decide) ?_ ?_
      · intro part member _ zero
        exact whole (Text.mem_join (List.mem_append_left _ member) zero)
      · intro part member
        exact not_mem_of_mem_ofText (by decide) legal
          (List.mem_reverse.mp member)

end Relative

end WordMachine.FileTree
