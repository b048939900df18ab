import Mathlib.Data.List.Defs
import WordMachine.Manifest.Load
import WordMachine.Proofs.FileTree
import WordMachine.Shell.World

/-!
# The nearest manifest

The search for a manifest goes up from a directory until it comes to one with a
manifest file, or to the root directory.  It loads the first manifest it comes
to, whether or not that succeeds, and touches no file above.
-/

namespace WordMachine

/-! ## Computations in a world -/

namespace Shell

variable {α β : Type}

theorem inWorld_bind (first : Shell α) (next : α → Shell β) (w : World) :
    (first >>= next).inWorld w =
      (next (first.inWorld w).1).inWorld (first.inWorld w).2 := by
  induction first generalizing w with
  | done value => rfl
  | ask request further ih => exact ih _ _

def Request.path? : {β : Type} → Request β → Option Text
  | _, .lookUp path => some path
  | _, .read path => some path
  | _, .write path _ => some path
  | _, .append path _ => some path
  | _, .makeDirectories path => some path
  | _, _ => none

/-- The paths of the requests that a computation makes in a world, in order. -/
def touched : Shell α → World → List Text
  | .done _, _ => []
  | .ask request next, w =>
    request.path?.toList ++ (next (w.answer request).1).touched
      (w.answer request).2

theorem touched_bind (first : Shell α) (next : α → Shell β) (w : World) :
    (first >>= next).touched w =
      first.touched w ++ (next (first.inWorld w).1).touched
        (first.inWorld w).2 := by
  induction first generalizing w with
  | done value => rfl
  | ask request further ih =>
      rw [ask_bind, touched, touched, ih, List.append_assoc]
      rfl

@[simp] theorem inWorld_pure (value : α) (w : World) :
    (pure value : Shell α).inWorld w = (value, w) := rfl

@[simp] theorem touched_pure (value : α) (w : World) :
    (pure value : Shell α).touched w = [] := rfl

@[simp] theorem inWorld_request (request : Request β) (w : World) :
    (Shell.request request).inWorld w = w.answer request := rfl

@[simp] theorem touched_request (request : Request β) (w : World) :
    (Shell.request request).touched w = request.path?.toList :=
  List.append_nil _

end Shell

namespace Manifest

open WordMachine.Path

/-! ## Loading -/

theorem isName_fileName : IsName fileName :=
  ⟨by decide, by decide, by decide, by decide⟩

theorem isName_of_mem_file {names : List Text}
    (all : ∀ name ∈ names, IsName name) :
    ∀ part ∈ names ++ [fileName], IsName part := by
  rw [List.forall_mem_append, List.forall_mem_singleton]
  exact ⟨all, isName_fileName⟩

theorem length_fileName_le : fileName.length ≤ FileTree.nameLimit := by decide

theorem fileIn_ofNames {names : List Text} (all : ∀ name ∈ names, IsName name) :
    fileIn (ofNames names) = ofNames (names ++ [fileName]) := by
  rw [fileIn, join_name (isRooted_ofNames names) isName_fileName,
    ofText_ofNames all]

theorem absolute_ofNames {names : List Text} (all : ∀ name ∈ names, IsName name)
    (workingDir : Text) :
    absolute workingDir (ofNames names) = ofNames names := by
  rw [absolute, if_pos (isRooted_ofNames names), clean_ofNames all]

section Loading

variable {w : World} {dir : Text}

theorem dir_ofContent {path content : Text} {m : Manifest}
    (accepted : ofContent dir path content = .ok m) : m.dir = dir := by
  unfold ofContent at accepted
  split at accepted
  next => cases accepted
  next => cases accepted
  next =>
    split at accepted
    next => cases accepted
    next =>
      cases accepted
      rfl

theorem load_of_unreadable {fault : FileFault}
    (unreadable : w.tree.read w.workingDir (fileIn dir) = .error fault) :
    (load dir).inWorld w = (.error (.unreadable (fileIn dir) fault), w) := by
  simp only [load, Shell.inWorld_bind, Shell.inWorld_request,
    World.answer, unreadable]
  rfl

theorem load_of_readable {content : Text}
    (readable : w.tree.read w.workingDir (fileIn dir) = .ok content) :
    (load dir).inWorld w =
      (ofContent (absolute w.workingDir dir) (fileIn dir) content, w) := by
  simp only [load, Shell.inWorld_bind, Shell.inWorld_request,
    World.answer, readable]
  rfl

/-- Loading a manifest changes nothing. -/
theorem world_load (w : World) (dir : Text) : ((load dir).inWorld w).2 = w := by
  cases result : w.tree.read w.workingDir (fileIn dir) with
  | error fault => rw [load_of_unreadable result]
  | ok content => rw [load_of_readable result]

/-- A manifest that was loaded is that of the directory. -/
theorem dir_of_load {m : Manifest} (loaded : ((load dir).inWorld w).1 = .ok m) :
    m.dir = absolute w.workingDir dir := by
  cases result : w.tree.read w.workingDir (fileIn dir) with
  | error fault =>
      rw [load_of_unreadable result] at loaded
      cases loaded
  | ok content =>
      rw [load_of_readable result] at loaded
      exact dir_ofContent loaded

theorem touched_load (w : World) (dir : Text) :
    (load dir).touched w = [fileIn dir] := by
  simp only [load, Shell.touched_bind, Shell.touched_request,
    Shell.inWorld_request, World.answer]
  cases w.tree.read w.workingDir (fileIn dir) <;> rfl

end Loading

/-! ## Searching -/

/-- The names lead to a directory that contains a manifest file.  No name of a
directory has a zero byte. -/
def HasManifest (tree : FileTree) (names : List Text) : Prop :=
  (∀ name ∈ names, (0 : UInt8) ∉ name) ∧
    ∃ entries, tree.descend names = .ok (.directory entries) ∧
      (entries.lookup fileName).isSome = true

section Searching

variable {w : World} {names up : List Text}

theorem find_fileIn_iff (all : ∀ name ∈ names, IsName name) :
    (∃ found, w.tree.find w.workingDir (fileIn (ofNames names)) = .ok found) ↔
      HasManifest w.tree names := by
  have legal : (∀ name ∈ names ++ [fileName], (0 : UInt8) ∉ name) ↔
      ∀ name ∈ names, (0 : UInt8) ∉ name := by
    rw [List.forall_mem_append, List.forall_mem_singleton]
    exact and_iff_left (by decide)
  simp only [fileIn_ofNames all,
    FileTree.find_ofNames_concat_eq_ok_iff (isName_of_mem_file all), legal,
    HasManifest, exists_and_left]
  refine and_congr_right fun _ => ⟨?_, ?_⟩
  · rintro ⟨found, descended⟩
    obtain ⟨entries, directory, -, entry⟩ :=
      FileTree.descend_concat_eq_ok descended
    exact ⟨entries, directory, Option.isSome_of_eq_some entry⟩
  · rintro ⟨entries, directory, present⟩
    obtain ⟨found, entry⟩ := Option.isSome_iff_exists.mp present
    refine ⟨found, ?_⟩
    rw [FileTree.descend_concat directory length_fileName_le, entry]
    rfl

theorem touched_holding (w : World) (up : List Text) :
    (holding up).touched w = [fileIn (ofNames up.reverse)] := by
  simp only [holding, Shell.touched_bind, Shell.touched_request,
    Shell.inWorld_request, World.answer]
  cases w.presence (fileIn (⟨true, up.reverse⟩ : Path).toText) <;> rfl

theorem holding_of_hasManifest (all : ∀ name ∈ up.reverse, IsName name)
    (has : HasManifest w.tree up.reverse) :
    (holding up).inWorld w = (some (ofNames up.reverse), w) := by
  obtain ⟨found, there⟩ := (find_fileIn_iff all).mpr has
  have present : w.presence (fileIn (⟨true, up.reverse⟩ : Path).toText) =
      .present := by
    rw [World.presence, ← ofNames, there]
  simp only [holding, Shell.inWorld_bind, Shell.inWorld_request,
    World.answer, present]
  rfl

theorem holding_of_not_hasManifest (all : ∀ name ∈ up.reverse, IsName name)
    (hasNot : ¬ HasManifest w.tree up.reverse) :
    (holding up).inWorld w = (none, w) := by
  have missing : w.presence (fileIn (⟨true, up.reverse⟩ : Path).toText) ≠
      .present := by
    intro present
    apply hasNot
    rw [← find_fileIn_iff all]
    rw [World.presence] at present
    split at present
    next found there => exact ⟨found, there⟩
    next => cases present
    next => cases present
  simp only [holding, Shell.inWorld_bind, Shell.inWorld_request, World.answer]
  cases answer : w.presence (fileIn (⟨true, up.reverse⟩ : Path).toText) with
  | present => exact absurd answer missing
  | absent => rfl
  | unreachable => rfl

/-- The manifest files of a directory and of those it lies in, `steps` steps
up. -/
def filesUp (dir : Text) (steps : Nat) : List Text :=
  (List.iterate parent dir (steps + 1)).map fileIn

theorem filesUp_succ {name : Text} (all : ∀ name ∈ names, IsName name)
    (isName : IsName name) (steps : Nat) :
    filesUp (ofNames (names ++ [name])) (steps + 1) =
      fileIn (ofNames (names ++ [name])) :: filesUp (ofNames names) steps := by
  rw [filesUp, List.iterate, List.map_cons, parent_ofNames_concat all isName]
  rfl

theorem nearest_of_hasManifest (all : ∀ name ∈ up.reverse, IsName name)
    (has : HasManifest w.tree up.reverse) :
    (nearest up).inWorld w = (some (ofNames up.reverse), w) ∧
      (nearest up).touched w =
        filesUp (ofNames up.reverse) (up.length - up.reverse.length) := by
  have held := holding_of_hasManifest all has
  rw [List.length_reverse, Nat.sub_self]
  cases up with
  | nil => exact ⟨held, touched_holding w []⟩
  | cons name up =>
      rw [nearest, Shell.inWorld_bind, Shell.touched_bind, held,
        touched_holding]
      exact ⟨rfl, rfl⟩

theorem nearest_cons_of_not_hasManifest {name : Text}
    (all : ∀ part ∈ (name :: up).reverse, IsName part)
    (hasNot : ¬ HasManifest w.tree (name :: up).reverse) :
    (nearest (name :: up)).inWorld w = (nearest up).inWorld w ∧
      (nearest (name :: up)).touched w =
        fileIn (ofNames (name :: up).reverse) :: (nearest up).touched w := by
  rw [nearest, Shell.inWorld_bind, Shell.touched_bind,
    holding_of_not_hasManifest all hasNot, touched_holding]
  exact ⟨rfl, rfl⟩

/-- The search ends at the deepest directory with a manifest file, or at the
root directory if there is none. -/
theorem nearest_spec (w : World) (all : ∀ name ∈ up.reverse, IsName name) :
    (∃ names, names <+: up.reverse ∧ HasManifest w.tree names ∧
      (∀ deeper, deeper <+: up.reverse → HasManifest w.tree deeper →
        deeper <+: names) ∧
      (nearest up).inWorld w = (some (ofNames names), w) ∧
      (nearest up).touched w =
        filesUp (ofNames up.reverse) (up.length - names.length)) ∨
    (∀ names, names <+: up.reverse → ¬ HasManifest w.tree names) ∧
      (nearest up).inWorld w = (none, w) ∧
      (nearest up).touched w = filesUp (ofNames up.reverse) up.length := by
  induction up with
  | nil =>
      by_cases has : HasManifest w.tree []
      · exact .inl ⟨[], List.nil_prefix, has, fun _ inside _ => inside,
          nearest_of_hasManifest all has⟩
      · refine .inr ⟨fun names inside => ?_, holding_of_not_hasManifest all has,
          touched_holding w []⟩
        cases List.prefix_nil.mp inside
        exact has
  | cons name up ih =>
      by_cases has : HasManifest w.tree (name :: up).reverse
      · exact .inl ⟨_, List.prefix_refl _, has, fun _ inside _ => inside,
          nearest_of_hasManifest all has⟩
      · obtain ⟨result, files⟩ := nearest_cons_of_not_hasManifest all has
        rw [List.reverse_cons] at all has ⊢
        rw [List.forall_mem_append, List.forall_mem_singleton] at all
        rw [List.reverse_cons] at files
        rcases ih all.1 with ⟨names, inside, found, deepest, above, touched⟩ |
          ⟨absent, above, touched⟩
        · have shorter : names.length ≤ up.length := by
            simpa using inside.length_le
          refine .inl ⟨names, inside.trans (List.prefix_append _ _), found, ?_,
            result.trans above, ?_⟩
          · intro deeper within hasDeeper
            rcases List.prefix_concat_iff.mp within with rfl | further
            · exact absurd hasDeeper has
            · exact deepest deeper further hasDeeper
          · rw [files, touched, List.length_cons, Nat.succ_sub shorter,
              filesUp_succ all.1 all.2]
        · refine .inr ⟨?_, result.trans above, ?_⟩
          · intro names within hasNames
            rcases List.prefix_concat_iff.mp within with rfl | further
            · exact has hasNames
            · exact absent names further hasNames
          · rw [files, touched, List.length_cons, filesUp_succ all.1 all.2]

section Found

variable {dir : Text}
  (start : ofText (absolute w.workingDir dir) = ⟨true, names⟩)

include start

theorem find_of_nearest_none
    (missing : (nearest names.reverse).inWorld w = (none, w)) :
    (find dir).inWorld w = (.ok none, w) ∧
      (find dir).touched w = (nearest names.reverse).touched w := by
  simp only [find, Shell.inWorld_bind, Shell.touched_bind,
    Shell.inWorld_request, Shell.touched_request, World.answer, start, missing]
  exact ⟨rfl, List.append_nil _⟩

theorem find_of_nearest_some {found : Text}
    (nearby : (nearest names.reverse).inWorld w = (some found, w)) :
    (find dir).inWorld w = (((load found).inWorld w).1.map some, w) ∧
      (find dir).touched w = (nearest names.reverse).touched w ++
        [fileIn found] := by
  constructor
  · simp only [find, Shell.inWorld_bind, Shell.inWorld_request, World.answer,
      start, nearby, Shell.inWorld_pure, world_load]
  · simp only [find, Shell.touched_bind, Shell.inWorld_request,
      Shell.touched_request, World.answer, start, nearby, Shell.touched_pure,
      touched_load, List.append_nil]
    rfl

end Found

end Searching

/-- The nearest manifest is loaded.

Let the search for a manifest start at a directory given by its path from the
root directory.  If that directory or one that it lies in has a manifest file,
then the search gives what loading the manifest of the deepest such directory
gives, be it an error or a manifest, whose directory is then that one; otherwise
it gives no manifest and no error.  The world stays as it is.  On its way the
search touches the manifest files of the directories from the first one up to
the one it ends at, and no others.  Going up ends at the root directory and not
before. -/
theorem find_loads_nearest (w : World) {dir : Text}
    (rooted : isRooted dir = true) :
    let start := (ofText dir).parts
    (∀ steps, parent (parent^[steps] (clean dir)) = parent^[steps] (clean dir) ↔
      start.length ≤ steps) ∧
    ((∃ names, names <+: start ∧ HasManifest w.tree names ∧
        (∀ deeper, deeper <+: start → HasManifest w.tree deeper →
          deeper <+: names) ∧
        (find dir).inWorld w =
          (((load (ofNames names)).inWorld w).1.map some, w) ∧
        (∀ m, ((load (ofNames names)).inWorld w).1 = .ok m →
          m.dir = ofNames names) ∧
        (find dir).touched w =
          filesUp (clean dir) (start.length - names.length) ++
          [fileIn (ofNames names)]) ∨
      (∀ names, names <+: start → ¬ HasManifest w.tree names) ∧
        (find dir).inWorld w = (.ok none, w) ∧
        (find dir).touched w = filesUp (clean dir) start.length) := by
  intro start
  have all : ∀ name ∈ start, IsName name := isName_of_mem_ofText rooted
  have begins : clean dir = ofNames start := clean_eq_ofNames rooted
  have climb : ofText (absolute w.workingDir dir) = ⟨true, start⟩ := by
    rw [absolute, if_pos rooted, begins, ofText_ofNames all]
  have search := nearest_spec w (by rwa [List.reverse_reverse] : ∀ name ∈
    start.reverse.reverse, _)
  rw [List.reverse_reverse, List.length_reverse] at search
  rw [begins]
  refine ⟨parent_iterate_eq_self_iff all, ?_⟩
  rcases search with ⟨names, inside, has, deepest, nearby, files⟩ |
    ⟨absent, missing, files⟩
  · obtain ⟨result, touched⟩ := find_of_nearest_some climb nearby
    refine .inl ⟨names, inside, has, deepest, result, ?_,
      by rw [touched, files]⟩
    intro m loaded
    rw [dir_of_load loaded, absolute_ofNames fun name member =>
      all name (inside.subset member)]
  · obtain ⟨result, touched⟩ := find_of_nearest_none climb missing
    exact .inr ⟨absent, result, by rw [touched, files]⟩

/-- A world with two manifest files, of which the deeper one is malformed. -/
def twoManifests : World where
  tree := .directory
    [(fileName, .file []),
      (Text.ofString "a", .directory
        [(fileName, .file (Text.ofString "?")),
          (Text.ofString "b", .directory [])])]
  workingDir := Text.ofString "/"

theorem find_loads_nearest_twoManifests :
    isRooted (Text.ofString "//a/./b/c") = true ∧
    ∃ names, [Text.ofString "a"] <+: names ∧
      HasManifest twoManifests.tree names ∧
      (find (Text.ofString "//a/./b/c")).inWorld twoManifests =
        (((load (ofNames names)).inWorld twoManifests).1.map some,
          twoManifests) := by
  have outer : HasManifest twoManifests.tree [Text.ofString "a"] :=
    ⟨by decide, _, rfl, by decide⟩
  have start : (ofText (Text.ofString "//a/./b/c")).parts =
      [Text.ofString "a", Text.ofString "b", Text.ofString "c"] := by decide
  have inside : [Text.ofString "a"] <+:
      (ofText (Text.ofString "//a/./b/c")).parts := by
    rw [start]
    exact List.prefix_append _ _
  obtain ⟨-, ⟨names, -, has, deepest, result, -⟩ | ⟨absent, -⟩⟩ :=
    find_loads_nearest twoManifests
      (rfl : isRooted (Text.ofString "//a/./b/c") = true)
  · exact ⟨rfl, names, deepest _ inside outer, has, result⟩
  · exact absurd outer (absent _ inside)

example : ((find (Text.ofString "//a/./b/c")).inWorld twoManifests).1 =
    .error (.malformed (Text.ofString "/a/wordvm.toml")) := rfl

end Manifest

end WordMachine
