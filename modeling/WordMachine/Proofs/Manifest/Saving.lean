import Mathlib.Tactic.MkIffOfInductiveProp
import WordMachine.Proofs.Manifest.Nearest
import WordMachine.Proofs.Manifest.RoundTrip

/-!
# Loading a manifest that was saved

A manifest that leaves nothing open has a text that is read back without
changes: no size is negative, and no default takes the place of a value.  So
what is loaded after saving is the manifest that was saved, and a machine can be
made with its settings.
-/

namespace WordMachine

/-! ## Machines with given sizes -/

namespace Machine

theorem resize_replicate (old size : Nat) :
    resize (Array.replicate old 0) size = Array.replicate size 0 := by
  have total : min size old + (size - old) = size := by omega
  rw [resize, Array.size_replicate, Array.take,
    Array.extract_replicate, Nat.sub_zero,
    Array.replicate_append_replicate, total]

end Machine

namespace Manifest

open WordMachine.Path

/-- A manifest that leaves nothing open, for a project whose directory is given
by its shortest path from the root directory. -/
@[mk_iff]
structure IsComplete (m : Manifest) : Prop where
  rooted : isRooted m.dir = true
  clean : Path.clean m.dir = m.dir
  valid : ∀ t ∈ m.texts, t.isValid = true
  name : m.name ≠ []
  entry : m.entry ≠ []
  output : m.output ≠ []
  memory : 0 < m.memory
  stack : 0 < m.stack
  callDepth : 0 < m.callDepth
  stepLimit : 0 ≤ m.stepLimit

instance (m : Manifest) : Decidable m.IsComplete :=
  decidable_of_iff _ (isComplete_iff m).symm

section Complete

variable {m : Manifest} (complete : m.IsComplete)

include complete

theorem IsComplete.negativeSize? : m.negativeSize? = none := by
  have memory : ¬ m.memory < 0 :=
    Int64.not_lt.mpr (Int64.le_of_lt complete.memory)
  have stack : ¬ m.stack < 0 := Int64.not_lt.mpr (Int64.le_of_lt complete.stack)
  have callDepth : ¬ m.callDepth < 0 :=
    Int64.not_lt.mpr (Int64.le_of_lt complete.callDepth)
  have stepLimit : ¬ m.stepLimit < 0 := Int64.not_lt.mpr complete.stepLimit
  simp [Manifest.negativeSize?, sizes, memory, stack, callDepth, stepLimit]

/-- Defaults take the place of nothing. -/
theorem IsComplete.withDefaults : m.withDefaults = m := by
  have positive {size : Word} (large : 0 < size) : size ≠ 0 :=
    (Int64.ne_of_lt large).symm
  simp only [Manifest.withDefaults, orText, orSize,
    List.isEmpty_eq_false_iff.mpr complete.name,
    List.isEmpty_eq_false_iff.mpr complete.entry,
    List.isEmpty_eq_false_iff.mpr complete.output,
    if_neg (positive complete.memory), if_neg (positive complete.stack),
    if_neg (positive complete.callDepth), Bool.false_eq_true, if_false]

theorem IsComplete.ofContent (path : Text) :
    ofContent m.dir path m.encode = .ok m := by
  have sizes : ({ m with dir := [] } : Manifest).negativeSize? = none :=
    complete.negativeSize?
  simp only [Manifest.ofContent, decode_encode complete.valid, sizes]
  exact congrArg Except.ok complete.withDefaults

theorem IsComplete.exists_names : ∃ names, (∀ name ∈ names, IsName name) ∧
    m.dir = ofNames names ∧ (ofText m.dir).parts = names :=
  ⟨(ofText m.dir).parts, isName_of_mem_ofText complete.rooted,
    complete.clean.symm.trans (clean_eq_ofNames complete.rooted), rfl⟩

/-- The machine has the sizes that the manifest gives, if that much memory can
be addressed. -/
theorem IsComplete.new_settings (host : Host) :
    Machine.new host m.settings =
      if m.memory.toInt.toNat ≤ Machine.maxMemorySize then .ok
        { memory := Array.replicate m.memory.toInt.toNat 0
          limits :=
            { stack := m.stack.toInt.toNat
              calls := m.callDepth.toInt.toNat
              steps := if m.stepLimit = 0 then none
                else some m.stepLimit.toInt.toNat }
          host := { host with tracing := m.trace } }
      else .error (.root .unaddressable) := by
  have positive {size : Word} (large : 0 < size) : ¬ size.toInt ≤ 0 :=
    Int.not_le.mpr (Int64.lt_iff_toInt_lt.mp large)
  have limit : ¬ m.stepLimit.toInt < 0 :=
    Int.not_lt.mpr (Int64.le_iff_toInt_le.mp complete.stepLimit)
  have unlimited : m.stepLimit.toInt = 0 ↔ m.stepLimit = 0 :=
    Int64.toInt_inj (y := 0)
  simp only [Machine.new, settings, sized, if_pos complete.memory,
    if_pos complete.stack, if_pos complete.callDepth, List.cons_append,
    List.nil_append, Machine.configureAll, Machine.configure, if_neg limit,
    if_neg (positive complete.memory), if_neg (positive complete.stack),
    if_neg (positive complete.callDepth), Machine.resize_replicate,
    Array.size_replicate, unlimited]
  by_cases addressable : m.memory.toInt.toNat ≤ Machine.maxMemorySize
  · have room : ¬ (Machine.maxMemorySize < m.memory.toInt.toNat ∧
        Machine.defaultMemorySize < m.memory.toInt.toNat) :=
      fun beyond => Nat.not_lt.mpr addressable beyond.1
    rw [if_neg room, if_pos addressable]
  · have beyond : Machine.maxMemorySize < m.memory.toInt.toNat ∧
        Machine.defaultMemorySize < m.memory.toInt.toNat :=
      ⟨Nat.not_le.mp addressable,
        Nat.lt_trans (by decide) (Nat.not_le.mp addressable)⟩
    rw [if_pos beyond, if_neg addressable]

end Complete

/-! ## Saving -/

section Saving

variable {w : World} {m : Manifest}

theorem save_of_write {tree : FileTree}
    (written : w.tree.write w.workingDir (fileIn m.dir) m.encode = .ok tree) :
    m.save.inWorld w = (.ok (), { w with tree := tree }) := by
  simp only [save, Shell.inWorld_bind, Shell.inWorld_request, World.answer,
    written, World.changed]
  rfl

theorem save_of_unwritable {fault : FileFault}
    (refused : w.tree.write w.workingDir (fileIn m.dir) m.encode =
      .error fault) :
    m.save.inWorld w = (.error (.unwritable (fileIn m.dir) fault), w) := by
  simp only [save, Shell.inWorld_bind, Shell.inWorld_request, World.answer,
    refused, World.changed]
  rfl

theorem read_of_find {path content : Text}
    (found : w.tree.find w.workingDir path = .ok (.file content)) :
    w.tree.read w.workingDir path = .ok content := by
  rw [FileTree.read, found]

theorem find_of_load {dir : Text} (loaded : ((load dir).inWorld w).1 = .ok m) :
    ∃ content, w.tree.find w.workingDir (fileIn dir) = .ok (.file content) := by
  cases result : w.tree.read w.workingDir (fileIn dir) with
  | error fault =>
      rw [load_of_unreadable result] at loaded
      cases loaded
  | ok content =>
      rw [FileTree.read] at result
      split at result
      next found =>
        cases result
        exact ⟨content, found⟩
      next => cases result
      next => cases result

/-- Where a manifest was loaded from, one can be saved. -/
theorem writable_of_load {dir : Text}
    (loaded : ((load dir).inWorld w).1 = .ok m)
    (rooted : isRooted m.dir = true) (legal : (0 : UInt8) ∉ w.workingDir) :
    w.tree.Writable (ofText m.dir).parts fileName := by
  obtain ⟨content, found⟩ := find_of_load loaded
  rw [dir_of_load loaded] at rooted ⊢
  have names := FileTree.zero_not_mem_of_find_join isName_fileName
    rooted legal found
  have reached := FileTree.descend_of_find_join isName_fileName rooted found
  obtain ⟨entries, directory, -, entry⟩ := FileTree.descend_concat_eq_ok reached
  refine ⟨?_, entries, directory, fun inner other => ?_⟩
  · rw [List.forall_mem_append, List.forall_mem_singleton]
    exact ⟨names, by decide⟩
  · rw [entry] at other
    cases other

section Complete

variable (complete : m.IsComplete)

include complete

/-- What was saved is loaded again. -/
theorem IsComplete.load_after_save
    (writable : w.tree.Writable (ofText m.dir).parts fileName) :
    ∃ after, m.save.inWorld w = (.ok (), after) ∧
      (load m.dir).inWorld after = (.ok m, after) := by
  obtain ⟨names, all, dir, parts⟩ := complete.exists_names
  have each := isName_of_mem_file all
  have file : fileIn m.dir = ofNames (names ++ [fileName]) := by
    rw [dir, fileIn_ofNames all]
  rw [parts] at writable
  have written :=
    FileTree.write_of_writable each length_fileName_le writable
      w.workingDir m.encode
  obtain ⟨legal, entries, directory, -⟩ := writable
  rw [← file] at written
  refine ⟨_, save_of_write written, ?_⟩
  have readable : (w.tree.place (names ++ [fileName]) (.file m.encode)).find
      w.workingDir (fileIn m.dir) = .ok (.file m.encode) := by
    rw [file, FileTree.find_ofNames_concat_eq_ok_iff each]
    exact ⟨legal, FileTree.descend_place directory length_fileName_le _⟩
  have absolute : absolute w.workingDir m.dir = m.dir := by
    rw [dir, absolute_ofNames all]
  rw [load_of_readable (read_of_find readable), absolute, complete.ofContent]

theorem IsComplete.save_of_not_writable
    (unwritable : ¬ w.tree.Writable (ofText m.dir).parts fileName) :
    ∃ fault, m.save.inWorld w =
      (.error (.unwritable (fileIn m.dir) fault), w) := by
  obtain ⟨names, all, dir, parts⟩ := complete.exists_names
  cases result : w.tree.write w.workingDir (fileIn m.dir) m.encode with
  | error fault => exact ⟨fault, save_of_unwritable result⟩
  | ok tree =>
      rw [dir, fileIn_ofNames all] at result
      rw [parts] at unwritable
      have writable :=
        FileTree.writable_of_write (isName_of_mem_file all)
          length_fileName_le result
      exact absurd writable unwritable

end Complete

end Saving

/-- A manifest is saved and loaded back.

Let a manifest leave nothing open: its sizes are positive, its step limit is not
negative, its texts are valid, and only the version and the log file may be
empty.  If its file can be written, then saving succeeds, and loading the
directory afterwards gives the same manifest; if not, then saving fails and
changes nothing.  The file can be written wherever a manifest of the directory
was loaded.  If as much memory can be addressed as the manifest asks for, then a
machine is made with its settings, and has exactly its sizes. -/
theorem load_gives_saved (w : World) (host : Host) {m : Manifest}
    (complete : m.IsComplete) :
    (w.tree.Writable (ofText m.dir).parts fileName →
      ∃ after, m.save.inWorld w = (.ok (), after) ∧
        (load m.dir).inWorld after = (.ok m, after)) ∧
    (¬ w.tree.Writable (ofText m.dir).parts fileName →
      ∃ fault, m.save.inWorld w =
        (.error (.unwritable (fileIn m.dir) fault), w)) ∧
    ((0 : UInt8) ∉ w.workingDir →
      ∀ dir before, ((load dir).inWorld w).1 = .ok before → before.dir = m.dir →
        w.tree.Writable (ofText m.dir).parts fileName) ∧
    (m.memory.toInt.toNat ≤ Machine.maxMemorySize →
      Machine.new host m.settings = .ok
        { memory := Array.replicate m.memory.toInt.toNat 0
          limits :=
            { stack := m.stack.toInt.toNat
              calls := m.callDepth.toInt.toNat
              steps := if m.stepLimit = 0 then none
                else some m.stepLimit.toInt.toNat }
          host := { host with tracing := m.trace } }) := by
  refine ⟨complete.load_after_save, complete.save_of_not_writable, ?_, ?_⟩
  · intro legal dir before loaded same
    rw [← same]
    exact writable_of_load loaded (same ▸ complete.rooted) legal
  · intro addressable
    rw [complete.new_settings, if_pos addressable]

/-- A world with one project, whose manifest file is empty, seen from a
directory inside it. -/
def oneProject : World where
  tree := .directory
    [(Text.ofString "p", .directory
      [(fileName, .file []), (Text.ofString "q", .directory [])])]
  workingDir := Text.ofString "/p/q"

/-- The manifest of that project with other values, among them texts that need
escapes. -/
def awkward : Manifest where
  dir := Text.ofString "/p"
  name := Text.ofString "a \"quoted\" \\ name\n\t\x00\x7f"
  entry := Text.ofString "größe.asm"
  memory := 5
  stepLimit := 0x7FFFFFFFFFFFFFFF
  stack := 1
  callDepth := 2
  trace := true
  output := Text.ofString "[out]"
  verbosity := -3
  logFile := Text.ofString "# no comment"

theorem load_gives_saved_awkward : awkward.IsComplete ∧
    ((load (Text.ofString "..")).inWorld oneProject).1 =
      .ok (default awkward.dir) ∧
    (∃ after, awkward.save.inWorld oneProject = (.ok (), after) ∧
      (load awkward.dir).inWorld after = (.ok awkward, after)) ∧
    Machine.new {} awkward.settings = .ok
      { memory := Array.replicate 5 0
        limits := { stack := 1, calls := 2, steps := some 0x7FFFFFFFFFFFFFFF }
        host := { tracing := true } } := by
  have complete : awkward.IsComplete := by decide
  have loaded : ((load (Text.ofString "..")).inWorld oneProject).1 =
      .ok (default awkward.dir) :=
    rfl
  obtain ⟨saved, -, writable, made⟩ := load_gives_saved oneProject {} complete
  exact ⟨complete, loaded, saved (writable (by decide) _ _ loaded rfl),
    made (by decide)⟩

/-- The default manifest of that project, but with more memory than can be
addressed. -/
def vast : Manifest :=
  { default (Text.ofString "/p") with
    version := Text.ofString "1", logFile := Text.ofString "l"
    memory := 0x4000000000000000 }

/-- The default manifest of a project whose directory is missing. -/
def homeless : Manifest :=
  { default (Text.ofString "/r") with
    version := Text.ofString "1", logFile := Text.ofString "l" }

/-- A manifest that leaves nothing open and was saved and loaded need not give a
machine, and one of a directory that is missing cannot be saved. -/
theorem vast_breaks_off_and_homeless_unsaved :
    (vast.IsComplete ∧
      ((load vast.dir).inWorld oneProject).1 = .ok (default vast.dir) ∧
      (∃ after, vast.save.inWorld oneProject = (.ok (), after) ∧
        (load vast.dir).inWorld after = (.ok vast, after)) ∧
      Machine.new {} vast.settings = .error (.root .unaddressable) ∧
      Cause.unaddressable.breaksOff = true) ∧
    homeless.IsComplete ∧
    homeless.save.inWorld oneProject =
      (.error (.unwritable (Text.ofString "/r/wordvm.toml")
        ⟨Text.ofString "open", Text.ofString "/r/wordvm.toml",
          Text.ofString "no such file or directory"⟩), oneProject) := by
  have complete : vast.IsComplete := by decide
  have loaded : ((load vast.dir).inWorld oneProject).1 =
      .ok (default vast.dir) := rfl
  have writable := writable_of_load loaded rfl (by decide)
  have broken : Machine.new {} vast.settings =
      .error (.root .unaddressable) := by
    rw [complete.new_settings, if_neg (by decide)]
  exact ⟨⟨complete, loaded, complete.load_after_save writable, broken, rfl⟩,
    by decide, rfl⟩

end Manifest

end WordMachine
