import WordMachine.Path

/-!
# File trees

A file tree is a directory with everything below it.  Paths are followed name by
name, and each name but the last has to be that of a directory.

A name has at most `FileTree.nameLimit` bytes.  Permissions, links and the limit
on the length of a whole path are left out: every file may be read and written,
a path leads where its names say, and it may have any number of them.
-/

namespace WordMachine

/-- A file or a directory. -/
inductive FileTree where
  | file (content : Text)
  | directory (entries : List (Text × FileTree))

/-- Why a file operation was refused. -/
inductive FileReason where
  | notFound
  | notDirectory
  | isDirectory
  | nameTooLong
  | invalidName
  deriving DecidableEq, Repr

def FileReason.message : FileReason → Text
  | .notFound => Text.ofString "no such file or directory"
  | .notDirectory => Text.ofString "not a directory"
  | .isDirectory => Text.ofString "is a directory"
  | .nameTooLong => Text.ofString "file name too long"
  | .invalidName => Text.ofString "invalid argument"

/-- A refused file operation: what was tried, on which path, and the wording of
the reason. -/
structure FileFault where
  operation : Text
  path : Text
  reason : Text
  deriving DecidableEq, Repr

def FileFault.message (f : FileFault) : Text :=
  f.operation ++ Text.space :: f.path ++ Text.ofString ": " ++ f.reason

namespace FileTree

/-- The longest name a directory can hold. -/
def nameLimit : Nat := 255

/-- The tree with the given names below this one. -/
def descend : FileTree → List Text → Except FileReason FileTree
  | tree, [] => .ok tree
  | .file _, _ :: _ => .error .notDirectory
  | .directory entries, name :: rest =>
    if nameLimit < name.length then .error .nameTooLong
    else match entries.lookup name with
      | some tree => tree.descend rest
      | none => .error .notFound

def isDirectory : FileTree → Bool
  | .directory _ => true
  | .file _ => false

/-- Put `tree` under a name, in place of what had that name. -/
def replaceEntry (name : Text) (tree : FileTree) :
    List (Text × FileTree) → List (Text × FileTree)
  | [] => [(name, tree)]
  | entry :: rest =>
    if entry.1 = name then (name, tree) :: rest
      else entry :: replaceEntry name tree rest

/-- Put a tree where the names lead, making directories on the way. -/
def place : FileTree → List Text → FileTree → FileTree
  | _, [], new => new
  | .directory entries, name :: rest, new =>
    let below := (entries.lookup name).getD (.directory [])
    .directory (replaceEntry name (below.place rest new) entries)
  | .file _, name :: rest, new =>
    .directory [(name, place (.directory []) rest new)]

/-- Follow parts of a path from the directory `here`, held in reverse.  The last
part need not exist. -/
def follow (tree : FileTree) :
    List Text → List Text → Except FileReason (List Text)
  | [], here => .ok here.reverse
  | part :: rest, here =>
    match tree.descend here.reverse with
    | .error reason => .error reason
    | .ok (.file _) => .error .notDirectory
    | .ok (.directory _) =>
      if part = Path.here then tree.follow rest here
      else if part = Path.above then tree.follow rest here.tail
      else tree.follow rest (part :: here)

/-- The parts of a path as they are followed; a slash at the end asks for a
directory. -/
def followedParts (path : Text) : List Text :=
  let parts := (path.split Text.slash).filter (!·.isEmpty)
  if path.getLast? == some Text.slash then parts ++ [Path.here] else parts

/-- The names that a path leads to from the working directory. -/
def locate (tree : FileTree) (workingDir path : Text) :
    Except FileReason (List Text) :=
  if path.isEmpty then .error .notFound
  else if path.contains 0 then .error .invalidName
  else
    let start := if Path.isRooted path then []
      else (Path.ofText workingDir).parts
    tree.follow (followedParts path) start.reverse

/-- The file or directory a path leads to. -/
def find (tree : FileTree) (workingDir path : Text) :
    Except FileReason FileTree :=
  (tree.locate workingDir path).bind tree.descend

def read (tree : FileTree) (workingDir path : Text) : Except FileFault Text :=
  match tree.find workingDir path with
  | .ok (.file content) => .ok content
  | .ok (.directory _) =>
    .error ⟨Text.ofString "read", path, FileReason.isDirectory.message⟩
  | .error reason => .error ⟨Text.ofString "open", path, reason.message⟩

def write (tree : FileTree) (workingDir path content : Text) :
    Except FileFault FileTree :=
  let refuse (reason : FileReason) : Except FileFault FileTree :=
    .error ⟨Text.ofString "open", path, reason.message⟩
  match tree.locate workingDir (path.dropTrailing Text.slash) with
  | .error reason => refuse reason
  | .ok names =>
    if path.getLast? == some Text.slash then refuse .isDirectory
    else match tree.descend names with
      | .ok (.directory _) => refuse .isDirectory
      | .ok (.file _) => .ok (tree.place names (.file content))
      | .error .notFound =>
        match tree.descend names.dropLast with
        | .ok (.directory _) => .ok (tree.place names (.file content))
        | .ok (.file _) => refuse .notDirectory
        | .error reason => refuse reason
      | .error reason => refuse reason

/-- Make the directory of each of the given paths in turn, unless it is
there. -/
def makeEach (tree : FileTree) (workingDir : Text) :
    List Text → Except FileFault FileTree
  | [] => .ok tree
  | path :: rest =>
    let refuse (reason : FileReason) : Except FileFault FileTree :=
      .error ⟨Text.ofString "mkdir", path, reason.message⟩
    match tree.find workingDir path with
    | .ok (.directory _) => tree.makeEach workingDir rest
    | .ok (.file _) => refuse .notDirectory
    | .error _ =>
      match tree.locate workingDir (path.dropTrailing Text.slash) with
      | .error reason => refuse reason
      | .ok names =>
        match tree.descend names with
        | .error .notFound =>
          (tree.place names (.directory [])).makeEach workingDir rest
        | .error reason => refuse reason
        | .ok _ => refuse .notDirectory

/-- A path and the paths of the directories it goes through, outermost first. -/
def pathsTo (path : Text) : List Text :=
  ((List.range path.length).filter fun i =>
    0 < i && path[i]? == some Text.slash && path[i - 1]? != some Text.slash
      && !((path.drop i).all (· == Text.slash))).map (path.take ·) ++ [path]

def makeDirectories (tree : FileTree) (workingDir path : Text) :
    Except FileFault FileTree :=
  tree.makeEach workingDir (pathsTo path)

mutual

/-- The files of a tree with the names that lead to them, behind `here`. -/
def filesFrom : FileTree → (here : List Text) → List (List Text × Text)
  | .file content, here => [(here, content)]
  | .directory entries, here => filesOfEntries entries here

def filesOfEntries : List (Text × FileTree) → (here : List Text) →
    List (List Text × Text)
  | [], _ => []
  | (name, tree) :: rest, here =>
    tree.filesFrom (here ++ [name]) ++ filesOfEntries rest here

end

/-- The files of a tree with the names that lead to them. -/
def files (tree : FileTree) : List (List Text × Text) :=
  tree.filesFrom []

end FileTree

end WordMachine
