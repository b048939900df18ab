import WordMachine.Machine.Printf
import WordMachine.Shell.Basic

/-!
# A world of values

A world answers the requests of shell computations from a file tree.  Nothing in
it depends on anything but the world itself.
-/

namespace WordMachine

/-- Everything shell computations can see and change. -/
structure World where
  /-- The root directory. -/
  tree : FileTree
  workingDir : Text
  /-- What was written to the standard output. -/
  printed : Text := []
  /-- What was written to the standard error output. -/
  complained : Text := []
  /-- How many names were given out. -/
  stamps : Nat := 0
  /-- How many rounds a machine may run. -/
  fuel : Nat := 0

namespace World

def presence (w : World) (path : Text) : Presence :=
  match w.tree.find w.workingDir path with
  | .ok _ => .present
  | .error .notFound => .absent
  | .error _ => .unreachable

/-- Replace the file tree, if the change to it was not refused. -/
def changed (w : World) :
    Except FileFault FileTree → Except FileFault Unit × World
  | .ok tree => (.ok (), { w with tree := tree })
  | .error fault => (.error fault, w)

/-- The answer to a request and the world after it. -/
def answer (w : World) : {β : Type} → Shell.Request β → β × World
  | _, .workingDir => (w.workingDir, w)
  | _, .lookUp path => (w.presence path, w)
  | _, .read path => (w.tree.read w.workingDir path, w)
  | _, .write path content => w.changed (w.tree.write w.workingDir path content)
  | _, .append path content =>
    let old := match w.tree.find w.workingDir path with
      | .ok (.file old) => old
      | _ => []
    w.changed (w.tree.write w.workingDir path (old ++ content))
  | _, .makeDirectories path =>
    w.changed (w.tree.makeDirectories w.workingDir path)
  | _, .print text => ((), { w with printed := w.printed ++ text })
  | _, .complain text => ((), { w with complained := w.complained ++ text })
  | _, .stamp => ((Text.ofNat w.stamps, 0), { w with stamps := w.stamps + 1 })
  | _, .run m =>
    let (m, stop) := m.run .standard .never w.fuel
    ((m, stop), { w with printed := w.printed ++ m.host.output.text })
  | _, .serve => ((), w)

end World

def Shell.inWorld {α : Type} : Shell α → World → α × World
  | .done value, w => (value, w)
  | .ask request next, w =>
    let (reply, w) := w.answer request
    (next reply).inWorld w

end WordMachine
