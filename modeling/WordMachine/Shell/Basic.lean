import WordMachine.FileTree
import WordMachine.Machine.Run

/-!
# Talking to the outside

A shell computation is a tree: it ends with a value, or asks the outside for
something and goes on with the answer.  What the answers are is left to whoever
interprets the tree, so that the same computation works on the files of a
computer and on a file tree that is a mere value.
-/

namespace WordMachine

inductive Presence where
  | present
  | absent
  /-- The path leads through something that is not a directory, or is no path at
  all. -/
  | unreachable
  deriving DecidableEq, Repr

namespace Shell

/-- What can be asked of the outside, with the type of the answer. -/
inductive Request : Type → Type where
  | workingDir : Request Text
  | lookUp (path : Text) : Request Presence
  | read (path : Text) : Request (Except FileFault Text)
  | write (path content : Text) : Request (Except FileFault Unit)
  /-- Add to the end of a file, which is made if it is missing. -/
  | append (path content : Text) : Request (Except FileFault Unit)
  | makeDirectories (path : Text) : Request (Except FileFault Unit)
  /-- Write to the standard output. -/
  | print (text : Text) : Request Unit
  /-- Write to the standard error output. -/
  | complain (text : Text) : Request Unit
  /-- A name nothing else has, and the time in seconds. -/
  | stamp : Request (Text × Word)
  /-- Run a machine whose output goes to the standard output. -/
  | run (m : Machine) : Request (Machine × Stop)
  /-- Serve an editor that talks over the standard streams. -/
  | serve : Request Unit

end Shell

/-- A computation that talks to the outside. -/
inductive Shell (α : Type) where
  | done (value : α)
  | ask {β : Type} (request : Shell.Request β) (next : β → Shell α)

namespace Shell

/-- Go on with the value of a computation. -/
def andThen {α β : Type} : Shell α → (α → Shell β) → Shell β
  | .done value, f => f value
  | .ask request next, f => .ask request fun answer => (next answer).andThen f

instance : Monad Shell where
  pure := .done
  bind := andThen

@[simp] theorem done_bind {α β : Type} (a : α) (f : α → Shell β) :
    (Shell.done a >>= f) = f a := rfl

@[simp] theorem ask_bind {α β γ : Type} (request : Request γ)
    (next : γ → Shell α) (f : α → Shell β) :
    (Shell.ask request next >>= f) = .ask request fun answer =>
      next answer >>= f := rfl

def request {β : Type} (r : Request β) : Shell β :=
  .ask r .done

/-- Answer all requests of a computation inside a monad. -/
def interpret {m : Type → Type} [Monad m]
    (answer : {β : Type} → Request β → m β) {α : Type} :
    Shell α → m α
  | .done value => pure value
  | .ask request next => do
    let reply ← answer request
    (next reply).interpret answer

end Shell

end WordMachine
