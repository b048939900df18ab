import WordMachine.Word

/-!
# Stacks of words

The operand stack and the call stack.  The depth is stored beside the words, so
that checking a limit takes constant time; `depth_eq` ties the two together.
-/

namespace WordMachine

/-- A stack of words, the top first. -/
structure Stack where
  words : List Word
  depth : Nat
  depth_eq : depth = words.length

namespace Stack

@[ext] theorem ext {s t : Stack} (words : s.words = t.words) : s = t := by
  obtain ⟨_, _, hs⟩ := s
  obtain ⟨_, _, ht⟩ := t
  subst hs ht
  cases words
  rfl

def empty : Stack where
  words := []
  depth := 0
  depth_eq := rfl

instance : Inhabited Stack := ⟨empty⟩

def push (s : Stack) (w : Word) : Stack where
  words := w :: s.words
  depth := s.depth + 1
  depth_eq := by simp [s.depth_eq]

/-- The stack with the given words, the top first. -/
def ofList (words : List Word) : Stack where
  words := words
  depth := words.length
  depth_eq := rfl

def drop1 (s : Stack) : Stack where
  words := s.words.drop 1
  depth := s.depth - 1
  depth_eq := by simp [s.depth_eq]

def drop2 (s : Stack) : Stack :=
  s.drop1.drop1

/-- The words from the bottom to the top. -/
def bottomFirst (s : Stack) : List Word :=
  s.words.reverse

@[simp] theorem words_push (s : Stack) (w : Word) :
    (s.push w).words = w :: s.words := rfl

@[simp] theorem words_drop1 (s : Stack) : s.drop1.words = s.words.drop 1 := rfl

@[simp] theorem words_drop2 (s : Stack) : s.drop2.words = s.words.drop 2 := by
  simp [drop2]

end Stack

end WordMachine
