import WordMachine.Text.Basic

/-!
# Stores

A store keeps one thing for each document of an editor, found by the document's
address.
-/

namespace WordMachine.Editor

/-- Things found by the address of a document. -/
structure Store (α : Type) where
  entries : List (Text × α) := []

namespace Store

variable {α : Type}

def get? (s : Store α) (uri : Text) : Option α :=
  s.entries.lookup uri

def erase (s : Store α) (uri : Text) : Store α :=
  ⟨s.entries.filter fun entry => entry.1 != uri⟩

/-- Keep something for a document, in place of what was kept for it. -/
def set (s : Store α) (uri : Text) (a : α) : Store α :=
  ⟨(uri, a) :: (s.erase uri).entries⟩

theorem lookup_filter_ne {uri other : Text} (entries : List (Text × α)) :
    (entries.filter fun entry => entry.1 != uri).lookup other
      = if other = uri then none else entries.lookup other := by
  induction entries with
  | nil => simp
  | cons entry rest ih =>
    obtain ⟨key, a⟩ := entry
    by_cases same : key = uri
    · subst same
      by_cases asked : other = key
      · subst asked; simpa using ih
      · have differs : (other == key) = false := by simpa using asked
        simp [List.lookup_cons, differs, ih, asked]
    · by_cases asked : other = key
      · subst asked
        simp [same]
      · have differs : (other == key) = false := by simpa using asked
        simp [same, List.lookup_cons, differs, ih]

@[simp] theorem get?_empty (uri : Text) : ({} : Store α).get? uri = none := rfl

/-- Erasing takes away what was kept for that document and nothing else. -/
@[simp] theorem get?_erase (s : Store α) (uri other : Text) :
    (s.erase uri).get? other = if other = uri then none else s.get? other :=
  lookup_filter_ne s.entries

/-- Setting changes what is kept for that document and nothing else. -/
@[simp] theorem get?_set (s : Store α) (uri other : Text) (a : α) :
    (s.set uri a).get? other = if other = uri then some a
      else s.get? other := by
  by_cases same : other = uri
  · simp [set, get?, same]
  · have differs : (other == uri) = false := by simpa using same
    have rest := s.get?_erase uri other
    simp only [get?, same, if_false] at rest
    simp [set, get?, List.lookup_cons, differs, same, rest]

end Store

end WordMachine.Editor
