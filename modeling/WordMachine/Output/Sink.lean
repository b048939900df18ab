import WordMachine.Fault

/-!
# Output sinks

A sink is where output bytes go.  It may have room for a limited number of
bytes: a write that does not fit stores what still fits and fails.  A sink that
discards its input accepts everything and keeps nothing.
-/

namespace WordMachine

structure Sink where
  /-- The bytes stored so far. -/
  written : Array UInt8 := #[]
  /-- How many more bytes fit; `none` if there is no limit. -/
  room : Option Nat := none
  /-- Whether bytes are dropped without being stored. -/
  discards : Bool := false

namespace Sink

/-- A sink with room for `limit` bytes, or any number of them. -/
def ofLimit (limit : Option Nat) : Sink :=
  { room := limit }

/-- The sink that accepts everything and keeps nothing. -/
def discard : Sink :=
  { discards := true }

/-- The outcome of a write: the sink afterwards, the number of bytes accepted
and the failure if that was not all of them. -/
structure Written (σ : Type) where
  target : σ
  count : Nat
  fault : Option Fault

/-- Store `data`, as far as it fits. -/
def write (s : Sink) (data : Text) : Written Sink :=
  if s.discards then ⟨s, data.length, none⟩
  else match s.room with
    | none => ⟨{ s with written := s.written ++ data }, data.length, none⟩
    | some room =>
      if data.length ≤ room then
        ⟨{ s with
            written := s.written ++ data, room := some (room - data.length) },
          data.length, none⟩
      else
        ⟨{ s with written := s.written ++ data.take room, room := some 0 },
          room, some (.root .sinkFull)⟩

def text (s : Sink) : Text :=
  s.written.toList

/-- The sink with its stored bytes taken out; the room left stays the same. -/
def emptied (s : Sink) : Sink :=
  { s with written := #[] }

end Sink

end WordMachine
