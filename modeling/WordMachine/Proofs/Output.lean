import WordMachine.Output.StickyWriter

/-!
# Writing to sinks

A sticky writer does not care how a text is cut into writes, not even if some of
them fail.  So all that is ever written can be seen as one write, and a sink
with room for some number of bytes ends up with the first of them.
-/

namespace WordMachine

private theorem append_texts (written : Array UInt8) (first second : Text) :
    written ++ first ++ second = written ++ (first ++ second) := by
  apply Array.toList_inj.mp
  simp

private theorem take_text (written : Array UInt8) (text : Text) (limit : Nat) :
    (written ++ text).take limit = written.take limit ++
      text.take (limit - written.size) := by
  apply Array.toList_inj.mp
  simp [List.take_append]

private theorem size_text (written : Array UInt8) (text : Text) :
    (written ++ text).size = written.size + text.length := by
  rw [← Array.length_toList]
  simp

namespace StickyWriter

@[simp] theorem append_nil (writer : StickyWriter) :
    writer.append [] = writer := by
  obtain ⟨⟨written, room, discards⟩, fault⟩ := writer
  cases fault with
  | some fault => rfl
  | none => cases discards <;> cases room <;> simp [append, write, Sink.write]

/-- Two writes leave the writer that one write of both texts leaves, even if the
sink has not room for all of them. -/
theorem append_append (writer : StickyWriter) (first second : Text) :
    (writer.append first).append second = writer.append (first ++ second) := by
  obtain ⟨⟨written, room, discards⟩, fault⟩ := writer
  cases fault with
  | some fault => rfl
  | none =>
      cases discards with
      | true => rfl
      | false =>
          cases room with
          | none => simp [append, write, Sink.write, append_texts]
          | some room =>
              by_cases fits : first.length ≤ room
              · by_cases both : first.length + second.length ≤ room
                · have behind : second.length ≤ room - first.length := by omega
                  simp [append, write, Sink.write, fits, both, behind,
                    append_texts, Nat.sub_sub]
                · have behind : ¬ second.length ≤ room - first.length := by
                    omega
                  simp [append, write, Sink.write, fits, both,
                    behind, append_texts, List.take_append,
                    List.take_of_length_le fits]
              -- the first write fails already, and the second one is dropped
              · have both : ¬ first.length + second.length ≤ room := by omega
                have cut : room - first.length = 0 := by omega
                simp [append, write, Sink.write, fits, both, cut,
                  List.take_append]

theorem append_of_fault {writer : StickyWriter}
    (failed : writer.fault.isSome = true) (text : Text) :
    writer.append text = writer := by
  obtain ⟨fault, faulty⟩ := Option.isSome_iff_exists.mp failed
  simp only [append, write, faulty]

theorem append_of_unlimited {sink : Sink} (unlimited : sink.room = none)
    (text : Text) :
    (⟨sink, none⟩ : StickyWriter).append text =
      ⟨(sink.write text).target, none⟩ := by
  obtain ⟨written, room, discards⟩ := sink
  cases unlimited
  cases discards <;> rfl

end StickyWriter

theorem Sink.text_write_of_unlimited {sink : Sink}
    (unlimited : sink.room = none) (stores : sink.discards = false)
    (text : Text) :
    (sink.write text).target.text = sink.text ++ text := by
  simp [Sink.write, Sink.text, unlimited, stores]

theorem Sink.room_write_of_unlimited {sink : Sink}
    (unlimited : sink.room = none) (text : Text) :
    (sink.write text).target.room = none := by
  cases stores : sink.discards <;> simp [Sink.write, stores, unlimited]

theorem Sink.prefix_write_of_unlimited {sink : Sink}
    (unlimited : sink.room = none) (text : Text) :
    sink.text <+: (sink.write text).target.text := by
  cases stores : sink.discards with
  | false =>
      rw [Sink.text_write_of_unlimited unlimited stores]
      exact List.prefix_append sink.text text
  | true => simp [Sink.write, stores]

theorem Sink.write_nil (sink : Sink) : (sink.write []).target = sink := by
  obtain ⟨written, room, discards⟩ := sink
  cases discards <;> cases room <;> simp [Sink.write]

/-! ## Limits -/

/-- What a sink without limit would hold if it had room for `limit` bytes in
all. -/
def Sink.limited (sink : Sink) (limit : Nat) : Sink :=
  { sink with
    written := sink.written.take limit
    room := if sink.discards then sink.room
      else some (limit - sink.written.size) }

theorem Sink.limited_ofLimit (limit : Nat) :
    (Sink.ofLimit none).limited limit = .ofLimit (some limit) := by
  simp [Sink.limited, Sink.ofLimit]

theorem Sink.limited_discard (limit : Nat) :
    Sink.discard.limited limit = .discard := by
  simp [Sink.limited, Sink.discard]

theorem Sink.text_limited (sink : Sink) (limit : Nat) :
    (sink.limited limit).text = sink.text.take limit := by
  simp [Sink.limited, Sink.text]

/-- The failure of a writer whose sink is full. -/
def StickyWriter.full : Fault :=
  .within (Text.ofString "write failed") (.root .sinkFull)

/-- Under a limit a text leaves the first bytes of what it leaves without one,
and the writer fails if these are not all. -/
theorem StickyWriter.append_limited {sink : Sink} {limit : Nat}
    (unlimited : sink.room = none) (within : sink.text.length ≤ limit)
    (text : Text) :
    (⟨sink.limited limit, none⟩ : StickyWriter).append text =
      ⟨(sink.write text).target.limited limit,
        if (sink.write text).target.text.length ≤ limit then none
          else some full⟩ := by
  obtain ⟨written, room, discards⟩ := sink
  cases unlimited
  have all : written.take limit = written := Array.extract_eq_self_of_le within
  cases discards with
  | true =>
      simpa [append, write, Sink.write, Sink.limited, Sink.text] using within
  | false =>
      by_cases fits : written.size + text.length ≤ limit
      · have room : text.length ≤ limit - written.size := by omega
        simp [append, write, Sink.write, Sink.limited, Sink.text, take_text,
          size_text, all, fits, room, List.take_of_length_le, Nat.sub_sub]
      · have short : ¬ text.length ≤ limit - written.size := by
          have small : written.size ≤ limit := within
          omega
        have roomless : limit - (written.size + text.length) = 0 := by omega
        simp [append, write, Sink.write, Sink.limited, Sink.text, take_text,
          size_text, all, fits, short, roomless, full]

end WordMachine
