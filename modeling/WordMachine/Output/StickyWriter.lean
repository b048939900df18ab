import WordMachine.Output.Sink

/-!
# Sticky writers

A sticky writer passes bytes on to a sink until a write fails.  From then on it
drops everything and reports that same failure, so a sequence of writes needs
only one check at its end.
-/

namespace WordMachine

/-- A sink with the first failure that writing to it met. -/
structure StickyWriter where
  sink : Sink
  fault : Option Fault := none

namespace StickyWriter

/-- What a sticky writer can be put over. -/
inductive Base where
  | sink (sink : Sink)
  | writer (writer : StickyWriter)

/-- The sticky writer over a sink, or over a sticky writer, which is that writer
itself: a failure is remembered in one place only. -/
def wrap : Base → StickyWriter
  | .sink sink => ⟨sink, none⟩
  | .writer writer => writer

/-- Write bytes, unless a write failed before. -/
def write (w : StickyWriter) (data : Text) : Sink.Written StickyWriter :=
  match w.fault with
  | some f => ⟨w, 0, some f⟩
  | none =>
    let result := w.sink.write data
    let fault := result.fault.map (.within (Text.ofString "write failed"))
    ⟨⟨result.target, fault⟩, result.count, fault⟩

def writeChar (w : StickyWriter) (c : Char) : Sink.Written StickyWriter :=
  w.write (Text.encodeChar c)

/-- Write the UTF-8 encoding of the character with the given code, or of the
replacement character if there is none. -/
def writeRune (w : StickyWriter) (code : Int32) : Sink.Written StickyWriter :=
  w.writeChar (Word.toChar code.toInt64)

/-- Write bytes and go on with the writer. -/
def append (w : StickyWriter) (data : Text) : StickyWriter :=
  (w.write data).target

end StickyWriter

end WordMachine
