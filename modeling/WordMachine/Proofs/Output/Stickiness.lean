import WordMachine.Proofs.Output

/-!
# Calls to a sticky writer

Over a sink with room for a limited number of bytes, what matters about a sticky
writer is all the data it was ever given: the sink holds the front part of it,
and the writer has failed if that is not all.  So each sequence of calls has at
most one call that comes to the limit.  The calls before it succeed, and the
calls behind it report its failure and store nothing.
-/

namespace WordMachine.StickyWriter

/-! ## Calls -/

inductive Call where
  | write (data : Text)
  | writeString (text : Text)
  | writeRune (code : Int32)
  /-- Put a sticky writer over the writer, and go on with that. -/
  | rewrap
  deriving DecidableEq

/-- The UTF-8 encoding of the character with the given code, or that of
`U+FFFD`. -/
def runeBytes (code : Int32) : Text :=
  if 0 ≤ code.toInt ∧ code.toInt ≤ 0x10FFFF ∧
    ¬ (0xD800 ≤ code.toInt ∧ code.toInt ≤ 0xDFFF) then
    Text.encodeChar (Char.ofNat code.toInt.toNat)
  else [0xEF, 0xBF, 0xBD]

def Call.data : Call → Text
  | .write data => data
  | .writeString text => text
  | .writeRune code => runeBytes code
  | .rewrap => []

def bytes (calls : List Call) : Text :=
  calls.flatMap Call.data

inductive Reply where
  | wrote (count : Nat) (fault : Option Fault)
  | wrapped
  deriving DecidableEq

/-- The answer to a call that succeeds. -/
def Call.success : Call → Reply
  | .rewrap => .wrapped
  | call => .wrote call.data.length none

/-- The answer to a call behind one that failed. -/
def Call.dropped (fault : Fault) : Call → Reply
  | .rewrap => .wrapped
  | _ => .wrote 0 (some fault)

theorem Call.success_of_ne {call : Call} (writes : call ≠ .rewrap) :
    call.success = .wrote call.data.length none := by
  cases call <;> first | rfl | exact absurd rfl writes

theorem Call.dropped_of_ne {call : Call} (writes : call ≠ .rewrap)
    (fault : Fault) :
    call.dropped fault = .wrote 0 (some fault) := by
  cases call <;> first | rfl | exact absurd rfl writes

/-- The writer after a write, and the answer to it. -/
def replied (result : Sink.Written StickyWriter) : StickyWriter × Reply :=
  (result.target, .wrote result.count result.fault)

/-- The writer after a call, and the answer to it. -/
def make (w : StickyWriter) : Call → StickyWriter × Reply
  | .write data => replied (w.write data)
  | .writeString text => replied (w.write text)
  | .writeRune code => replied (w.writeRune code)
  | .rewrap => (wrap (.writer w), .wrapped)

/-- The writer after a sequence of calls, and the answers to them. -/
def makeAll (w : StickyWriter) : List Call → StickyWriter × List Reply
  | [] => (w, [])
  | call :: rest =>
    let (w, reply) := w.make call
    let (w, replies) := w.makeAll rest
    (w, reply :: replies)

/-! ## Characters -/

/-- The low bits of a code that was widened are those of the code. -/
theorem bits_toInt64 (code : Int32) :
    ((Word.bits code.toInt64 % Nat.pow 2 32 : Nat) : Int) =
      code.toInt % 0x100000000 := by
  have wide : (Word.bits code.toInt64 : Int) =
      code.toInt % 0x10000000000000000 := by
    change ((BitVec.signExtend 64 code.toBitVec).toNat : Int) = _
    rw [BitVec.signExtend, BitVec.toNat_ofInt,
      Int.toNat_of_nonneg (Int.emod_nonneg _ (by decide))]
    rfl
  change ((Word.bits code.toInt64 % 0x100000000 : Nat) : Int) = _
  omega

theorem encodeChar_toChar (code : Int32) :
    Text.encodeChar (Word.toChar code.toInt64) = runeBytes code := by
  have low := bits_toInt64 code
  have least : -0x80000000 ≤ code.toInt := code.le_toInt
  have greatest : code.toInt < 0x80000000 := code.toInt_lt
  unfold Word.toChar runeBytes
  by_cases negative : code.toInt < 0
  -- a negative code has the value of a code far beyond the last character
  · rw [if_neg (by simp only [Nat.isValidChar]; omega), if_neg (by omega)]
    decide
  · have same : Word.bits code.toInt64 % Nat.pow 2 32 = code.toInt.toNat := by
      omega
    simp only [same]
    by_cases valid : code.toInt.toNat.isValidChar
    · rw [if_pos valid, if_pos (by simp only [Nat.isValidChar] at valid; omega)]
    · rw [if_neg valid, if_neg (by simp only [Nat.isValidChar] at valid; omega)]
      decide

/-- A call writes its data. -/
theorem make_eq {call : Call} (writes : call ≠ .rewrap) (w : StickyWriter) :
    w.make call = replied (w.write call.data) := by
  cases call with
  | write data => rfl
  | writeString text => rfl
  | writeRune code =>
      rw [make, writeRune, writeChar, encodeChar_toChar]
      rfl
  | rewrap => exact absurd rfl writes

/-! ## One call -/

/-- The writer over a sink with room for `limit` bytes that was given `data`. -/
def given (limit : Nat) (data : Text) : StickyWriter :=
  ⟨{ written := (data.take limit).toArray, room := some (limit - data.length) },
    if data.length ≤ limit then none else some full⟩

theorem wrap_ofLimit (limit : Nat) :
    wrap (.sink (.ofLimit (some limit))) = given limit [] := by
  simp [wrap, given, Sink.ofLimit]

section Given

variable {limit : Nat} {data more : Text}

theorem text_given (limit : Nat) (data : Text) :
    (given limit data).sink.text = data.take limit := rfl

theorem write_given_of_fits (fits : data.length + more.length ≤ limit) :
    (given limit data).write more =
      ⟨given limit (data ++ more), more.length, none⟩ := by
  have inside : data.length ≤ limit := by omega
  have room : more.length ≤ limit - data.length := by omega
  simp [given, write, Sink.write, inside, room, fits, List.take_of_length_le,
    Nat.sub_sub]

/-- The write that comes to the limit stores what still fits. -/
theorem write_given_of_exceeds (inside : data.length ≤ limit)
    (exceeds : limit < data.length + more.length) :
    (given limit data).write more =
      ⟨given limit (data ++ more), limit - data.length, some full⟩ := by
  have room : ¬ more.length ≤ limit - data.length := by omega
  have roomless : limit - (data.length + more.length) = 0 := by omega
  simp [given, write, Sink.write, inside, room, roomless, exceeds,
    List.take_append, full, List.take_of_length_le]

theorem write_given_of_full (beyond : limit < data.length) (more : Text) :
    (given limit data).write more = ⟨given limit data, 0, some full⟩ := by
  have failed : (given limit data).fault = some full :=
    if_neg (Nat.not_le.mpr beyond)
  rw [write, failed]

theorem make_given_of_fits {call : Call}
    (fits : data.length + call.data.length ≤ limit) :
    (given limit data).make call =
      (given limit (data ++ call.data), call.success) := by
  by_cases writes : call = .rewrap
  · cases writes
    exact congrArg (fun data => (given limit data, Reply.wrapped))
      (List.append_nil data).symm
  · rw [make_eq writes, write_given_of_fits fits, Call.success_of_ne writes]
    rfl

theorem make_given_of_exceeds {call : Call} (inside : data.length ≤ limit)
    (exceeds : limit < data.length + call.data.length) :
    (given limit data).make call =
      (given limit (data ++ call.data),
        .wrote (limit - data.length) (some full)) := by
  have writes : call ≠ .rewrap := by
    rintro rfl
    exact Nat.not_le.mpr exceeds inside
  rw [make_eq writes, write_given_of_exceeds inside exceeds]
  rfl

theorem make_given_of_full (beyond : limit < data.length) (call : Call) :
    (given limit data).make call = (given limit data, call.dropped full) := by
  by_cases writes : call = .rewrap
  · cases writes
    rfl
  · rw [make_eq writes, write_given_of_full beyond, Call.dropped_of_ne writes]
    rfl

end Given

/-! ## Sequences of calls -/

theorem makeAll_append (w : StickyWriter) (front back : List Call) :
    w.makeAll (front ++ back) =
      (((w.makeAll front).1.makeAll back).1,
        (w.makeAll front).2 ++ ((w.makeAll front).1.makeAll back).2) := by
  induction front generalizing w with
  | nil => rfl
  | cons call rest ih => simp only [List.cons_append, makeAll, ih]

section Sequences

variable {limit : Nat} {data : Text}

theorem makeAll_given_of_fits {calls : List Call}
    (fits : data.length + (bytes calls).length ≤ limit) :
    (given limit data).makeAll calls =
      (given limit (data ++ bytes calls), calls.map Call.success) := by
  induction calls generalizing data with
  | nil => simp [makeAll, bytes]
  | cons call rest ih =>
      have split : bytes (call :: rest) = call.data ++ bytes rest := rfl
      rw [split, List.length_append] at fits
      have room : (data ++ call.data).length + (bytes rest).length ≤ limit := by
        rw [List.length_append]
        omega
      simp only [makeAll,
        make_given_of_fits (by omega : data.length + call.data.length ≤ limit),
        ih room, split, List.append_assoc, List.map_cons]

/-- Once a call came to the limit, nothing changes any more. -/
theorem makeAll_given_of_full (beyond : limit < data.length)
    (calls : List Call) :
    (given limit data).makeAll calls =
      (given limit data, calls.map (Call.dropped full)) := by
  induction calls with
  | nil => rfl
  | cons call rest ih =>
      simp only [makeAll, make_given_of_full beyond, ih, List.map_cons]

/-- If the calls come to the limit, one of them is the first to do so. -/
theorem exists_first_beyond {calls : List Call} {sent : Nat}
    (inside : sent ≤ limit) (beyond : limit < sent + (bytes calls).length) :
    ∃ front first back, calls = front ++ first :: back ∧
      sent + (bytes front).length ≤ limit ∧
      limit < sent + (bytes front).length + first.data.length := by
  induction calls generalizing sent with
  | nil => exact absurd beyond (Nat.not_lt.mpr inside)
  | cons call rest ih =>
      have split : (bytes (call :: rest)).length = call.data.length +
          (bytes rest).length :=
        List.length_append
      by_cases fits : sent + call.data.length ≤ limit
      · obtain ⟨front, first, back, rfl, before, crosses⟩ := ih fits (by omega)
        have front' : (bytes (call :: front)).length = call.data.length +
            (bytes front).length :=
          List.length_append
        exact ⟨call :: front, first, back, rfl, by omega, by omega⟩
      · exact ⟨[], call, rest, rfl, inside, Nat.not_le.mp fits⟩

end Sequences

/-- A sticky writer fails once and for all.

Let calls be made to a sticky writer over a sink with room for `limit` bytes.
The sink ends up with the first `limit` bytes of all the data.  If that is all,
every call writes its data and reports no failure.  Otherwise there is a first
call that comes to the limit: the calls before it succeed, it reports how many
of its bytes were stored, and the writer stays as it is then, so that every
later write reports the same failure and no bytes.  Wrapping the writer changes
nothing. -/
theorem writer_sticks (limit : Nat) (calls : List Call) :
    let start := wrap (.sink (.ofLimit (some limit)))
    (start.makeAll calls).1.sink.text = (bytes calls).take limit ∧
    ((bytes calls).length ≤ limit ∧
        (start.makeAll calls).2 = calls.map Call.success ∨
      ∃ front first back, calls = front ++ first :: back ∧
        (bytes front).length ≤ limit ∧
          limit < (bytes front).length + first.data.length ∧
        (start.makeAll calls).2 = front.map Call.success ++
          .wrote (limit - (bytes front).length) (some full) ::
            back.map (Call.dropped full) ∧
        (start.makeAll calls).1 = (start.makeAll (front ++ [first])).1) := by
  simp only [wrap_ofLimit]
  by_cases fits : (bytes calls).length ≤ limit
  · rw [makeAll_given_of_fits (by simpa using fits)]
    exact ⟨rfl, .inl ⟨fits, rfl⟩⟩
  · obtain ⟨front, first, back, rfl, before, crosses⟩ :=
      exists_first_beyond (Nat.zero_le limit)
        (by rwa [Nat.zero_add, ← Nat.not_le])
    rw [Nat.zero_add] at before crosses
    have early : (given limit []).makeAll front =
        (given limit (bytes front), front.map Call.success) :=
      makeAll_given_of_fits (by rwa [List.length_nil, Nat.zero_add])
    have middle : (given limit []).makeAll (front ++ [first]) =
        (given limit (bytes front ++ first.data),
          front.map Call.success ++
            [.wrote (limit - (bytes front).length) (some full)]) := by
      rw [makeAll_append, early]
      simp only [makeAll, make_given_of_exceeds before crosses]
    have beyond : limit < (bytes front ++ first.data).length := by
      rwa [List.length_append]
    have all : (given limit []).makeAll (front ++ first :: back) =
        (given limit (bytes front ++ first.data),
          front.map Call.success ++
            .wrote (limit - (bytes front).length) (some full) ::
              back.map (Call.dropped full)) := by
      rw [List.append_cons, makeAll_append, middle,
        makeAll_given_of_full beyond, List.append_assoc, List.singleton_append]
    rw [all]
    refine ⟨?_, .inr ⟨front, first, back, rfl, before, crosses, rfl,
      by rw [middle]⟩⟩
    have whole : bytes (front ++ first :: back) = bytes front ++ first.data ++
        bytes back := by
      simp [bytes]
    rw [text_given, whole, List.take_append_of_le_length (Nat.le_of_lt beyond)]

-- An empty write behind the failure fails, too, also through a writer put over
-- the failed one.
example :
    ((wrap (.sink (.ofLimit (some 3)))).makeAll
      [.writeString (Text.ofString "ab"), .writeRune (-1), .rewrap,
        .write []]).2 =
      [.wrote 2 none, .wrote 1 (some full), .wrapped,
        .wrote 0 (some full)] := by
  decide

end WordMachine.StickyWriter
