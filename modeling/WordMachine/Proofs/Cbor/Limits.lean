import WordMachine.Proofs.Cbor
import Mathlib.Algebra.Group.Nat.Defs

/-!
# What is read can be written

The reader takes more than the writer writes: heads that are too long,
indefinite lengths, strings in chunks and entries in any order.  Still every
item it returns keeps to its own limits, and can be written if the text it was
read from has a length that a head can give.  So what is read can be written and
read again.
-/

namespace WordMachine.Cbor

/-! ## Bytes and heads -/

theorem of_takeBytes? {count : Nat} {t taken after : Text}
    (found : takeBytes? count t = some (taken, after)) :
    t = taken ++ after ∧ taken.length = count := by
  simp only [takeBytes?] at found
  split at found
  next enough =>
    cases found
    exact ⟨(List.take_append_drop count t).symm, enough⟩
  next => cases found

private theorem foldl_bytes_lt (t : Text) (start : Nat) :
    t.foldl (fun n b => n * 256 + b.toNat) start <
      (start + 1) * 256 ^ t.length := by
  induction t generalizing start with
  | nil => simp
  | cons b rest ih =>
    have byte := b.toNat_lt
    have step : start * 256 + b.toNat + 1 ≤ (start + 1) * 256 := by omega
    calc
      (b :: rest).foldl (fun n b => n * 256 + b.toNat) start
        < (start * 256 + b.toNat + 1) * 256 ^ rest.length := ih _
      _ ≤ (start + 1) * 256 * 256 ^ rest.length := Nat.mul_le_mul_right _ step
      _ = (start + 1) * 256 ^ (b :: rest).length := by
        rw [List.length_cons, Nat.pow_succ, Nat.mul_assoc, Nat.mul_comm 256]

theorem bigEndianValue_lt (t : Text) : bigEndianValue t < 256 ^ t.length := by
  simpa [bigEndianValue] using foldl_bytes_lt t 0

/-- The arguments that go with the low bits of a first byte. -/
inductive Argues (major : Nat) : (low : Nat) → Argument → Prop
  | short {low : Nat} (small : low < 24) : Argues major low (.value low)
  | sized {low count n : Nat}
      (listed : (low, count) ∈ [(24, 1), (25, 2), (26, 4), (27, 8)])
      (small : n < 256 ^ count) (assigned : ¬ (major = 7 ∧ low = 24 ∧ n < 32)) :
      Argues major low (.value n)
  | indefinite {low : Nat} : Argues major low .indefinite

theorem Argues.lt {major low n : Nat} (argues : Argues major low (.value n)) :
    n < 2 ^ 64 := by
  cases argues with
  | short small => omega
  | sized listed small =>
    simp only [List.mem_cons, Prod.mk.injEq, List.not_mem_nil,
      or_false] at listed
    rcases listed with ⟨-, rfl⟩ | ⟨-, rfl⟩ | ⟨-, rfl⟩ | ⟨-, rfl⟩ <;> omega

/-- A head that was read off the front of a text. -/
structure HeadOf (t : Text) (h : Head) (rest : Text) : Prop where
  shorter : rest.length < t.length
  tag : startsTag t = (h.major == 6)
  argues : Argues h.major h.low h.argument

theorem headOf_of_readHead? {t rest : Text} {h : Head}
    (read : readHead? t = some (h, rest)) :
    HeadOf t h rest := by
  cases t with
  | nil => cases read
  | cons b behind =>
    have tag : startsTag (b :: behind) = (b.toNat / 32 == 6) := rfl
    -- the four widths differ in their numbers only
    have sized : ∀ count, (b.toNat % 32, count) ∈
        [(24, 1), (25, 2), (26, 4), (27, 8)] →
        ((takeBytes? count behind).bind fun parts =>
          let n := bigEndianValue parts.1
          if b.toNat / 32 = 7 ∧ b.toNat % 32 = 24 ∧ n < 32 then none
          else some ((⟨b.toNat / 32, b.toNat % 32, .value n⟩ : Head),
            parts.2)) = some (h, rest) →
        HeadOf (b :: behind) h rest := by
      intro count listed found
      obtain ⟨⟨taken, after⟩, took, given⟩ := Option.bind_eq_some_iff.mp found
      obtain ⟨rfl, length⟩ := of_takeBytes? took
      dsimp only at given
      split at given
      next => cases given
      next assigned =>
        cases given
        have shorter : rest.length < (b :: (taken ++ rest)).length := by
          rw [List.length_cons, List.length_append]
          omega
        refine ⟨shorter, tag, .sized listed ?_ assigned⟩
        rw [← length]
        exact bigEndianValue_lt taken
    simp only [readHead?] at read
    split at read
    next small =>
      cases read
      exact ⟨by simp, tag, .short small⟩
    split at read
    next low => exact sized 1 (by simp [low]) read
    split at read
    next low => exact sized 2 (by simp [low]) read
    split at read
    next low => exact sized 4 (by simp [low]) read
    split at read
    next low => exact sized 8 (by simp [low]) read
    split at read
    next =>
      cases read
      exact ⟨by simp, tag, .indefinite⟩
    next => cases read

/-! ## Chunks, elements and entries -/

/-- Chunks are disjoint parts of the text. -/
theorem of_readChunks {major fuel : Nat} {t rest : Text}
    {done chunks : List Text}
    (read : readChunks major fuel t done = some (chunks, rest)) :
    chunks.flatten.length ≤ done.flatten.length + t.length ∧
      rest.length ≤ t.length := by
  induction fuel generalizing t done with
  | zero => cases read
  | succ fuel ih =>
    rw [readChunks] at read
    split at read
    next =>
      cases read
      have same : done.reverse.flatten.length = done.flatten.length := by
        simp [List.length_flatten, List.map_reverse, List.sum_reverse]
      simp only [same, List.length_drop]
      omega
    next =>
      split at read
      next head =>
        have shorter := (headOf_of_readHead? head).shorter
        split at read
        next =>
          split at read
          next took =>
            obtain ⟨rfl, -⟩ := of_takeBytes? took
            obtain ⟨within, behind⟩ := ih read
            rw [List.length_append] at shorter
            rw [List.flatten_cons, List.length_append] at within
            omega
          next => cases read
        next => cases read
      next => cases read

theorem eq_inTurn_of_pairUp {items : List Cbor} {entries : List (Cbor × Cbor)}
    (paired : pairUp items = some entries) : items = inTurn entries := by
  have behind : ∀ items done, pairUp.go items done = some entries →
      inTurn done.reverse ++ items = inTurn entries := by
    intro items done paired
    fun_induction pairUp.go items done with
    | case1 done =>
      cases paired
      simp
    | case2 => cases paired
    | case3 done key value rest ih =>
      rw [← ih paired]
      simp [inTurn]
  exact behind items [] paired

/-- An item that was read off the front of a text at a depth.  It can be
written, and it keeps to the limits. -/
structure ReadOff (depth : Nat) (t : Text) (item : Cbor)
    (rest : Text) : Prop where
  writable : item.Writable
  fits : item.fits depth = true
  shorter : rest.length < t.length
  tagged : item.isTagged = startsTag t

/-- With so much fuel the reader returns only items that were read off their
text. -/
def ReadsOff (fuel : Nat) : Prop :=
  ∀ {depth t item rest}, readItem fuel depth t = some (item, rest) →
    t.length < 2 ^ 64 → ReadOff depth t item rest

section Elements

variable {fuel depth : Nat} {t rest : Text} {done items : List Cbor}

/-- The items can be written and keep to the limits. -/
def Kept (depth : Nat) (items : List Cbor) : Prop :=
  ∀ item ∈ items, item.Writable ∧ item.fits depth = true

theorem Kept.nil : Kept depth [] := by
  intro item member
  cases member

theorem Kept.cons {item : Cbor} {t rest : Text} (kept : Kept depth items)
    (off : ReadOff depth t item rest) : Kept depth (item :: items) := by
  intro other member
  rcases List.mem_cons.mp member with rfl | old
  · exact ⟨off.writable, off.fits⟩
  · exact kept other old

theorem Kept.reverse (kept : Kept depth items) : Kept depth items.reverse := by
  intro item member
  exact kept item (List.mem_reverse.mp member)

theorem of_readElements {count : Nat} (each : ∀ spent < fuel, ReadsOff spent)
    (read : readElements fuel depth count t done = some (items, rest))
    (short : t.length < 2 ^ 64) (kept : Kept depth done) :
    Kept depth items ∧ items.length = done.length + count ∧
      rest.length ≤ t.length := by
  induction count generalizing fuel t done with
  | zero =>
    rw [readElements] at read
    cases read
    exact ⟨kept.reverse, by simp, Nat.le_refl _⟩
  | succ count ih =>
    cases fuel with
    | zero =>
      rw [readElements] at read
      cases read
    | succ fuel =>
      rw [readElements] at read
      split at read
      next item behind first =>
        have off := each fuel (Nat.lt_succ_self fuel) first short
        have shorter := off.shorter
        obtain ⟨all, length, within⟩ :=
          ih (fun spent less => each spent (by omega)) read
          (by omega) (kept.cons off)
        rw [List.length_cons] at length
        exact ⟨all, by omega, by omega⟩
      next => cases read

theorem of_readUntilBreak (each : ∀ spent < fuel, ReadsOff spent)
    (read : readUntilBreak fuel depth t done = some (items, rest))
    (short : t.length < 2 ^ 64) (kept : Kept depth done) :
    Kept depth items ∧ rest.length ≤ t.length := by
  induction fuel generalizing t done with
  | zero =>
    rw [readUntilBreak] at read
    cases read
  | succ fuel ih =>
    rw [readUntilBreak] at read
    split at read
    next =>
      cases read
      refine ⟨kept.reverse, ?_⟩
      simp
    next =>
      split at read
      next item behind first =>
        have off := each fuel (Nat.lt_succ_self fuel) first short
        have shorter := off.shorter
        obtain ⟨all, within⟩ :=
          ih (fun spent less => each spent (by omega)) read
          (by omega) (kept.cons off)
        exact ⟨all, by omega⟩
      next => cases read

end Elements

/-! ## Items -/

section Containers

variable {depth : Nat} {t rest : Text}

theorem Kept.array {elements : List Cbor} (kept : Kept (depth + 1) elements)
    (shallow : depth < maxDepth) (few : elements.length ≤ maxElements)
    (shorter : rest.length < t.length) (notTag : startsTag t = false) :
    ReadOff depth t (.array elements) rest where
  writable :=
    .array (Nat.lt_of_le_of_lt few (by decide)) fun element member =>
      (kept element member).1
  fits := by
    have all : elements.all (Cbor.fits (depth + 1)) = true :=
      List.all_eq_true.mpr fun element member => (kept element member).2
    rw [fits_array, all, decide_eq_true shallow, decide_eq_true few]
    rfl
  shorter := shorter
  tagged := notTag.symm

/-- Items read in pairs are half as many entries. -/
theorem Kept.map {items : List Cbor} {entries : List (Cbor × Cbor)}
    (kept : Kept (depth + 1) items) (paired : pairUp items = some entries)
    (shallow : depth < maxDepth) (few : items.length ≤ 2 * maxElements)
    (shorter : rest.length < t.length) (notTag : startsTag t = false) :
    ReadOff depth t (.map entries) rest := by
  obtain rfl := eq_inTurn_of_pairUp paired
  rw [length_inTurn] at few
  have fewEntries : entries.length ≤ maxElements := by omega
  have inside : ∀ entry ∈ entries, entry.1 ∈ inTurn entries ∧
      entry.2 ∈ inTurn entries := by
    intro entry member
    exact ⟨List.mem_flatMap.mpr ⟨entry, member, by simp⟩,
      List.mem_flatMap.mpr ⟨entry, member, by simp⟩⟩
  refine ⟨.map (Nat.lt_of_le_of_lt fewEntries (by decide)) ?_ ?_, ?_,
    shorter, notTag.symm⟩
  · intro entry member
    exact (kept _ (inside entry member).1).1
  · intro entry member
    exact (kept _ (inside entry member).2).1
  · have all : (inTurn entries).all (Cbor.fits (depth + 1)) = true :=
      List.all_eq_true.mpr fun item member => (kept item member).2
    rw [all_inTurn] at all
    rw [fits_map, all, decide_eq_true shallow, decide_eq_true fewEntries]
    rfl

/-- A tag is one level deeper than its content only if that is a tag too. -/
theorem ReadOff.tag {tag : Nat} {behind : Text} {content : Cbor}
    (small : tag < 2 ^ 64) (before : behind.length < t.length)
    (isTag : startsTag t = true)
    (off : ReadOff (if startsTag behind then depth + 1 else depth)
      behind content rest)
    (shallow : startsTag behind = true → depth < maxDepth) :
    ReadOff depth t (.tagged tag content) rest where
  writable := .tagged small off.writable
  fits := by
    have inner := off.fits
    rw [Cbor.fits, off.tagged]
    split
    next another =>
      rw [if_pos another] at inner
      rw [inner, decide_eq_true (shallow another)]
      rfl
    next single =>
      rw [if_neg single] at inner
      exact inner
  shorter := Nat.lt_trans off.shorter before
  tagged := isTag.symm

end Containers

/-- The simple values and the numbers that a head of major type 7 can give. -/
theorem Argues.special {low n depth : Nat} {t rest : Text} {item : Cbor}
    (argues : Argues 7 low (.value n)) (shorter : rest.length < t.length)
    (notTag : startsTag t = false)
    (read : (if low = 25 then some (Cbor.float 2 n, rest)
      else if low = 26 then some (.float 4 n, rest)
      else if low = 27 then some (.float 8 n, rest)
      else some (.simple n, rest)) = some (item, rest)) :
      ReadOff depth t item rest := by
  cases argues with
  | short small =>
    rw [if_neg (by omega), if_neg (by omega), if_neg (by omega)] at read
    cases read
    exact ⟨.simple (.inl small), rfl, shorter, notTag.symm⟩
  | sized listed small assigned =>
    simp only [List.mem_cons, Prod.mk.injEq, List.not_mem_nil,
      or_false] at listed
    rcases listed with ⟨rfl, rfl⟩ | ⟨rfl, rfl⟩ | ⟨rfl, rfl⟩ | ⟨rfl, rfl⟩
    · cases read
      exact ⟨.simple (.inr (by omega)), rfl, shorter, notTag.symm⟩
    · cases read
      exact ⟨.float (.inl rfl) small, rfl, shorter, notTag.symm⟩
    · cases read
      exact ⟨.float (.inr (.inl rfl)) small, rfl, shorter, notTag.symm⟩
    · cases read
      exact ⟨.float (.inr (.inr rfl)) small, rfl, shorter, notTag.symm⟩

/-- One call of the reader, given what the calls with less fuel return. -/
theorem readsOff_succ {fuel : Nat} (each : ∀ spent ≤ fuel, ReadsOff spent) :
    ReadsOff (fuel + 1) := by
  intro depth t item rest read short
  have fewer : ∀ spent < fuel, ReadsOff spent :=
    fun spent less => each spent (Nat.le_of_lt less)
  rw [readItem] at read
  split at read
  next => cases read
  next major low argument behind head =>
    obtain ⟨shorter, tag, argues⟩ := headOf_of_readHead? head
    have shortBehind : behind.length < 2 ^ 64 := Nat.lt_trans shorter short
    dsimp only at tag argues
    split at read
    next n =>
      cases read
      exact ⟨.unsigned argues.lt, rfl, shorter, tag.symm⟩
    next n =>
      cases read
      exact ⟨.negative argues.lt, rfl, shorter, tag.symm⟩
    next n =>
      obtain ⟨⟨chunk, after⟩, took, found⟩ := Option.map_eq_some_iff.mp read
      cases found
      obtain ⟨rfl, length⟩ := of_takeBytes? took
      rw [List.length_append] at shorter shortBehind
      exact ⟨.bytes (by simp; omega), rfl, by omega, tag.symm⟩
    next =>
      obtain ⟨⟨chunks, after⟩, took, found⟩ := Option.map_eq_some_iff.mp read
      cases found
      obtain ⟨within, later⟩ := of_readChunks took
      exact ⟨.bytes (by simp at within ⊢; omega), rfl, by omega, tag.symm⟩
    next n =>
      obtain ⟨⟨chunk, after⟩, took, found⟩ := Option.map_eq_some_iff.mp read
      cases found
      obtain ⟨rfl, length⟩ := of_takeBytes? took
      rw [List.length_append] at shorter shortBehind
      exact ⟨.text (by simp; omega), rfl, by omega, tag.symm⟩
    next =>
      obtain ⟨⟨chunks, after⟩, took, found⟩ := Option.map_eq_some_iff.mp read
      cases found
      obtain ⟨within, later⟩ := of_readChunks took
      exact ⟨.text (by simp at within ⊢; omega), rfl, by omega, tag.symm⟩
    next n =>
      split at read
      next => cases read
      next admitted =>
        obtain ⟨⟨items, after⟩, elements, found⟩ :=
          Option.map_eq_some_iff.mp read
        cases found
        obtain ⟨kept, length, later⟩ :=
          of_readElements fewer elements shortBehind .nil
        rw [List.length_nil] at length
        exact kept.array (by omega) (by omega) (by omega) tag
    next =>
      split at read
      next => cases read
      next admitted =>
        split at read
        next items after elements =>
          split at read
          next => cases read
          next few =>
            cases read
            obtain ⟨kept, later⟩ :=
              of_readUntilBreak fewer elements shortBehind .nil
            exact kept.array (by omega) (by omega) (by omega) tag
        next => cases read
    next n =>
      split at read
      next => cases read
      next admitted =>
        split at read
        next items after elements =>
          obtain ⟨entries, paired, found⟩ := Option.map_eq_some_iff.mp read
          cases found
          obtain ⟨kept, length, later⟩ :=
            of_readElements fewer elements shortBehind .nil
          rw [List.length_nil] at length
          exact kept.map paired (by omega) (by omega) (by omega) tag
        next => cases read
    next =>
      split at read
      next => cases read
      next admitted =>
        split at read
        next items after elements =>
          split at read
          next => cases read
          next few =>
            obtain ⟨entries, paired, found⟩ := Option.map_eq_some_iff.mp read
            cases found
            obtain ⟨kept, later⟩ :=
              of_readUntilBreak fewer elements shortBehind .nil
            exact kept.map paired (by omega) (by omega) (by omega) tag
        next => cases read
    next n =>
      split at read
      next another =>
        split at read
        next => cases read
        next admitted =>
          obtain ⟨⟨content, after⟩, inner, found⟩ :=
            Option.map_eq_some_iff.mp read
          cases found
          have off := each fuel (Nat.le_refl _) inner shortBehind
          exact .tag argues.lt shorter tag (by rwa [if_pos another]) fun _ => by
            omega
      next single =>
        obtain ⟨⟨content, after⟩, inner, found⟩ :=
          Option.map_eq_some_iff.mp read
        cases found
        have off := each fuel (Nat.le_refl _) inner shortBehind
        exact .tag argues.lt shorter tag (by rwa [if_neg single]) fun another =>
          absurd another single
    next n =>
      have same : behind = rest := by
        split at read
        · cases read
          rfl
        split at read
        · cases read
          rfl
        split at read
        · cases read
          rfl
        · cases read
          rfl
      subst same
      exact argues.special shorter tag read
    next => cases read

theorem readsOff (fuel : Nat) : ReadsOff fuel := by
  induction fuel using Nat.strongRecOn with
  | ind fuel ih =>
    cases fuel with
    | zero =>
      intro depth t item rest read
      rw [readItem] at read
      cases read
    | succ fuel =>
        exact readsOff_succ fun spent less => ih spent (Nat.lt_succ_of_le less)

/-! ## Parts of items -/

/-- The item can be written and keeps to the limits at some depth. -/
def Sized (item : Cbor) : Prop :=
  item.Writable ∧ ∃ depth, item.fits depth = true

namespace Sized

theorem text {chunks : List Text} (sized : (Cbor.text chunks).Sized) :
    chunks.flatten.length < 2 ^ 64 := by
  cases sized.1 with
  | text short => exact short

theorem array {elements : List Cbor} (sized : (Cbor.array elements).Sized) :
    elements.length ≤ maxElements := by
  obtain ⟨-, depth, fitting⟩ := sized
  rw [fits_array, Bool.and_eq_true, Bool.and_eq_true] at fitting
  exact of_decide_eq_true fitting.1.2

theorem map {entries : List (Cbor × Cbor)} (sized : (Cbor.map entries).Sized) :
    entries.length ≤ maxElements ∧ ∀ entry ∈ entries, entry.1.Sized ∧
      entry.2.Sized := by
  obtain ⟨writable, depth, fitting⟩ := sized
  rw [fits_map, Bool.and_eq_true, Bool.and_eq_true, List.all_eq_true] at fitting
  refine ⟨of_decide_eq_true fitting.1.2, ?_⟩
  intro entry member
  have inner := fitting.2 entry member
  rw [Bool.and_eq_true] at inner
  cases writable with
  | map short keys values =>
    exact ⟨⟨keys entry member, _, inner.1⟩, ⟨values entry member, _, inner.2⟩⟩

theorem content {tag : Nat} {content : Cbor}
    (sized : (Cbor.tagged tag content).Sized) :
    content.Sized := by
  obtain ⟨writable, depth, fitting⟩ := sized
  cases writable with
  | tagged small inner =>
    rw [fits] at fitting
    split at fitting
    next =>
      rw [Bool.and_eq_true] at fitting
      exact ⟨inner, _, fitting.2⟩
    next => exact ⟨inner, _, fitting⟩

end Sized

/-- An item that was read can be written and keeps to the limits of the
reader. -/
theorem sized_of_read? {t : Text} {item : Cbor} (read : read? t = some item)
    (short : t.length < 2 ^ 64) : item.Sized := by
  rw [read?] at read
  split at read
  next found =>
    cases read
    have off := readsOff _ found short
    exact ⟨off.writable, _, off.fits⟩
  next => cases read

end WordMachine.Cbor
