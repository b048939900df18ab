import WordMachine.Text.Utf8

/-!
# Walks along the characters of a text

The walks over a text go byte by byte and carry the number of bytes still owed
to a character.  Here each of them is told by what it does with the first
character and with the text behind it, and facts about texts are proved along
their characters.

A character ends where its last byte does, whatever follows.  So a walk over
`front ++ rest` goes through `front` as if `rest` were not there, provided that
`front` has no stray bytes.

The last part is about the order of texts, in which a sorted list has one form
only.
-/

namespace WordMachine.Text

/-- A fact about bytes holds if it holds of the numbers below 256. -/
theorem byte_forall {motive : UInt8 → Prop}
    (all : ∀ n < 256, motive (UInt8.ofNat n))
    (b : UInt8) : motive b := by
  have own := all b.toNat b.toNat_lt
  rwa [UInt8.ofNat_toNat] at own

/-! ## The first character -/

theorem toNat_ofNat_ascii {b : UInt8} (ascii : b < 0x80) :
    (Char.ofNat b.toNat).toNat = b.toNat := by
  have small : b.toNat < 0x80 := ascii
  rw [Char.ofNat, dif_pos (Or.inl (by omega))]
  rfl

theorem decodeFirst_ascii {b : UInt8} (ascii : b < 0x80) (rest : Text) :
    decodeFirst b rest = (Char.ofNat b.toNat, 0) := by
  unfold decodeFirst decodeFirst?
  rw [if_pos ascii]
  rfl

theorem le_of_isContinuation {x : UInt8}
    (continuation : isContinuation x = true) :
    0x80 ≤ x := by
  grind [isContinuation]

theorem toNat_ofNat_of_isValidChar {n : Nat} (valid : n.isValidChar) :
    (Char.ofNat n).toNat = n := by
  rw [Char.ofNat, dif_pos valid]
  rfl

/-- The bytes `b :: tail` spell the character `c`, whatever stands behind
them. -/
structure Spells (b : UInt8) (tail : Text) (c : Char) : Prop where
  decoded : ∀ later, decodeFirst? b (tail ++ later) = some (c, tail.length)
  continuation : ∀ x ∈ tail, isContinuation x = true
  ascii : c.toNat < 0x80 → b < 0x80

theorem payload_lt (x : UInt8) : payload x < 64 :=
  Nat.mod_lt _ (by decide)

theorem spells_one {b : UInt8} (one : b < 0x80) :
    Spells b [] (Char.ofNat b.toNat) where
  decoded later := by
    unfold decodeFirst?
    rw [if_pos one]
    rfl
  continuation := nofun
  ascii _ := one

theorem spells_two {b x : UInt8} (wide : ¬ b < 0x80)
    (two : (0xC2 ≤ b && b ≤ 0xDF) = true)
    (fits : isContinuation x = true) :
    Spells b [x] (Char.ofNat (b.toNat % 32 * 64 + payload x)) where
  decoded later := by
    unfold decodeFirst?
    rw [if_neg wide, if_pos two]
    simp only [List.cons_append, List.nil_append, fits, if_true]
    rfl
  continuation := by simpa using fits
  ascii small := by
    simp only [Bool.and_eq_true, decide_eq_true_eq] at two
    have least : 0xC2 ≤ b.toNat := two.1
    have greatest : b.toNat ≤ 0xDF := two.2
    have below := payload_lt x
    rw [toNat_ofNat_of_isValidChar (Or.inl (by omega))] at small
    omega

theorem spells_three {b x y : UInt8} (wide : ¬ b < 0x80)
    (wider : ¬ (0xC2 ≤ b && b ≤ 0xDF) = true)
    (three : (0xE0 ≤ b && b ≤ 0xEF) = true)
    {value : Nat} (value_eq : value = b.toNat % 16 * 4096 + payload x *
      64 + payload y)
    (fits : (isContinuation x && isContinuation y && 0x800 ≤ value
      && !(0xD800 ≤ value && value ≤ 0xDFFF)) = true) :
    Spells b [x, y] (Char.ofNat value) where
  decoded later := by
    unfold decodeFirst?
    rw [if_neg wide, if_neg wider, if_pos three]
    simp only [List.cons_append, List.nil_append, ← value_eq, fits, if_true]
    rfl
  continuation := by
    simp only [Bool.and_eq_true] at fits
    simpa using fits.1.1
  ascii small := by
    simp only [Bool.and_eq_true, decide_eq_true_eq, Bool.not_eq_true',
      Bool.and_eq_false_iff, decide_eq_false_iff_not] at fits
    have below := payload_lt x
    have below' := payload_lt y
    rw [toNat_ofNat_of_isValidChar (by unfold Nat.isValidChar; omega)] at small
    omega

theorem spells_four {b x y z : UInt8} (wide : ¬ b < 0x80)
    (wider : ¬ (0xC2 ≤ b && b ≤ 0xDF) = true)
    (widest : ¬ (0xE0 ≤ b && b ≤ 0xEF) = true)
    (four : (0xF0 ≤ b && b ≤ 0xF4) = true) {value : Nat}
    (value_eq : value =
      b.toNat % 8 * 262144 + payload x * 4096 + payload y * 64 + payload z)
    (fits : (isContinuation x && isContinuation y && isContinuation z
      && 0x10000 ≤ value && value ≤ 0x10FFFF) = true) :
    Spells b [x, y, z] (Char.ofNat value) where
  decoded later := by
    unfold decodeFirst?
    rw [if_neg wide, if_neg wider, if_neg widest, if_pos four]
    simp only [List.cons_append, List.nil_append, ← value_eq, fits, if_true]
    rfl
  continuation := by
    simp only [Bool.and_eq_true] at fits
    simpa [and_assoc] using fits.1.1
  ascii small := by
    simp only [Bool.and_eq_true, decide_eq_true_eq] at fits
    rw [toNat_ofNat_of_isValidChar (by unfold Nat.isValidChar; omega)] at small
    omega

/-- The first character is spelt by the first bytes of the text. -/
theorem exists_spells {b : UInt8} {rest : Text} {c : Char} {more : Nat}
    (found : decodeFirst? b rest = some (c, more)) :
    ∃ tail later, rest = tail ++ later ∧ tail.length = more ∧
      Spells b tail c := by
  unfold decodeFirst? at found
  split at found
  next one =>
    cases found
    exact ⟨[], rest, rfl, rfl, spells_one one⟩
  next wide =>
    split at found
    next two =>
      split at found
      next x rest =>
        split at found
        next fits =>
          cases found
          exact ⟨[x], rest, rfl, rfl, spells_two wide two fits⟩
        next => cases found
      next => cases found
    next wider =>
      split at found
      next three =>
        split at found
        next x y rest =>
          dsimp only at found
          split at found
          next fits =>
            cases found
            exact ⟨[x, y], rest, rfl, rfl,
              spells_three wide wider three rfl fits⟩
          next => cases found
        next => cases found
      next widest =>
        split at found
        next four =>
          split at found
          next x y z rest =>
            dsimp only at found
            split at found
            next fits =>
              cases found
              exact ⟨[x, y, z], rest, rfl, rfl,
                spells_four wide wider widest four rfl fits⟩
            next => cases found
          next => cases found
        next => cases found

theorem Spells.first {b : UInt8} {tail : Text} {c : Char}
    (spells : Spells b tail c) (later : Text) :
    decodeFirst b (tail ++ later) = (c, tail.length) := by
  rw [decodeFirst, spells.decoded]
  rfl

/-- The bytes `b :: tail` are read as `c`.  Either they spell it, or `b` is a
stray byte, which may be read otherwise when something else follows. -/
def ReadAs (b : UInt8) (tail : Text) (c : Char) : Prop :=
  (c = replacement ∧ tail = []) ∨ Spells b tail c

theorem ReadAs.continuation {b : UInt8} {tail : Text} {c : Char}
    (readAs : ReadAs b tail c) :
    ∀ x ∈ tail, 0x80 ≤ x := by
  rcases readAs with ⟨-, rfl⟩ | spells
  · nofun
  · exact fun x member => le_of_isContinuation (spells.continuation x member)

theorem ReadAs.spells {p : Char → Bool} {b : UInt8} {tail : Text} {c : Char}
    (readAs : ReadAs b tail c) (strict : p replacement = false)
    (pass : p c = true) :
    Spells b tail c := by
  rcases readAs with ⟨rfl, -⟩ | spells
  · rw [strict] at pass
    cases pass
  · exact spells

theorem exists_first (b : UInt8) (rest : Text) :
    ∃ c tail later, rest = tail ++ later ∧
      decodeFirst b rest = (c, tail.length) ∧ ReadAs b tail c := by
  cases found : decodeFirst? b rest with
  | none =>
      exact ⟨replacement, [], rest, rfl, by rw [decodeFirst, found]; rfl,
        .inl ⟨rfl, rfl⟩⟩
  | some first =>
      obtain ⟨c, more⟩ := first
      obtain ⟨tail, later, rfl, rfl, spells⟩ := exists_spells found
      exact ⟨c, tail, later, rfl, spells.first later, .inr spells⟩

/-- Induction along the characters of a text. -/
theorem char_induction {motive : Text → Prop} (nil : motive [])
    (cons : ∀ b c tail later, decodeFirst b (tail ++ later) = (c, tail.length) →
      ReadAs b tail c → motive later → motive (b :: (tail ++ later)))
    (t : Text) : motive t := by
  induction size : t.length using Nat.strongRecOn generalizing t with
  | ind n ih =>
      cases t with
      | nil => exact nil
      | cons b rest =>
          obtain ⟨c, tail, later, rfl, first, readAs⟩ := exists_first b rest
          apply cons b c tail later first readAs
          apply ih later.length _ later rfl
          rw [← size, List.length_cons, List.length_append]
          omega

/-- An ASCII character is a single byte. -/
theorem of_first_ascii {b : UInt8} {c : Char} {tail later : Text}
    (first : decodeFirst b (tail ++ later) = (c, tail.length))
    (readAs : ReadAs b tail c) (ascii : c.toNat < 0x80) :
    tail = [] ∧ b.toNat = c.toNat := by
  have small : b < 0x80 := by
    rcases readAs with ⟨rfl, -⟩ | spells
    · exact absurd ascii (by decide)
    · exact spells.ascii ascii
  rw [decodeFirst_ascii small, Prod.mk.injEq] at first
  refine ⟨List.eq_nil_of_length_eq_zero first.2.symm, ?_⟩
  rw [← first.1, toNat_ofNat_ascii small]

/-- An ASCII byte stands only in the character that it spells. -/
theorem eq_of_mem_first {b x : UInt8} {c : Char} {tail later : Text}
    (first : decodeFirst b (tail ++ later) = (c, tail.length))
    (readAs : ReadAs b tail c) (ascii : x < 0x80) (member : x ∈ b :: tail) :
    c = Char.ofNat x.toNat := by
  rcases List.mem_cons.mp member with rfl | behind
  · rw [decodeFirst_ascii ascii, Prod.mk.injEq] at first
    exact first.1.symm
  · exact absurd (readAs.continuation x behind) (by simpa using ascii)

/-- What follows a text does not change its first character, unless it begins
with a byte that continues a character. -/
theorem decodeFirst_append {x : UInt8}
    (starts : isContinuation x = false) (b : UInt8) (rest other : Text) :
    decodeFirst b (rest ++ x :: other) = decodeFirst b rest := by
  unfold decodeFirst
  cases found : decodeFirst? b rest with
  | some first =>
      obtain ⟨c, more⟩ := first
      obtain ⟨tail, later, rfl, rfl, spells⟩ := exists_spells found
      rw [List.append_assoc, spells.decoded]
  | none =>
      cases longer : decodeFirst? b (rest ++ x :: other) with
      | none => rfl
      | some first =>
          obtain ⟨tail, later, split, -, spells⟩ := exists_spells longer
          -- `x` is not part of the character, which therefore ends inside of
          -- `rest`
          rcases List.append_eq_append_iff.mp split with
            ⟨between, rfl, behind⟩ | ⟨between, rfl, -⟩
          · cases between with
            | nil =>
                have decoded := spells.decoded []
                rw [List.append_nil, List.append_nil, found] at decoded
                cases decoded
            | cons y between =>
                obtain ⟨rfl, -⟩ := List.cons.inj behind
                have continues := spells.continuation x (by simp)
                rw [starts] at continues
                cases continues
          · rw [spells.decoded] at found
            cases found

theorem isContinuation_of_ascii {x : UInt8} (ascii : x < 0x80) :
    isContinuation x = false := by
  apply Bool.eq_false_iff.mpr
  intro continues
  exact absurd (le_of_isContinuation continues) (by simpa using ascii)

/-! ## Spans -/

section Spans

variable {p q : Char → Bool} {b : UInt8} {c : Char}
  {tail later front rest : Text}

theorem spanFrom_tail (tail later : Text) (seen : Nat) :
    spanFrom p tail.length (tail ++ later) seen =
      spanFrom p 0 later (seen + tail.length) := by
  induction tail generalizing seen with
  | nil => rfl
  | cons x tail ih =>
      rw [List.length_cons, List.cons_append, spanFrom, ih]
      congr 1
      omega

theorem spanFrom_cons (first : decodeFirst b (tail ++ later) = (c, tail.length))
    (seen : Nat) :
    spanFrom p 0 (b :: (tail ++ later)) seen =
      if p c then spanFrom p 0 later (seen + 1 + tail.length) else seen := by
  rw [spanFrom, first]
  dsimp only
  rw [spanFrom_tail]

theorem spanFrom_seen (p : Char → Bool) (t : Text) (seen : Nat) :
    spanFrom p 0 t seen = seen + t.spanLength p := by
  induction t using char_induction generalizing seen with
  | nil => rfl
  | cons b c tail later first readAs ih =>
      rw [spanLength, spanFrom_cons first, spanFrom_cons first]
      split
      · rw [ih, ih (0 + 1 + tail.length)]
        omega
      · rfl

theorem spanLength_cons (p : Char → Bool)
    (first : decodeFirst b (tail ++ later) = (c, tail.length)) :
    spanLength p (b :: (tail ++ later)) =
      if p c then 1 + tail.length + later.spanLength p else 0 := by
  rw [spanLength, spanFrom_cons first, spanFrom_seen, Nat.zero_add]

theorem spanLength_ascii (p : Char → Bool) (ascii : b < 0x80) (rest : Text) :
    spanLength p (b :: rest) =
      if p (Char.ofNat b.toNat) then 1 + rest.spanLength p else 0 := by
  have first : decodeFirst b ([] ++ rest) =
      (Char.ofNat b.toNat, ([] : Text).length) :=
    decodeFirst_ascii ascii rest
  exact spanLength_cons p first

theorem spanLength_le (p : Char → Bool) (t : Text) :
    t.spanLength p ≤ t.length := by
  induction t using char_induction with
  | nil => exact Nat.le_refl 0
  | cons b c tail later first readAs ih =>
      rw [spanLength_cons p first, List.length_cons, List.length_append]
      split
      · omega
      · omega

/-- Behind a span stands a character that does not belong to it, or nothing. -/
theorem spanLength_drop_spanLength (p : Char → Bool) (t : Text) :
    spanLength p (t.drop (t.spanLength p)) = 0 := by
  induction t using char_induction with
  | nil => rfl
  | cons b c tail later first readAs ih =>
      by_cases pass : p c = true
      · rw [spanLength_cons p first, if_pos pass]
        have behind : (b :: (tail ++ later)).drop
            (1 + tail.length + later.spanLength p) =
            later.drop (later.spanLength p) := by
          rw [← List.cons_append, List.drop_append,
            List.drop_of_length_le (by simp; omega)]
          simp [Nat.add_comm 1]
        rw [behind]
        exact ih
      · rw [spanLength_cons p first, if_neg pass, List.drop_zero,
          spanLength_cons p first, if_neg pass]

theorem allChars_cons (p : Char → Bool)
    (first : decodeFirst b (tail ++ later) = (c, tail.length)) :
    allChars p (b :: (tail ++ later)) = true ↔
      p c = true ∧ allChars p later = true := by
  simp only [allChars, beq_iff_eq, spanLength_cons p first, List.length_cons,
    List.length_append]
  by_cases pass : p c = true
  · simp only [pass, if_true, true_and]
    omega
  · rw [if_neg pass]
    exact ⟨fun equal => by omega, fun both => absurd both.1 pass⟩

/-- The characters of a span. -/
theorem allChars_take_spanLength (strict : p replacement = false) (t : Text) :
    allChars p (t.take (t.spanLength p)) = true := by
  induction t using char_induction with
  | nil => rfl
  | cons b c tail later first readAs ih =>
      rw [spanLength_cons p first]
      split
      next pass =>
        have spells := readAs.spells strict pass
        have front : (b :: (tail ++ later)).take
            (1 + tail.length + later.spanLength p) =
            b :: (tail ++ later.take (later.spanLength p)) := by
          rw [← List.cons_append, List.take_append,
            List.take_of_length_le (by simp; omega)]
          simp [Nat.add_comm 1]
        rw [front, allChars_cons p (spells.first _)]
        exact ⟨pass, ih⟩
      next => rfl

/-- A walk goes through characters that it accepts as if nothing stood behind
them. -/
theorem spanLength_append_of_allChars (strict : p replacement = false)
    (accepts : ∀ c, p c = true → q c = true) (all : allChars p front = true)
    (rest : Text) :
    spanLength q (front ++ rest) = front.length + rest.spanLength q := by
  induction front using char_induction with
  | nil => simp
  | cons b c tail later first readAs ih =>
      obtain ⟨pass, others⟩ := (allChars_cons p first).mp all
      have spells := readAs.spells strict pass
      rw [List.cons_append, List.append_assoc,
        spanLength_cons q (spells.first _), if_pos (accepts c pass), ih others,
        List.length_cons, List.length_append]
      omega

/-- A walk stops at a text whose characters it does not accept. -/
theorem spanLength_eq_zero_of_allChars (strict : p replacement = false)
    (rejects : ∀ c, p c = true → q c = false) (all : allChars p front = true)
    (nonempty : front ≠ []) (rest : Text) :
    spanLength q (front ++ rest) = 0 := by
  induction front using char_induction with
  | nil => exact absurd rfl nonempty
  | cons b c tail later first readAs ih =>
      obtain ⟨pass, -⟩ := (allChars_cons p first).mp all
      have spells := readAs.spells strict pass
      rw [List.cons_append, List.append_assoc,
        spanLength_cons q (spells.first _), if_neg]
      simp [rejects c pass]

theorem allChars_of_ascii {t : Text}
    (passes : ∀ b ∈ t, b < 0x80 ∧ p (Char.ofNat b.toNat) = true) :
    allChars p t = true := by
  induction t with
  | nil => rfl
  | cons b t ih =>
      obtain ⟨ascii, pass⟩ := passes b List.mem_cons_self
      have first : decodeFirst b ([] ++ t) =
          (Char.ofNat b.toNat, ([] : Text).length) :=
        decodeFirst_ascii ascii t
      exact (allChars_cons p first).mpr
        ⟨pass, ih fun other member =>
          passes other (List.mem_cons_of_mem b member)⟩

/-- The ASCII bytes of a text are among its characters. -/
theorem of_mem_of_allChars {t : Text} (all : allChars p t = true)
    (member : b ∈ t) (ascii : b < 0x80) : p (Char.ofNat b.toNat) = true := by
  induction t using char_induction with
  | nil => cases member
  | cons lead c tail later first readAs ih =>
      obtain ⟨pass, others⟩ := (allChars_cons p first).mp all
      by_cases own : b ∈ lead :: tail
      · rwa [← eq_of_mem_first first readAs ascii own]
      · rw [← List.cons_append, List.mem_append] at member
        exact ih others (member.resolve_left own)

end Spans

/-! ## Content -/

section Content

variable {p : Char → Bool} {b : UInt8} {c : Char} {tail later : Text}

theorem contentFrom_tail (tail later : Text) (seen last : Nat) :
    contentFrom p tail.length (tail ++ later) seen last =
      contentFrom p 0 later (seen + tail.length) last := by
  induction tail generalizing seen with
  | nil => rfl
  | cons x tail ih =>
      rw [List.length_cons, List.cons_append, contentFrom, ih]
      congr 1
      omega

theorem contentFrom_cons
    (first : decodeFirst b (tail ++ later) = (c, tail.length))
    (seen last : Nat) :
    contentFrom p 0 (b :: (tail ++ later)) seen last =
      contentFrom p 0 later (seen + 1 + tail.length)
        (if p c then last else seen + 1 + tail.length) := by
  rw [contentFrom, first]
  dsimp only
  rw [contentFrom_tail]

theorem contentFrom_seen (p : Char → Bool) (t : Text) (seen last : Nat) :
    contentFrom p 0 t seen last =
      if t.contentLength p = 0 then last else seen + t.contentLength p := by
  induction t using char_induction generalizing seen last with
  | nil => rfl
  | cons b c tail later first readAs ih =>
      rw [contentLength, contentFrom_cons first, contentFrom_cons first, ih,
        ih (0 + 1 + _)]
      by_cases pass : p c = true
      · simp only [pass, if_true]
        split
        · rfl
        · rw [if_neg (by omega)]
          omega
      · simp only [pass, Bool.false_eq_true, if_false]
        split
        · rw [if_neg (by omega)]
          omega
        · rw [if_neg (by omega)]
          omega

theorem contentLength_cons (p : Char → Bool)
    (first : decodeFirst b (tail ++ later) = (c, tail.length)) :
    contentLength p (b :: (tail ++ later)) =
      if later.contentLength p = 0 then if p c then 0 else 1 + tail.length
      else 1 + tail.length + later.contentLength p := by
  rw [contentLength, contentFrom_cons first, contentFrom_seen, Nat.zero_add]

theorem contentLength_eq_zero {t : Text} (all : allChars p t = true) :
    t.contentLength p = 0 := by
  induction t using char_induction with
  | nil => rfl
  | cons b c tail later first readAs ih =>
      obtain ⟨pass, others⟩ := (allChars_cons p first).mp all
      rw [contentLength_cons p first, if_pos (ih others), if_pos pass]

/-- The content of a text that ends with an ASCII character and characters taken
away. -/
theorem contentLength_append_cons (ascii : b < 0x80)
    (keeps : p (Char.ofNat b.toNat) = false)
    (t : Text) {rest : Text} (all : allChars p rest = true) :
    contentLength p (t ++ b :: rest) = t.length + 1 := by
  induction t using char_induction with
  | nil =>
      have first : decodeFirst b ([] ++ rest) =
          (Char.ofNat b.toNat, ([] : Text).length) :=
        decodeFirst_ascii ascii rest
      have content := contentLength_cons p first
      rw [if_pos (contentLength_eq_zero all), keeps] at content
      exact content
  | cons lead c tail later first readAs ih =>
      have alike : decodeFirst lead (tail ++ (later ++ b :: rest)) =
          (c, tail.length) := by
        rw [← List.append_assoc,
          decodeFirst_append (isContinuation_of_ascii ascii), first]
      rw [List.cons_append, List.append_assoc, contentLength_cons p alike, ih,
        if_neg (Nat.succ_ne_zero _), List.length_cons, List.length_append]
      omega

theorem allChars_drop_contentLength (p : Char → Bool) (t : Text) :
    allChars p (t.drop (t.contentLength p)) = true := by
  induction t using char_induction with
  | nil => rfl
  | cons b c tail later first readAs ih =>
      rw [contentLength_cons p first]
      split
      next empty =>
        rw [empty, List.drop_zero] at ih
        split
        next pass => exact (allChars_cons p first).mpr ⟨pass, ih⟩
        next =>
          rw [Nat.add_comm, List.drop_succ_cons, List.drop_left]
          exact ih
      next =>
        rw [Nat.add_comm 1, Nat.add_assoc, Nat.add_comm 1, ← Nat.add_assoc,
          List.drop_succ_cons, List.drop_append]
        simpa [List.drop_of_length_le] using ih

end Content

/-! ## Characters -/

theorem charsFrom_tail (tail later : Text) (done : List Char) :
    charsFrom tail.length (tail ++ later) done = charsFrom 0 later done := by
  induction tail with
  | nil => rfl
  | cons x tail ih =>
      rw [List.length_cons, List.cons_append, charsFrom, ih]

theorem charsFrom_cons {b : UInt8} {c : Char} {tail later : Text}
    (first : decodeFirst b (tail ++ later) = (c, tail.length))
    (done : List Char) :
    charsFrom 0 (b :: (tail ++ later)) done =
      charsFrom 0 later (c :: done) := by
  rw [charsFrom, first]
  dsimp only
  rw [charsFrom_tail]

theorem charsFrom_done (t : Text) (done : List Char) :
    charsFrom 0 t done = done.reverse ++ t.chars := by
  induction t using char_induction generalizing done with
  | nil => simp [chars, charsFrom]
  | cons b c tail later first readAs ih =>
      rw [chars, charsFrom_cons first, charsFrom_cons first, ih, ih [c]]
      simp

theorem chars_cons {b : UInt8} {c : Char} {tail later : Text}
    (first : decodeFirst b (tail ++ later) = (c, tail.length)) :
    chars (b :: (tail ++ later)) = c :: later.chars := by
  rw [chars, charsFrom_cons first, charsFrom_done]
  rfl

/-- A text has no more characters than bytes. -/
theorem length_chars_le (t : Text) : t.chars.length ≤ t.length := by
  induction t using char_induction with
  | nil => exact Nat.le_refl 0
  | cons b c tail later first readAs ih =>
      rw [chars_cons first, List.length_cons, List.length_cons,
        List.length_append]
      omega

/-! ## Well-formed texts -/

theorem validFrom_tail (tail later : Text) :
    validFrom tail.length (tail ++ later) = validFrom 0 later := by
  induction tail with
  | nil => rfl
  | cons x tail ih =>
      rw [List.length_cons, List.cons_append, validFrom, ih]

theorem Spells.isValid {b : UInt8} {tail : Text} {c : Char}
    (spells : Spells b tail c) (later : Text) :
    Text.isValid (b :: (tail ++ later)) = later.isValid := by
  rw [Text.isValid, validFrom, spells.decoded]
  exact validFrom_tail tail later

/-- A text has no stray byte if none of its characters is the replacement. -/
theorem isValid_of_allChars {p : Char → Bool}
    (strict : p replacement = false) {t : Text} (all : allChars p t = true) :
    t.isValid = true := by
  induction t using char_induction with
  | nil => rfl
  | cons b c tail later first readAs ih =>
      obtain ⟨pass, others⟩ := (allChars_cons p first).mp all
      rw [(readAs.spells strict pass).isValid]
      exact ih others

/-- Induction along the characters of a text without stray bytes. -/
theorem valid_induction {motive : Text → Prop} (nil : motive [])
    (cons : ∀ b c tail later, Spells b tail c → motive later →
      motive (b :: (tail ++ later)))
    {t : Text} (valid : t.isValid = true) : motive t := by
  induction size : t.length using Nat.strongRecOn generalizing t with
  | ind n ih =>
      cases t with
      | nil => exact nil
      | cons b rest =>
          cases found : decodeFirst? b rest with
          | none =>
              rw [isValid, validFrom, found] at valid
              cases valid
          | some first =>
              obtain ⟨c, more⟩ := first
              obtain ⟨tail, later, rfl, -, spells⟩ := exists_spells found
              rw [spells.isValid] at valid
              apply cons b c tail later spells
              apply ih later.length _ valid rfl
              rw [← size, List.length_cons, List.length_append]
              omega

/-- A character that ends in one text goes on in no other. -/
theorem isValid_append {s t : Text} (front : s.isValid = true)
    (back : t.isValid = true) :
    isValid (s ++ t) = true := by
  refine valid_induction (motive := fun s =>
    isValid (s ++ t) = true) back ?_ front
  intro b c tail later spells ih
  rw [List.cons_append, List.append_assoc, spells.isValid]
  exact ih

theorem isValid_of_ascii {t : Text} (ascii : ∀ b ∈ t, b < 0x80) :
    t.isValid = true := by
  induction t with
  | nil => rfl
  | cons b t ih =>
      rw [List.forall_mem_cons] at ascii
      exact ((spells_one ascii.1).isValid t).trans (ih ascii.2)

theorem isValid_flatten {chunks : List Text}
    (each : chunks.all isValid = true) :
    isValid chunks.flatten = true := by
  induction chunks with
  | nil => rfl
  | cons chunk rest ih =>
      rw [List.all_cons, Bool.and_eq_true] at each
      exact isValid_append each.1 (ih each.2)

/-! ## Order -/

theorem le_total (s t : Text) : (s.le t || t.le s) = true := by
  induction s generalizing t with
  | nil => rfl
  | cons b s ih =>
      cases t with
      | nil => rfl
      | cons c t =>
          by_cases equal : b = c
          · subst equal
            simpa [le] using ih t
          · simp only [le, equal, Ne.symm equal, if_false, Bool.or_eq_true,
              decide_eq_true_eq]
            exact Nat.lt_or_gt_of_ne fun same => equal (UInt8.toNat_inj.mp same)

theorem le_trans {s t u : Text} (first : s.le t = true)
    (second : t.le u = true) :
    s.le u = true := by
  induction s generalizing t u with
  | nil => rfl
  | cons b s ih =>
      cases t with
      | nil => cases first
      | cons c t =>
          cases u with
          | nil => cases second
          | cons d u =>
              simp only [le] at first second ⊢
              grind [UInt8.lt_trans]

theorem le_antisymm {s t : Text} (first : s.le t = true)
    (second : t.le s = true) : s = t := by
  induction s generalizing t with
  | nil =>
      cases t with
      | nil => rfl
      | cons c t => cases second
  | cons b s ih =>
      cases t with
      | nil => cases first
      | cons c t =>
          by_cases equal : b = c
          · subst equal
            simp only [le, if_true] at first second
            rw [ih first second]
          · simp only [le, equal, Ne.symm equal, if_false, decide_eq_true_eq]
              at first second
            exact absurd (UInt8.lt_trans first second) (UInt8.lt_irrefl b)

theorem pairwise_sorted (ts : List Text) :
    (sorted ts).Pairwise fun s t => s.le t = true := by
  apply List.pairwise_mergeSort
  · intro a b c first second
    exact le_trans first second
  · intro a b
    exact le_total a b

/-- The order in which texts were listed is of no account when they are
sorted. -/
theorem sorted_eq_of_perm {s t : List Text} (same : s.Perm t) :
    sorted s = sorted t := by
  apply List.Perm.eq_of_pairwise _ (pairwise_sorted s) (pairwise_sorted t)
    (((List.mergeSort_perm ..).trans same).trans (List.mergeSort_perm ..).symm)
  intro a b _ _ first second
  exact le_antisymm first second

end WordMachine.Text
