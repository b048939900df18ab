import WordMachine.Proofs.Assembly.Sweep
import WordMachine.Proofs.Output
import WordMachine.Proofs.Text

/-!
# Listings account for every word

The lines of a listing show the words of a program one after the other, each
word on one line.  However the listing is written, piece by piece and up to the
first failure, the sink gets one text, of which a full sink holds the beginning.
-/

namespace WordMachine

namespace Assembly

/-! ## Writing lines -/

namespace ListingLine

def text (l : ListingLine) : Text :=
  l.labels.flatMap (fun name => name ++ [Text.colon, Text.newline])
    ++ Text.padLeft 6 Text.space (Text.ofNat l.address) ++ Text.ofString "  "
    ++ l.instruction
    ++ (match l.target with
      | some name => Text.ofString "  ; " ++ name
      | none => [])
    ++ [Text.newline]

theorem foldl_append (texts : List Text) (piece : Text → Text)
    (w : StickyWriter) :
    texts.foldl (fun w name => w.append (piece name)) w =
      w.append (texts.flatMap piece) := by
  induction texts generalizing w with
  | nil => exact (w.append_nil).symm
  | cons name rest ih =>
      rw [List.foldl_cons, ih, StickyWriter.append_append, List.flatMap_cons]

theorem write_eq (l : ListingLine) (w : StickyWriter) :
    l.write w = w.append l.text := by
  rw [write, foldl_append, text]
  cases l.target with
  | none =>
      simp only [StickyWriter.append_append, List.append_assoc, List.nil_append]
  | some name => simp only [StickyWriter.append_append, List.append_assoc]

end ListingLine

/-- Stopping at the first failure makes no difference to what is written. -/
theorem writeLines_eq (lines : List ListingLine) (w : StickyWriter) :
    writeLines lines w = w.append (lines.flatMap ListingLine.text) := by
  induction lines generalizing w with
  | nil => exact (w.append_nil).symm
  | cons line rest ih =>
      rw [writeLines, List.flatMap_cons, ← StickyWriter.append_append,
        line.write_eq]
      split
      next failed => rw [StickyWriter.append_of_fault failed]
      next => exact ih _

theorem writeListing_eq (code : Array Word) (labels : NameTable) (sink : Sink) :
    writeListing code labels sink =
      ((StickyWriter.append ⟨sink, none⟩
          ((listing code labels).flatMap ListingLine.text)).sink,
        (StickyWriter.append ⟨sink, none⟩
          ((listing code labels).flatMap ListingLine.text)).fault) := by
  rw [writeListing, writeLines_eq]

/-! ## Lines and words -/

/-- The lines show the given words, the first of which is at the address: each
line some of them, and the next one those behind. -/
inductive Lists : (address : Nat) → List ListingLine → List Word → Prop where
  | nil (address : Nat) : Lists address [] []
  | cons {address : Nat} {line : ListingLine}
      {lines : List ListingLine} {s : Shown} {rest : List Word} :
      line.address = address → line.instruction = s.text →
        line.width = s.words.length →
      Lists (address + line.width) lines rest →
      Lists address (line :: lines) (s.words ++ rest)

/-- Lines that show words cover their addresses, each once and in order. -/
theorem Lists.addresses {address : Nat} {lines : List ListingLine}
    {ws : List Word} (lists : Lists address lines ws) :
    (lines.flatMap fun line => List.range' line.address line.width) =
      List.range' address ws.length := by
  induction lists with
  | nil => rfl
  | cons here _ width _ ih =>
      rw [List.flatMap_cons, ih, here, width, List.length_append,
        List.range'_append_1]

variable {code : Array Word} {front rest : List Word}

theorem exists_listingFrom (labels : NameTable)
    (split : code.toList = front ++ rest) :
    ∃ lines, Lists front.length lines rest ∧
      ∀ done, listingFrom code labels front.length done =
        done.reverse ++ lines := by
  refine sweep_induction ?finish ?step split
  case finish =>
      intro front split
      refine ⟨[], .nil front.length, ?_⟩
      intro done
      have outside : ¬ front.length < code.size := by
        rw [← Array.length_toList, split, List.append_nil]
        exact Nat.lt_irrefl front.length
      rw [listingFrom, if_neg outside, List.append_nil]
  case step =>
      intro front s rest shows ih
      obtain ⟨lines, lists, listed⟩ := ih
      have inside : front.length < code.size := Int.ofNat_lt.mp shows.inside.2
      have instruction :
          (listingLine code labels front.length).instruction = s.text := by
        rw [listingLine, shows.instruction]
      have width : (listingLine code labels front.length).width =
          s.words.length := by
        rw [listingLine, shows.instruction]
      rw [List.length_append, ← width] at lists listed
      refine ⟨listingLine code labels front.length :: lines,
        .cons rfl instruction width lists, ?_⟩
      intro done
      rw [listingFrom, if_pos inside]
      simp only [listed, List.reverse_cons, List.append_assoc,
        List.singleton_append]

theorem lists_listing (code : Array Word) (labels : NameTable) :
    Lists 0 (listing code labels) code.toList := by
  have whole : code.toList = [] ++ code.toList := rfl
  obtain ⟨lines, lists, listed⟩ := exists_listingFrom labels whole
  have same : listing code labels = lines := listed []
  rw [same]
  exact lists

/-! ## Labels -/

section Labels

variable {labels labels' : NameTable}

theorem labelsAt_of_perm (same : labels'.entries.Perm labels.entries)
    (address : Word) :
    labelsAt labels' address = labelsAt labels address :=
  Text.sorted_eq_of_perm ((same.filter _).map _)

theorem listingLine_of_perm (same : labels'.entries.Perm labels.entries)
    (address : Nat) :
    listingLine code labels' address = listingLine code labels address := by
  simp only [listingLine, targetAt, labelsAt_of_perm same]

theorem listingFrom_of_perm (same : labels'.entries.Perm labels.entries)
    (address : Nat) (done : List ListingLine) :
    listingFrom code labels' address done =
      listingFrom code labels address done := by
  fun_induction listingFrom code labels address done with
  | case1 address done inside line ih =>
      rw [listingFrom, if_pos inside, listingLine_of_perm same]
      exact ih
  | case2 address done outside => rw [listingFrom, if_neg outside]

end Labels

/-- A listing shows every word of a program on one line: the first line is at
address zero, each next one behind the words of the line before, and together
they cover all addresses.  What is written does not depend on the order of the
label table, and a sink with room for some number of bytes gets the first of
them, without a failure exactly if these are all. -/
theorem listing_accounts_for_words (code : Array Word) (labels : NameTable) :
    Lists 0 (listing code labels) code.toList ∧
    ((listing code labels).flatMap fun line =>
      List.range' line.address line.width) =
      List.range code.size ∧
    (∀ labels' : NameTable, labels'.entries.Perm labels.entries →
      ∀ sink, writeListing code labels' sink = writeListing code labels sink) ∧
    ∃ full : Text, full = (listing code labels).flatMap ListingLine.text ∧
      (writeListing code labels (.ofLimit none)).1.text = full ∧
      (writeListing code labels (.ofLimit none)).2 = none ∧
      ∀ limit,
        (writeListing code labels (.ofLimit (some limit))).1.text =
          full.take limit ∧
        ((writeListing code labels (.ofLimit (some limit))).2 = none ↔
          full.length ≤ limit) := by
  have lists := lists_listing code labels
  have addresses := lists.addresses
  rw [Array.length_toList, ← List.range_eq_range'] at addresses
  have nothing : (Sink.ofLimit none).text = [] := rfl
  refine ⟨lists, addresses, ?_, _, rfl, ?_, ?_, ?_⟩
  · intro labels' same sink
    rw [writeListing, writeListing, listing, listing, listingFrom_of_perm same]
  · rw [writeListing_eq, StickyWriter.append_of_unlimited rfl]
    exact Sink.text_write_of_unlimited rfl rfl _
  · rw [writeListing_eq, StickyWriter.append_of_unlimited rfl]
  · intro limit
    rw [writeListing_eq, ← Sink.limited_ofLimit,
      StickyWriter.append_limited rfl (Nat.zero_le limit), Sink.text_limited,
      Sink.text_write_of_unlimited rfl rfl, nothing, List.nil_append]
    simp only [ite_eq_left_iff, reduceCtorEq, imp_false,
      Decidable.not_not, and_self]

/-- A jump to a word that is no opcode, and a call without its target. -/
def jumpOverData : Array Word :=
  #[Opcode.jump.code, 2, -1, Opcode.call.code]

/-- Names for its beginning and for the word that is jumped to. -/
def twoNames : NameTable where
  entries := [(Text.ofString "start", 0), (Text.ofString "data", 2)]
  nodup := by decide

/-- The same names in the other order. -/
def twoNamesBack : NameTable where
  entries := [(Text.ofString "data", 2), (Text.ofString "start", 0)]
  nodup := by decide

theorem listing_accounts_for_words_jump :
    twoNamesBack.entries.Perm twoNames.entries ∧
    (writeListing jumpOverData twoNames (.ofLimit none)).1.text = Text.ofString
      "start:\n     0  jump 2  ; data\ndata:\n     2  .word -1\n     3  call ???\n" ∧
    (writeListing jumpOverData twoNamesBack (.ofLimit (some 35))).1.text =
      Text.ofString "start:\n     0  jump 2  ; data\ndata:" ∧
    (writeListing jumpOverData twoNamesBack (.ofLimit (some 35))).2 ≠ none := by
  have same : twoNamesBack.entries.Perm twoNames.entries := .swap _ _ _
  obtain ⟨-, -, order, full, -, whole, -, cut⟩ :=
    listing_accounts_for_words jumpOverData twoNames
  have shown : full = Text.ofString
      "start:\n     0  jump 2  ; data\ndata:\n     2  .word -1\n     3  call ???\n" := by
    rw [← whole]
    decide +kernel
  rw [shown] at whole cut
  rw [order twoNamesBack same]
  refine ⟨same, whole, (cut 35).1.trans (by decide +kernel), ?_⟩
  rw [ne_eq, (cut 35).2]
  decide +kernel

end Assembly

end WordMachine
