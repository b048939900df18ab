import Mathlib.Data.List.Induction
import Mathlib.Data.List.Nodup
import WordMachine.Machine.Printf
import WordMachine.Machine.Run
import WordMachine.Machine.Script
import WordMachine.Proofs.Assembly.Addresses
import WordMachine.Proofs.Machine.ModestNatives

/-!
# Names of native functions

Native functions are bound to addresses, and programs call them by name.  The
table of names is made by going through the bound functions in some order, and
where two of them have the same name the later one counts.

Whatever the order is, a name stands for an address whose function has that
name, so that a call by name runs a function of that name.  But which one it is
depends on the order, unless no two addresses are bound under the same name;
nothing keeps a host from doing that.
-/

namespace WordMachine

/-! ## Tables from lists -/

namespace NameTable

variable {entries : List (Text × Word)} {name : Text} {address : Word}

theorem get?_ofList_concat (entries : List (Text × Word)) (entry : Text × Word)
    (name : Text) :
    (ofList (entries ++ [entry])).get? name =
      if name = entry.1 then some entry.2 else (ofList entries).get? name := by
  rw [ofList, List.foldl_append]
  exact get?_insert _ _ _ _

theorem mem_of_get?_ofList (found : (ofList entries).get? name = some address) :
    (name, address) ∈ entries := by
  induction entries using List.reverseRecOn with
  | nil => cases found
  | append_singleton entries entry ih =>
      rw [get?_ofList_concat] at found
      rw [List.mem_append, List.mem_singleton]
      split at found
      next same =>
        cases found
        exact .inr (Prod.ext same rfl)
      next => exact .inl (ih found)

theorem exists_get?_ofList (member : (name, address) ∈ entries) :
    ∃ other, (ofList entries).get? name = some other := by
  induction entries using List.reverseRecOn with
  | nil => cases member
  | append_singleton entries entry ih =>
      rw [get?_ofList_concat]
      split
      next => exact ⟨_, rfl⟩
      next different =>
        rw [List.mem_append, List.mem_singleton] at member
        rcases member with earlier | rfl
        · exact ih earlier
        · exact absurd rfl different

end NameTable

/-! ## Assembling with tables that agree -/

namespace Assembly

/-- An assembled program without the table of native functions it was linked
with. -/
def Assembled.unlinked (a : Assembled) : Array Word × NameTable × Program :=
  (a.code, a.labels, a.program)

section Agreement

variable {s t : NameTable} (agrees : s.Agrees t)

include agrees

theorem Operand.word_congr (o : Operand) : o.word s = o.word t := by
  unfold Operand.word
  simp only [agrees _]

theorem Item.encode_congr (it : Item) : it.encode s = it.encode t := by
  unfold Item.encode encodeInstruction
  simp only [Operand.word_congr agrees]

theorem Program.emit_congr (p : Program) : p.emit s = p.emit t := by
  have pass (items : List Item) (code : Array Word) (found : List Problem) :
      emitFrom s items code found = emitFrom t items code found := by
    induction items generalizing code found with
    | nil => rfl
    | cons it rest ih =>
        unfold emitFrom
        simp only [Item.encode_congr agrees, ih]
  exact pass p.items #[] []

theorem Program.link_congr (p : Program) (labels : NameTable) :
    (p.link labels s).problems = (p.link labels t).problems ∧
      ((p.link labels s).problems = [] →
        (p.link labels s).table.Agrees (p.link labels t).table) := by
  have offence (it : Item) : linkOffence? s it = linkOffence? t it := by
    unfold linkOffence? NameTable.contains
    simp only [agrees _]
  have problems : (p.link labels s).problems = (p.link labels t).problems := by
    rw [link_problems, link_problems, funext offence]
  refine ⟨problems, fun linked name => ?_⟩
  rw [(link_get? linked name).2,
    (link_get? (problems ▸ linked) name).2, agrees name]

/-- Tables that give the same answers lead to the same program or to the same
failure. -/
theorem assemble_congr (name source : Text) :
    (assemble name source s).map Assembled.unlinked =
      (assemble name source t).map Assembled.unlinked := by
  cases result : read name source with
  | error fault => simp only [assemble, result]
  | ok reading =>
      obtain ⟨problems, tables⟩ :=
        reading.program.link_congr agrees reading.program.layout.labels
      rw [assemble_of_read result, assemble_of_read result, ← problems]
      -- The emission is compared only where linking went through: otherwise the
      -- tables differ.
      by_cases linked : (reading.program.link reading.program.layout.labels
        s).problems = []
      · rw [reading.program.emit_congr (tables linked)]
        split_ifs <;> rfl
      · rw [if_neg linked, if_neg linked]

end Agreement

end Assembly

/-! ## Binding -/

namespace Natives

def bindAll (natives : Natives) : List (Word × Native) → Except Fault Natives
  | [] => .ok natives
  | binding :: rest => do
    let natives ← natives.bind binding.1 binding.2
    bindAll natives rest

def names (natives : Natives) : List Text :=
  natives.map fun entry => entry.2.name

/-- One function at each address, and none outside of the reserved range. -/
structure Bound (natives : Natives) : Prop where
  nodup : (natives.map Prod.fst).Nodup
  reserved : ∀ entry ∈ natives, NativeAddress.base ≤ entry.1

variable {natives : Natives} {address : Word} {native : Native}

theorem get?_cons (entry : Word × Native) (rest : Natives) (other : Word) :
    get? (entry :: rest) other = if other = entry.1 then some entry.2
      else rest.get? other := by
  obtain ⟨address, native⟩ := entry
  by_cases same : other = address
  · simp [get?, same]
  · simp [get?, List.lookup_cons, beq_eq_false_iff_ne.mpr same, same]

theorem get?_append (front rest : Natives) (other : Word) :
    get? (front ++ rest) other = (front.get? other).or (rest.get? other) :=
  List.lookup_append

theorem mem_of_mem_set {entry : Word × Native}
    (member : entry ∈ natives.set address native) :
    entry = (address, native) ∨ entry ∈ natives := by
  induction natives with
  | nil => exact .inl (List.mem_singleton.mp member)
  | cons first rest ih =>
      rw [set] at member
      split at member
      next => exact (List.mem_cons.mp member).imp_right (List.mem_cons_of_mem _)
      next =>
        rcases List.mem_cons.mp member with rfl | later
        · exact .inr List.mem_cons_self
        · exact (ih later).imp_right (List.mem_cons_of_mem _)

/-- Binding a function keeps one function at each address. -/
theorem nodup_set (distinct : (natives.map Prod.fst).Nodup) :
    ((natives.set address native).map Prod.fst).Nodup := by
  induction natives with
  | nil => exact List.nodup_singleton _
  | cons first rest ih =>
      rw [List.map_cons, List.nodup_cons] at distinct
      rw [set]
      split
      next same =>
        rw [List.map_cons, List.nodup_cons, ← same]
        exact distinct
      next different =>
        rw [List.map_cons, List.nodup_cons]
        refine ⟨fun member => ?_, ih distinct.2⟩
        obtain ⟨entry, inside, same⟩ := List.mem_map.mp member
        rcases mem_of_mem_set inside with rfl | old
        · exact different same.symm
        · exact distinct.1 (same ▸ List.mem_map_of_mem old)

theorem bind_eq_ok {result : Natives}
    (bound : natives.bind address native = .ok result) :
    NativeAddress.base ≤ address ∧ result = natives.set address native := by
  unfold bind at bound
  split at bound
  next => cases bound
  next reserved =>
    cases bound
    exact ⟨Int64.not_lt.mp reserved, rfl⟩

namespace Bound

theorem standard : Bound standard := ⟨by decide, by decide⟩

theorem set (bound : natives.Bound) (reserved : NativeAddress.base ≤ address)
    (native : Native) :
    (natives.set address native).Bound := by
  refine ⟨nodup_set bound.nodup, fun entry member => ?_⟩
  rcases mem_of_mem_set member with rfl | old
  · exact reserved
  · exact bound.reserved entry old

/-- At each address stands what was bound to it. -/
theorem get?_eq_some_iff (bound : natives.Bound) :
    natives.get? address = some native ↔ (address, native) ∈ natives :=
  lookup_eq_some_iff_mem bound.nodup

end Bound

/-- Accepted bindings leave one function at each address, the one bound last. -/
theorem bindAll_spec {bindings : List (Word × Native)} {start : Natives}
    (bound : start.Bound) (accepted : start.bindAll bindings = .ok natives) :
    natives.Bound ∧
      ∀ address, natives.get? address =
        get? (bindings.reverse ++ start) address := by
  induction bindings generalizing start with
  | nil =>
      cases accepted
      exact ⟨bound, fun _ => rfl⟩
  | cons binding rest ih =>
      obtain ⟨address, native⟩ := binding
      cases first : start.bind address native with
      | error fault =>
          rw [bindAll, first] at accepted
          cases accepted
      | ok next =>
          obtain ⟨reserved, rfl⟩ := bind_eq_ok first
          rw [bindAll, first] at accepted
          obtain ⟨final, last⟩ := ih (bound.set reserved native) accepted
          refine ⟨final, fun other => ?_⟩
          rw [last, List.reverse_cons, List.append_assoc, get?_append,
            get?_append, get?_set, List.singleton_append, get?_cons]

/-! ## The table of names -/

section Table

variable {order : Natives} {name : Text}

theorem mem_of_get?_table (found : order.table.get? name = some address) :
    ∃ native, (address, native) ∈ order ∧ native.name = name := by
  obtain ⟨entry, member, same⟩ :=
    List.mem_map.mp (NameTable.mem_of_get?_ofList found)
  obtain ⟨named, at'⟩ := Prod.mk.inj same
  exact ⟨entry.2, at' ▸ member, named⟩

theorem exists_get?_table (member : (address, native) ∈ order) :
    ∃ other, order.table.get? native.name = some other :=
  NameTable.exists_get?_ofList (List.mem_map_of_mem member)

/-- What comes last has its name. -/
theorem get?_table_concat (order : Natives) (entry : Word × Native) :
    (table (order ++ [entry])).get? entry.2.name = some entry.1 := by
  rw [table, List.map_append, List.map_singleton,
    NameTable.get?_ofList_concat, if_pos rfl]

/-- Some order of the bound functions gives an address its name. -/
theorem exists_perm_table {entry : Word × Native} (member : entry ∈ natives) :
    ∃ order : Natives, order.Perm natives ∧
      order.table.get? entry.2.name = some entry.1 := by
  obtain ⟨front, rest, rfl⟩ := List.append_of_mem member
  refine ⟨front ++ rest ++ [entry], ?_, get?_table_concat _ entry⟩
  exact (List.perm_append_singleton entry (front ++ rest)).trans
    List.perm_middle.symm

/-- If no two addresses are bound under the same name, each name has the address
of its function, whatever the order. -/
theorem get?_table_iff (distinct : natives.names.Nodup)
    (perm : order.Perm natives) :
    order.table.get? name = some address ↔
      ∃ native, (address, native) ∈ natives ∧ native.name = name := by
  have named : ∀ {address}, order.table.get? name = some address →
      ∃ native, (address, native) ∈ natives ∧ native.name = name := by
    intro address found
    obtain ⟨native, member, isName⟩ := mem_of_get?_table found
    exact ⟨native, perm.mem_iff.mp member, isName⟩
  refine ⟨named, ?_⟩
  rintro ⟨native, member, rfl⟩
  obtain ⟨other, found⟩ := exists_get?_table (perm.mem_iff.mpr member)
  obtain ⟨native', member', sameName⟩ := named found
  obtain ⟨rfl, -⟩ :=
    Prod.mk.inj (List.inj_on_of_nodup_map distinct member' member sameName)
  exact found

/-- The table of names is the same in all orders exactly if no two addresses are
bound under the same name. -/
theorem Bound.agrees_iff (bound : natives.Bound) :
    (∀ order order' : Natives, order.Perm natives → order'.Perm natives →
        order.table.Agrees order'.table) ↔ natives.names.Nodup := by
  have entries : natives.Nodup := List.Nodup.of_map _ bound.nodup
  constructor
  · intro agree
    rw [names, List.nodup_map_iff_inj_on entries]
    intro entry member other isOther sameName
    obtain ⟨order, perm, found⟩ := exists_perm_table member
    obtain ⟨order', perm', found'⟩ := exists_perm_table isOther
    rw [agree order order' perm perm', sameName, found',
      Option.some.injEq] at found
    exact (List.nodup_map_iff_inj_on entries).mp bound.nodup entry member other
      isOther found.symm
  · intro distinct order order' perm perm' name
    apply Option.ext
    intro address
    rw [get?_table_iff distinct perm, get?_table_iff distinct perm']

end Table

/-! ## Calls by name -/

/-- A call to the address of a bound function runs that function. -/
theorem Bound.execute_call (bound : natives.Bound)
    (found : natives.get? address = some native) (cancelled : Nat → Bool)
    (m : Machine) (next : Int) :
    m.execute natives cancelled .call address next = native.body m next := by
  have reserved := bound.reserved _ (bound.get?_eq_some_iff.mp found)
  have called : m.execute natives cancelled .call address next =
      m.calling natives next address :=
    rfl
  rw [called, Machine.calling, if_pos reserved, found]

/-- Wherever the program names the function, the word in the code is an address
that runs it when it is called. -/
def CalledBy (natives : Natives) (native : Native)
    (a : Assembly.Assembled) : Prop :=
  ∀ i it operand, a.program.items[i]? = some it → it.operand? = some operand →
    operand.value = .name native.name →
      ∃ address, a.code[Assembly.addressOf a.program.items i + 1]? =
        some address ∧
        ∀ cancelled m next, m.execute natives cancelled .call address next =
          native.body m next

/-- Native functions and their names.

Let bindings to a new machine be accepted.  Then each address has the function
that was bound to it last.  In every order of the bound functions, a name of the
table stands for an address whose function has that name and runs when it is
called, and each bound function has its name in the table.  The table is the
same in every order exactly if no two addresses are bound under the same name;
and if so, then a source is assembled to the same code in every order, or fails
in the same way, and naming a function calls that function. -/
theorem native_table_well_defined_iff {bindings : List (Word × Native)}
    (accepted : standard.bindAll bindings = .ok natives) :
    (∀ address, natives.get? address =
      get? (bindings.reverse ++ standard) address) ∧
    (∀ order : Natives, order.Perm natives →
      (∀ name address, order.table.get? name = some address →
        ∃ native, natives.get? address = some native ∧ native.name = name ∧
          ∀ cancelled m next,
            m.execute natives cancelled .call address next =
              native.body m next) ∧
      ∀ address native, natives.get? address = some native →
        order.table.contains native.name = true) ∧
    ((∀ order order' : Natives, order.Perm natives → order'.Perm natives →
      order.table.Agrees order'.table) ↔ natives.names.Nodup) ∧
    (natives.names.Nodup → ∀ order : Natives, order.Perm natives →
      ∀ name source, (∀ order' : Natives, order'.Perm natives →
        (Assembly.assemble name source order.table).map
          Assembly.Assembled.unlinked =
          (Assembly.assemble name source order'.table).map
            Assembly.Assembled.unlinked) ∧
      ∀ a, Assembly.assemble name source order.table = .ok a →
        ∀ address native, natives.get? address = some native →
          natives.CalledBy native a) := by
  obtain ⟨bound, last⟩ := bindAll_spec .standard accepted
  refine ⟨last, fun order perm => ⟨?_, ?_⟩, bound.agrees_iff, ?_⟩
  · intro name address found
    obtain ⟨native, member, named⟩ := mem_of_get?_table found
    have isBound := bound.get?_eq_some_iff.mpr (perm.mem_iff.mp member)
    exact ⟨native, isBound, named, bound.execute_call isBound⟩
  · intro address native isBound
    rw [NameTable.contains_iff]
    exact exists_get?_table
      (perm.mem_iff.mpr (bound.get?_eq_some_iff.mp isBound))
  · intro distinct order perm name source
    refine ⟨fun order' perm' => ?_, ?_⟩
    · exact Assembly.assemble_congr
        (bound.agrees_iff.mpr distinct order order' perm perm') _ _
    · intro a result address native isBound i it operand item written named
      have found := (get?_table_iff distinct perm).mpr
        ⟨native, bound.get?_eq_some_iff.mp isBound, rfl⟩
      obtain ⟨-, -, -, word⟩ :=
        Assembly.assembled_operand result item written named
      exact ⟨address, word address found, bound.execute_call isBound⟩

/-- Bindings over an earlier one and over the standard function. -/
def rebound : List (Word × Native) :=
  [(NativeAddress.base + 2, .ofActions (Text.ofString "f") [.push 1]),
    (NativeAddress.base + 2, .ofActions (Text.ofString "g") [.push 2]),
    (NativeAddress.printf, .ofActions (Text.ofString "f") [.push 3])]

theorem native_table_well_defined_iff_rebound :
    ∃ natives, standard.bindAll rebound = .ok natives ∧
      natives.names = [Text.ofString "f", Text.ofString "g"] ∧
      ∀ order order' : Natives, order.Perm natives → order'.Perm natives →
        order.table.Agrees order'.table := by
  obtain ⟨natives, accepted, names⟩ :
      ∃ natives, standard.bindAll rebound = .ok natives ∧
      natives.names = [Text.ofString "f", Text.ofString "g"] :=
    ⟨_, rfl, by decide⟩
  have distinct : natives.names.Nodup := by
    rw [names]
    decide
  exact ⟨natives, accepted, names,
    (native_table_well_defined_iff accepted).2.2.1.mpr distinct⟩

/-- Two functions with the same name at different addresses. -/
def namesakes : List (Word × Native) :=
  [(NativeAddress.base + 2, .ofActions (Text.ofString "f") [.push 1]),
    (NativeAddress.base + 3, .ofActions (Text.ofString "f") [.push 2])]

/-- The stack after a source is assembled with the table made in some order,
loaded and run. -/
def stackAfter (natives order : Natives) (source : Text) :
    Option (List Word) := do
  let a ← (Assembly.assemble [] source order.table).toOption
  let m ← (Machine.load { memory := Array.replicate 8 0 } a.code).toOption
  return (m.run natives .never 8).1.stack.words

/-- Two functions may be bound under one name; which of them the name calls
depends on the order in which the table is made. -/
theorem namesakes_called_by_order :
    ∃ natives order order' : Natives, standard.bindAll namesakes = .ok natives ∧
      order.Perm natives ∧ order'.Perm natives ∧
      order.table.get? (Text.ofString "f") = some (NativeAddress.base + 2) ∧
      order'.table.get? (Text.ofString "f") = some (NativeAddress.base + 3) ∧
      stackAfter natives order (Text.ofString "call f\nend") = some [1] ∧
      stackAfter natives order' (Text.ofString "call f\nend") = some [2] := by
  refine ⟨standard ++ namesakes, standard ++ namesakes.reverse,
    standard ++ namesakes, rfl, ?_, .refl _, ?_⟩
  · exact (List.reverse_perm namesakes).append_left standard
  · decide +kernel

end Natives

end WordMachine
