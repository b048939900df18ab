import WordMachine.Machine.Basic
import WordMachine.NameTable

/-!
# Native functions

A native function is provided by the host and reached by calling an address of
the reserved range, where no address is ever code.  It may change the machine in
any way; like an instruction it ends with the address to go on at, or with a
failure.
-/

namespace WordMachine

/-! ## Addresses

The assembler and the listing refer to the standard native functions by their
addresses and names.
-/

namespace NativeAddress

/-- The first address that is reserved for native functions. -/
def base : Word := 0x0FF0000000000000

def printf : Word := base + 1

/-- The standard native functions by name. -/
def standard : NameTable :=
  NameTable.ofList [(Text.ofString "printf", printf)]

def name? (address : Word) : Option Text :=
  (standard.entries.find? fun entry => entry.2 == address).map Prod.fst

end NativeAddress

/-! ## Functions -/

/-- How an instruction or a native function ends. -/
inductive Outcome where
  /-- Go on at `next`. -/
  | proceed (m : Machine) (next : Int)
  /-- Stop with a failure; the machine is as far as it got. -/
  | fail (m : Machine) (fault : Fault)

/-- A native function: its name and what it does, given the address behind the
call. -/
structure Native where
  name : Text
  body : Machine → Int → Outcome

/-- The native functions bound to a machine by address, in order of arrival. -/
abbrev Natives := List (Word × Native)

namespace Natives

def get? (natives : Natives) (address : Word) : Option Native :=
  natives.lookup address

/-- Bind a native function to an address, replacing the one bound to it. -/
def set (address : Word) (native : Native) : Natives → Natives
  | [] => [(address, native)]
  | entry :: rest =>
    if entry.1 = address then (address, native) :: rest
      else entry :: set address native rest

/-- Bind a native function to an address of the reserved range. -/
def bind (natives : Natives) (address : Word) (native : Native) :
    Except Fault Natives :=
  if address < NativeAddress.base then
    let name := native.name
    .error <| .ofText <| Text.ofString "vm: native " ++ name
      ++ Text.ofString ": address 0x" ++ address.toText.hexBytes
      ++ Text.ofString " below reserved range"
  else .ok (set address native natives)

/-- The addresses of the bound functions by name. -/
def table (natives : Natives) : NameTable :=
  NameTable.ofList (natives.map fun (address, native) => (native.name, address))

end Natives

end WordMachine
