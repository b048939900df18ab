import WordMachine.Text.Basic

/-!
# CBOR values

The binary data format of image files.  A value keeps what a reader may want to
tell apart: the chunks of strings, tags and simple values.
-/

namespace WordMachine

inductive Cbor where
  | unsigned (n : Nat)
  /-- The integer `-1 - n`. -/
  | negative (n : Nat)
  | bytes (chunks : List Text)
  | text (chunks : List Text)
  | array (elements : List Cbor)
  | map (entries : List (Cbor × Cbor))
  | tagged (tag : Nat) (content : Cbor)
  /-- A simple value; 20 to 23 are false, true, null and undefined. -/
  | simple (n : Nat)
  /-- A floating-point number of `width` bytes. -/
  | float (width : Nat) (bits : Nat)
  deriving Inhabited

namespace Cbor

def null : Cbor := .simple 22

/-- Whether the item stands for no value. -/
def isNull : Cbor → Bool
  | .simple 22 | .simple 23 => true
  | _ => false

def ofInt : Int → Cbor
  | .ofNat n => .unsigned n
  | .negSucc n => .negative n

end Cbor

end WordMachine
