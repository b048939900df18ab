import WordMachine.Fault

/-!
# Powers

The two power instructions work in a loop of their own.  Integer powers square,
since wrapping multiplication does not depend on the order of the factors.
Floating-point powers multiply step by step, because every product is rounded,
and let the host interrupt them now and then.
-/

namespace WordMachine.Arithmetic

/-- `product * base ^ exponent` by repeated squaring, modulo `2 ^ 64`. -/
def powerFrom (base : Word) (exponent : Nat) (product : Word) : Word :=
  if exponent = 0 then product
  else
    powerFrom (base * base) (exponent / 2)
      (if exponent % 2 = 1 then product * base else product)
termination_by exponent
decreasing_by omega

/-- `base ^ exponent` modulo `2 ^ 64`. -/
def power (base : Word) (exponent : Nat) : Word :=
  powerFrom base exponent 1

/-- The number of multiplications between two questions to the host. -/
def pollInterval : Nat := 1024

/-- Multiply `product` by `base` another `left` times, where `done` factors were
taken before.  `stop` is asked every `pollInterval` factors.  A product that is
zero or infinite no longer changes but for its sign. -/
def powfFrom (stop : Nat → Option Fault) (base : Float) (negative : Bool) :
    (left done : Nat) → (product : Float) → Except Fault Float
  | 0, _, product => .ok product
  | left + 1, done, product =>
    match if done % pollInterval = 0 then stop done else none with
    | some fault => .error fault
    | none =>
      let product := product * base
      if product == 0 || product.isInf then
        .ok (if negative && left % 2 == 1 then -product else product)
      else powfFrom stop base negative left (done + 1) product

/-- The bits of `1.0`. -/
def one : Word := Word.ofBits 0x3FF0000000000000

/-- The bits of `-1.0`. -/
def minusOne : Word := Word.ofBits 0xBFF0000000000000

/-- The floating-point number `base` to a natural power, rounded after each
multiplication.  Bases whose powers are known take no multiplication. -/
def powf (stop : Nat → Option Fault) (base : Word) (exponent : Nat) :
    Except Fault Word :=
  if exponent = 0 then .ok one
  else if base = one || base.isNaN then .ok base
  else if base = minusOne then .ok (if exponent % 2 = 1 then minusOne else one)
  else (powfFrom stop base.toFloat (base < 0) exponent 0 1).map Word.ofFloat

end WordMachine.Arithmetic
