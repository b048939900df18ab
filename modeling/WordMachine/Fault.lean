import WordMachine.Word

/-!
# What can go wrong

Every failure has a root cause from a fixed list.  On its way out a failure may
be given details or a context; the message grows accordingly, while the cause
stays available to whoever has to decide by it.
-/

namespace WordMachine

/-- The root causes of failures. -/
inductive Cause where
  | programTooLarge
  | stackUnderflow
  | stackOverflow
  | returnWithoutCall
  | callStackOverflow
  | addressOutOfBounds
  | divisionByZero
  | negativeExponent
  | heapExhausted
  | unknownOpcode
  | unknownNative
  | stepLimit
  | malformedString
  | badImage
  | malformedSource
  | unknownMnemonic
  | undefinedLabel
  | duplicateLabel
  | invalidOperand
  | lineTooLong
  | sinkFull
  | cancelled
  /-- Memory of a size that cannot be addressed. -/
  | unaddressable
  /-- Anything else, known by its wording only. -/
  | other (wording : Text)
  deriving DecidableEq, Repr

def Cause.message : Cause → Text
  | .programTooLarge => Text.ofString "program larger than memory"
  | .stackUnderflow => Text.ofString "operand stack underflow"
  | .stackOverflow => Text.ofString "operand stack overflow"
  | .returnWithoutCall => Text.ofString "return without call"
  | .callStackOverflow => Text.ofString "call stack overflow"
  | .addressOutOfBounds => Text.ofString "address out of bounds"
  | .divisionByZero => Text.ofString "division by zero"
  | .negativeExponent => Text.ofString "negative exponent"
  | .heapExhausted => Text.ofString "heap exhausted"
  | .unknownOpcode => Text.ofString "unknown opcode"
  | .unknownNative => Text.ofString "unknown native function"
  | .stepLimit => Text.ofString "step limit exceeded"
  | .malformedString => Text.ofString "malformed string literal"
  | .badImage => Text.ofString "image: bad image"
  | .malformedSource => Text.ofString "syntax error"
  | .unknownMnemonic => Text.ofString "unknown mnemonic"
  | .undefinedLabel => Text.ofString "undefined label"
  | .duplicateLabel => Text.ofString "duplicate label"
  | .invalidOperand => Text.ofString "invalid operand"
  | .lineTooLong => Text.ofString "bufio.Scanner: token too long"
  | .sinkFull => Text.ofString "limit reached"
  | .cancelled => Text.ofString "context canceled"
  | .unaddressable => Text.ofString "runtime error: makeslice: len out of range"
  | .other wording => wording

/-- Whether nobody is told of the cause as an error: the program breaks off. -/
def Cause.breaksOff : Cause → Bool
  | .unaddressable => true
  | _ => false

/-- A failure: a cause with the details and contexts it picked up. -/
inductive Fault where
  | root (cause : Cause)
  /-- Says more about the failure, after a colon. -/
  | detailed (inner : Fault) (detail : Text)
  /-- Says where the failure arose, before a colon. -/
  | within (context : Text) (inner : Fault)
  deriving DecidableEq, Repr

namespace Fault

/-- The innermost reason of a failure. -/
def cause : Fault → Cause
  | root c => c
  | detailed inner _ => inner.cause
  | within _ inner => inner.cause

def message : Fault → Text
  | root c => c.message
  | detailed inner detail => inner.message ++ Text.ofString ": " ++ detail
  | within context inner => context ++ Text.ofString ": " ++ inner.message

/-- Whether the failure says more than its cause. -/
def isElaborate : Fault → Bool
  | root _ => false
  | _ => true

def ofText (wording : Text) : Fault :=
  root (.other wording)

/-- An access to an address that memory does not have. -/
def outOfBounds (address : Word) : Fault :=
  detailed (root .addressOutOfBounds) address.toText

end Fault

end WordMachine
