import Mathlib.Data.UInt

/-!
# Status codes and the characters the sources name

`Errno` is `jp_errno_t`, in the order of `JP_ERRNO_MAP`. Bytes are unsigned
chars; the texts attached to the codes are those of `explainError`.
-/

namespace JPipe

abbrev Byte := UInt8

/-- `'\n'`, the delimiter of messages. -/
def newline : Byte := 0x0a

/-- `jp_errno_t`. -/
inductive Errno where
  | ok
  | emissingCmd
  | eunknownCmd
  | eunknownRunCmd
  | echunkSize
  | ebufferSize
  | eoverflowPolicy
  | eoutDir
  | etooManyField
  | einvFieldKey
  | einvFieldVal
  | eshuttingDown
  | emsgShouldDrop
  | etryagain
  | erunFailed
  | enomemory
  | ereadFailed
  | ewriteFailed
  | esysErr
deriving DecidableEq, Repr

/-- `JP_QUEUE_IS_GRACEFUL_ERR`: the two expected answers of the queue. -/
def jpQueueIsGracefulErr (err : Errno) : Bool :=
  err == .eshuttingDown || err == .emsgShouldDrop

end JPipe
