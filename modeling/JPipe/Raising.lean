import JPipe.Options

/-!
# Errors raised

A function that refuses something raises the error it returns in the context of its
thread, mostly with a text that quotes what it refused. Here this is read from the
journals of the functions behind the options of `run`: where one of them returns an
error, the last error raised is that one, and its text is over the argument of the first
option refused; where none is returned, none is raised.
-/

namespace JPipe

open Printf

universe u v

variable {α : Type u} {β : Type v}

/-! ### Raising -/

/-- The text of an error over the argument it is raised for. -/
def explanation (err : Errno) (arg : Option (List Byte)) : List Byte :=
  match arg with
  | none => []
  | some text =>
    match err with
    | .eunknownCmd | .eunknownRunCmd => quoted .command text
    | .echunkSize | .ebufferSize => quoted .size text
    | .eoverflowPolicy => quoted .policy text
    | .einvFieldKey | .einvFieldVal => quoted .field text
    | .eoutDir => if text.length = 0 then [] else (storedText pathTooLong).bytes
    | _ => []

end JPipe
