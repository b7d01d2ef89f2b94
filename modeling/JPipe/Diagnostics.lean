import JPipe.Errno
import JPipe.Printf
import Mathlib.Data.List.TakeWhile

/-!
# Error messages

Each thread keeps the last error raised in it, with a text of at most 127 bytes, and
prints it as one row of at most 640. The row is written piece by piece behind an offset
that adds up what `snprintf` answers, which is the length of the piece and not of what
was stored; so the row is whole, and the offset inside of it, only because all pieces
fit together.

The texts quote an argument. Most clip it to 32 bytes; those about the output directory
ask for a width of 128 where a precision is meant, so that what is stored of the path
depends on how long it is.
-/

namespace JPipe

open Printf

/-- `jp_errno_src_t`. -/
inductive ErrnoSrc where
  | srcNone
  | srcPosix
  | srcMach
deriving DecidableEq, Repr

/-- `ERROR_MSG_MAX_LEN`. -/
def errorMsgMaxLen : Nat := 128

/-- `ERROR_ROW_MAX_LEN`. -/
def errorRowMaxLen : Nat := errorMsgMaxLen * 5

/-- `global_errno_ctx_t`; its text is shorter than its array. -/
structure ErrnoCtx where
  line : Int32
  sysErr : Int32
  file : Text
  err : Errno
  src : ErrnoSrc
  stack : Text
  fits : stack.bytes.length < errorMsgMaxLen

/-- `explain_error`. -/
def explainError : Errno → List Byte
  | .emissingCmd =>
    ascii "Missing command. Please use 'jpipe --help' to see available commands."
  | .eunknownCmd =>
    ascii "Unknown command. Please use 'jpipe --help' to see available commands."
  | .eunknownRunCmd =>
    ascii "Unknown [run] argument. Please use 'jpipe run --help' to see available options."
  | .echunkSize =>
    ascii "Chunk size must be between 1kb (1024B) and 128kb (131072B), default (16kb)."
  | .ebufferSize => ascii "Buffer size must be between 1 and 1024, (default: 64)"
  | .eoverflowPolicy => ascii "Overflow policy must be 'wait' or 'drop', (default: wait)."
  | .eoutDir => ascii "Output directory is invalid, inaccessible or path too long."
  | .etooManyField => ascii "Too many fields. Maximum allowed field number is 32."
  | .einvFieldKey => ascii
      "Invalid field key. The key must be at most 64 character (allowed: a-z, A-Z, 0-9, _, -)."
  | .einvFieldVal => ascii "Invalid field value. The key must be at most 512 byte."
  | .eshuttingDown => ascii "The application is shutting down."
  | .emsgShouldDrop => ascii "Message was dropped."
  | .etryagain => ascii "Try again later."
  | .erunFailed => ascii "An error occurred. Cannot run the application."
  | .enomemory => ascii "Could not allocate memory."
  | .ereadFailed => ascii "Cannot read the incoming stream."
  | .ewriteFailed => ascii "Cannot write the stream."
  | .esysErr => ascii "System error occurred."
  | .ok => ascii "unknown error"

/-- No text is the empty one. -/
def noText : Text := ⟨[], by simp⟩

/-- `jp_errno_ctx_set`: the context after it. -/
def jpErrnoCtxSet (err : Errno) (src : ErrnoSrc) (sysErr : Int32) (file : Text) (line : Int32) :
    ErrnoCtx where
  line := line
  sysErr := sysErr
  file := file
  err := err
  src := src
  stack := noText
  fits := by decide

/-- `vsnprintf` into the text of the context. -/
def storedText (text : Text) : Text :=
  ⟨clip (errorMsgMaxLen - 1) text.bytes, clip_plain text.plain _⟩

/-- `jp_errno_ctx_setf`, for the formatted text. -/
def jpErrnoCtxSetf (err : Errno) (src : ErrnoSrc) (sysErr : Int32) (file : Text) (line : Int32)
    (text : Text) : ErrnoCtx :=
  { jpErrnoCtxSet err src sysErr file line with
    stack := storedText text
    fits := Nat.lt_of_le_of_lt (clip_length _ _) (by decide) }

/-- `JP_TTY_RED`. -/
def ttyRed (noColor : Bool) : List Byte := if noColor then [] else 0x1b :: ascii "[31m"

/-- `JP_TTY_RST`. -/
def ttyRst (noColor : Bool) : List Byte := if noColor then [] else 0x1b :: ascii "[0m"

/-- The texts of the system: `strerror`, and `mach_error_string` where there is one. -/
structure SystemTexts where
  strerror : Int32 → Text
  machErrorString : Option (Int32 → Text)

/-- The text the system has for an error of this source. -/
def SystemTexts.of (texts : SystemTexts) : ErrnoSrc → Option (Int32 → Text)
  | .srcNone => none
  | .srcPosix => some texts.strerror
  | .srcMach => texts.machErrorString

/-- The head of a row. -/
def rowHead (noColor : Bool) (ctx : ErrnoCtx) : List Byte :=
  ttyRed noColor ++ ascii "[ERROR]" ++ ttyRst noColor ++ ascii ": " ++
    clip 128 (explainError ctx.err)

/-- The text of the error. -/
def rowStack (ctx : ErrnoCtx) : List Byte := ascii " | " ++ clip 128 ctx.stack.bytes

/-- The error of the system. -/
def rowSystem (text : Text) (ctx : ErrnoCtx) : List Byte :=
  ascii " | (E" ++ decimal ctx.sysErr.toInt ++ ascii ") " ++ clip 128 text.bytes

/-- The place in the source. -/
def rowPlace (ctx : ErrnoCtx) : List Byte :=
  ascii " | [" ++ clip 128 ctx.file.bytes ++ ascii "@" ++ decimal ctx.line.toInt ++ ascii "]"

/-- What a row says of the error: its text if there is one, the error of the system if
there is one and the system has a text for it, and the place if the source is known. -/
def rowPieces (texts : SystemTexts) (ctx : ErrnoCtx) :
    Option (List Byte) × Option (List Byte) × Option (List Byte) :=
  (if ctx.stack.bytes ≠ [] then some (rowStack ctx) else none,
    if 0 < ctx.sysErr.toInt then
      (texts.of ctx.src).map fun text => rowSystem (text ctx.sysErr) ctx
    else none,
    if ctx.src ≠ .srcNone then some (rowPlace ctx) else none)

/-- `jp_errno_ctx_print`: what it writes, with its row in memory that holds anything; no
result when it leaves the row. -/
def jpErrnoCtxPrint (noColor : Bool) (texts : SystemTexts) (stack : Region Byte errorRowMaxLen)
    (ctx : ErrnoCtx) : Option (List Byte) :=
  if ctx.err = .ok then some []
  else do
    let (stackPiece, systemPiece, placePiece) := rowPieces texts ctx
    let row : Region.Cursor Byte errorRowMaxLen := { region := stack, position := 0 }
    let row ← snprintf (rowHead noColor ctx) row
    let row ← snprintfSome stackPiece row
    let row ← snprintfSome systemPiece row
    let row ← snprintfSome placePiece row
    let region ← row.region.write row.position [newline, 0]
    some (upToNul region.cells)

/-! ### One row -/

/-- The texts of the codes are C strings. -/
theorem explain_plain (err : Errno) : 0 ∉ explainError err := by
  cases err <;> exact ascii_plain (by decide)

/-- The head of a row has at most 146 bytes. -/
theorem head_length (noColor : Bool) (ctx : ErrnoCtx) : (rowHead noColor ctx).length ≤ 146 := by
  have clipped := clip_length 128 (explainError ctx.err)
  have red : (ttyRed noColor).length ≤ 5 := by cases noColor <;> decide
  have rst : (ttyRst noColor).length ≤ 4 := by cases noColor <;> decide
  have error : (ascii "[ERROR]").length = 7 := ascii_length _
  have colon : (ascii ": ").length = 2 := ascii_length _
  simp only [rowHead, List.length_append]
  omega

/-- The text of an error has at most 130. -/
theorem stack_length (ctx : ErrnoCtx) : (rowStack ctx).length ≤ 130 := by
  have fits := ctx.fits
  have clipped : (clip 128 ctx.stack.bytes).length ≤ ctx.stack.bytes.length := by
    rw [clip, List.length_take]
    omega
  have bar : (ascii " | ").length = 3 := ascii_length _
  rw [errorMsgMaxLen] at fits
  rw [rowStack, List.length_append]
  omega

/-- The error of the system has at most 146. -/
theorem system_length (text : Text) (ctx : ErrnoCtx) : (rowSystem text ctx).length ≤ 146 := by
  have clipped := clip_length 128 text.bytes
  have number := decimal_length ctx.sysErr
  have opening : (ascii " | (E").length = 5 := ascii_length _
  have closing : (ascii ") ").length = 2 := ascii_length _
  simp only [rowSystem, List.length_append]
  omega

/-- The place in the source has at most 145. -/
theorem place_length (ctx : ErrnoCtx) : (rowPlace ctx).length ≤ 145 := by
  have clipped := clip_length 128 ctx.file.bytes
  have number := decimal_length ctx.line
  have opening : (ascii " | [").length = 4 := ascii_length _
  have atSign : (ascii "@").length = 1 := ascii_length _
  have closing : (ascii "]").length = 1 := ascii_length _
  simp only [rowPlace, List.length_append]
  omega

/-- Where there is no piece it has no bytes. -/
theorem piece_length {piece : Option (List Byte)} {bound : Nat}
    (short : ∀ text, piece = some text → text.length ≤ bound) :
    (piece.getD []).length ≤ bound := by
  cases piece with
  | none => exact Nat.zero_le _
  | some text => exact short text rfl

/-- The pieces are those there are, no longer than these. -/
theorem pieces_length (texts : SystemTexts) (ctx : ErrnoCtx) :
    (∀ text, (rowPieces texts ctx).1 = some text → text.length ≤ 130) ∧
      (∀ text, (rowPieces texts ctx).2.1 = some text → text.length ≤ 146) ∧
      ∀ text, (rowPieces texts ctx).2.2 = some text → text.length ≤ 145 := by
  refine ⟨?_, ?_, ?_⟩
  · intro text given
    simp only [rowPieces, Option.ite_none_right_eq_some, Option.some.injEq] at given
    exact given.2 ▸ stack_length ctx
  · intro text given
    simp only [rowPieces, Option.ite_none_right_eq_some, Option.map_eq_some_iff] at given
    obtain ⟨_, explanation, _, rfl⟩ := given
    exact system_length _ ctx
  · intro text given
    simp only [rowPieces, Option.ite_none_right_eq_some, Option.some.injEq] at given
    exact given.2 ▸ place_length ctx

/-- The text of a row, without the newline. -/
def rowText (noColor : Bool) (texts : SystemTexts) (ctx : ErrnoCtx) : List Byte :=
  rowHead noColor ctx ++ (rowPieces texts ctx).1.getD [] ++ (rowPieces texts ctx).2.1.getD [] ++
    (rowPieces texts ctx).2.2.getD []

/-- The head of a row contains no NUL: its colours, its label and the explanation of the
error are texts without one. -/
theorem head_plain (noColor : Bool) (ctx : ErrnoCtx) : 0 ∉ rowHead noColor ctx := by
  have explained := clip_plain (explain_plain ctx.err) 128
  have red : 0 ∉ ttyRed noColor := by cases noColor <;> decide
  have rst : 0 ∉ ttyRst noColor := by cases noColor <;> decide
  have error : 0 ∉ ascii "[ERROR]" := ascii_plain (by decide)
  have colon : 0 ∉ ascii ": " := ascii_plain (by decide)
  simp only [rowHead, List.mem_append, not_or]
  exact ⟨⟨⟨⟨red, error⟩, rst⟩, colon⟩, explained⟩

/-- No piece of a row contains a NUL: what a format shows of a text is a part of it, and
the other bytes of the piece are printable. -/
theorem pieces_plain (texts : SystemTexts) (ctx : ErrnoCtx) :
    0 ∉ (rowPieces texts ctx).1.getD [] ∧ 0 ∉ (rowPieces texts ctx).2.1.getD [] ∧
      0 ∉ (rowPieces texts ctx).2.2.getD [] := by
  have stack : 0 ∉ rowStack ctx := by
    have bar : 0 ∉ ascii " | " := ascii_plain (by decide)
    simp only [rowStack, List.mem_append, not_or]
    exact ⟨bar, clip_plain ctx.stack.plain 128⟩
  have system (text : Text) : 0 ∉ rowSystem text ctx := by
    have opening : 0 ∉ ascii " | (E" := ascii_plain (by decide)
    have closing : 0 ∉ ascii ") " := ascii_plain (by decide)
    simp only [rowSystem, List.mem_append, not_or]
    exact ⟨⟨⟨opening, decimal_plain _⟩, closing⟩, clip_plain text.plain 128⟩
  have place : 0 ∉ rowPlace ctx := by
    have opening : 0 ∉ ascii " | [" := ascii_plain (by decide)
    have atSign : 0 ∉ ascii "@" := ascii_plain (by decide)
    have closing : 0 ∉ ascii "]" := ascii_plain (by decide)
    simp only [rowPlace, List.mem_append, not_or]
    exact ⟨⟨⟨⟨opening, clip_plain ctx.file.plain 128⟩, atSign⟩, decimal_plain _⟩, closing⟩
  refine ⟨?_, ?_, ?_⟩
  · simp only [rowPieces]
    split
    · exact stack
    · simp
  · simp only [rowPieces]
    split
    · cases texts.of ctx.src with
      | none => simp
      | some text => exact system _
    · simp
  · simp only [rowPieces]
    split
    · exact place
    · simp

/-- Each piece is written in full behind the others inside of the 640 bytes, and a newline
ends them. -/
theorem row_written (noColor : Bool) (texts : SystemTexts) (stack : Region Byte errorRowMaxLen)
    {ctx : ErrnoCtx} (raised : ctx.err ≠ .ok) :
    jpErrnoCtxPrint noColor texts stack ctx = some (rowText noColor texts ctx ++ [newline]) := by
  rw [jpErrnoCtxPrint, if_neg raised]
  have size : errorRowMaxLen = 640 := rfl
  have first := head_length noColor ctx
  obtain ⟨second, third, fourth⟩ := pieces_length texts ctx
  have secondLength := piece_length second
  have thirdLength := piece_length third
  have fourthLength := piece_length fourth
  obtain ⟨afterHead, wroteHead, behindHead⟩ := @snprintf_behind errorRowMaxLen
    (rowHead noColor ctx) [] { region := stack, position := 0 } ⟨Region.holds_nil stack, rfl⟩
    (by rw [List.length_nil]; omega)
  rw [List.nil_append] at behindHead
  obtain ⟨afterStack, wroteStack, behindStack⟩ := snprintf_some_behind behindHead second (by omega)
  obtain ⟨afterSystem, wroteSystem, behindSystem⟩ := snprintf_some_behind behindStack third (by
    rw [List.length_append]
    omega)
  obtain ⟨afterPlace, wrotePlace, behindPlace⟩ := snprintf_some_behind behindSystem fourth (by
    rw [List.length_append, List.length_append]
    omega)
  obtain ⟨region, written, holds⟩ := Region.write_holds behindPlace.holds [newline, 0] (by
    simp only [List.length_append, List.length_cons, List.length_nil]
    omega)
  obtain ⟨stackPlain, systemPlain, placePlain⟩ := pieces_plain texts ctx
  have plain : 0 ∉ rowText noColor texts ctx ++ [newline] := by
    simp only [rowText, List.mem_append, not_or]
    exact ⟨⟨⟨⟨head_plain noColor ctx, stackPlain⟩, systemPlain⟩, placePlain⟩, by decide⟩
  have ended : region.Holds (rowText noColor texts ctx ++ [newline] ++ [0]) := by
    rw [List.append_assoc]
    exact holds
  simp only [wroteHead, wroteStack, wroteSystem, wrotePlace, behindPlace.position, written,
    Option.bind_eq_bind, Option.bind_some]
  exact congrArg some (up_to_nul_held plain ended)

/-- A row is whole: whatever was raised, with whatever texts and from whatever place, each
piece is written in full behind the others inside of the 640 bytes, and a newline ends
them. A piece shows at most 128 bytes of a system text and of a file name, and cuts off
the rest. -/
theorem error_row_whole (noColor : Bool) (texts : SystemTexts) (stack : Region Byte errorRowMaxLen)
    (ctx : ErrnoCtx) :
    jpErrnoCtxPrint noColor texts stack ctx =
      some (if ctx.err = .ok then [] else rowText noColor texts ctx ++ [newline]) := by
  by_cases quiet : ctx.err = .ok
  · rw [jpErrnoCtxPrint, if_pos quiet, if_pos quiet]
  · rw [row_written noColor texts stack quiet, if_neg quiet]

/-! ### Quoted arguments -/

/-- How a text quotes its argument: `%s`, `%.32s` or `%128s`. -/
inductive Conversion where
  | whole
  | clipped
  | padded
deriving DecidableEq, Repr

/-- The argument as the conversion writes it. -/
def Conversion.apply : Conversion → List Byte → List Byte
  | .whole, argument => argument
  | .clipped, argument => clip 32 argument
  | .padded, argument => pad 128 argument

/-- The texts raised with an argument: by `set_field`, by `set_chunk_size` and
`set_buffer_size`, by `set_policy`, by `jp_cmd_exec` and `handle_unknown_argument`, and by
`create_and_normalize_out_dir`. -/
inductive Quotation where
  | field
  | size
  | policy
  | command
  | createAbove
  | create
  | notDirectory
  | inaccessible
  | unresolved
deriving DecidableEq, Repr

/-- What stands before the argument. -/
def Quotation.lead : Quotation → List Byte
  | .field => ascii "Field is invalid: \""
  | .size => ascii "Size is invalid: \""
  | .policy => ascii "Policy is invalid: \""
  | .command => ascii "Invalid or incomplete command: \""
  | .createAbove => ascii "Could not create the output directory: \""
  | .create => ascii "Could not create the directory: \""
  | .notDirectory => ascii "The target is not a directory: \""
  | .inaccessible => ascii "The target is inaccessible: \""
  | .unresolved => ascii "Could not resolve absolute path: \""

/-- How the argument is quoted. -/
def Quotation.conversion : Quotation → Conversion
  | .field => .whole
  | .size | .policy | .command => .clipped
  | .createAbove | .create | .notDirectory | .inaccessible | .unresolved => .padded

/-- The text before it is cut to its array. -/
def Quotation.text (quotation : Quotation) (argument : List Byte) : List Byte :=
  quotation.lead ++ quotation.conversion.apply argument ++ [0x22]

/-- Every lead is short. -/
theorem lead_length (quotation : Quotation) :
    17 < quotation.lead.length ∧ quotation.lead.length ≤ 40 := by
  have exact {chars : List Char} (bounds : 17 < chars.length ∧ chars.length ≤ 40) :
      17 < (ascii (String.ofList chars)).length ∧ (ascii (String.ofList chars)).length ≤ 40 := by
    rw [ascii_length]
    exact bounds
  cases quotation <;> exact exact (by decide)

/-- What stays of a text behind its lead. -/
theorem stored_behind (quotation : Quotation) (argument : List Byte) :
    clip (errorMsgMaxLen - 1) (quotation.text argument) =
      quotation.lead ++ (quotation.conversion.apply argument ++ [0x22]).take
        (127 - quotation.lead.length) := by
  have short := (lead_length quotation).2
  rw [clip, Quotation.text, List.append_assoc, List.take_append,
    List.take_of_length_le (by rw [errorMsgMaxLen]; omega)]
  rfl

/-- What a text shows of its argument. An argument clipped to 32 bytes is shown with both
its quotation marks. Of a path, asked for with a width of 128, only the bytes are shown
that are left of the array behind the lead and the blanks before the path: never the
whole path, and nothing of a path that is no longer than the lead and one byte. -/
theorem quotation_shows (quotation : Quotation) (argument : List Byte) :
    match quotation.conversion with
    | .whole => clip (errorMsgMaxLen - 1) (quotation.text argument) =
        quotation.lead ++ (argument ++ [0x22]).take (127 - quotation.lead.length)
    | .clipped => clip (errorMsgMaxLen - 1) (quotation.text argument) =
        quotation.lead ++ argument.take 32 ++ [0x22]
    | .padded => ∃ blanks shown,
        clip (errorMsgMaxLen - 1) (quotation.text argument) =
          quotation.lead ++ List.replicate blanks 0x20 ++ argument.take shown ∧
        (shown = 0 ↔ argument.length ≤ quotation.lead.length + 1) ∧
        (shown < argument.length ∨ argument = []) := by
  have stored := stored_behind quotation argument
  obtain ⟨long, short⟩ := lead_length quotation
  cases conversion : quotation.conversion with
  | whole =>
    rw [conversion] at stored
    exact stored
  | clipped =>
    rw [conversion] at stored
    have clipped := clip_length 32 argument
    rw [List.take_of_length_le (by
      rw [List.length_append, List.length_singleton, Conversion.apply]
      omega), ← List.append_assoc] at stored
    exact stored
  | padded =>
    rw [conversion] at stored
    refine ⟨min (127 - quotation.lead.length) (128 - argument.length),
      127 - quotation.lead.length - (128 - argument.length), ?_, ?_, ?_⟩
    · have wide := pad_length 128 argument
      rw [stored, Conversion.apply, List.append_assoc, List.take_append_of_le_length (by omega), pad,
        List.take_append, List.take_replicate, List.length_replicate]
    · omega
    · by_cases empty : argument = []
      · exact Or.inr empty
      · have some := List.length_pos_iff.mpr empty
        left
        omega

/-- The leads are C strings. -/
theorem lead_plain (quotation : Quotation) : 0 ∉ quotation.lead := by
  cases quotation <;> exact ascii_plain (by decide)

/-- The text over an argument is a C string: its lead is one, and what a format shows of
the argument is a part of it, or the whole between blanks. -/
theorem quotation_plain (quotation : Quotation) (argument : Text) :
    0 ∉ quotation.text argument.bytes := by
  have written : 0 ∉ quotation.conversion.apply argument.bytes := by
    cases quotation.conversion with
    | whole => exact argument.plain
    | clipped => exact clip_plain argument.plain 32
    | padded =>
      rw [Conversion.apply, pad, List.mem_append, List.mem_replicate]
      rintro (⟨_, wrong⟩ | member)
      · exact absurd wrong (by decide)
      · exact argument.plain member
  simp only [Quotation.text, List.mem_append, not_or]
  exact ⟨⟨lead_plain quotation, written⟩, by decide⟩

/-- The C string at the start of these bytes. -/
def textAt (bytes : List Byte) : Text :=
  ⟨upToNul bytes, fun member => by simpa using List.mem_takeWhile_imp member⟩

/-- The text of a quotation. -/
def Quotation.shown (quotation : Quotation) (argument : List Byte) : Text :=
  ⟨quotation.text (textAt argument).bytes, quotation_plain quotation (textAt argument)⟩

/-- The text stored for a quotation. -/
def quoted (quotation : Quotation) (argument : List Byte) : List Byte :=
  (storedText (quotation.shown argument)).bytes

end JPipe
