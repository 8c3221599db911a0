import ForthMachine.Text.Utf8

/-!
# Character literals

Besides numbers, the interpreter reads three spellings of a single character:

* a named control character in angle brackets, all upper or all lower case:
  `<NUL>` … `<US>` for the C0 controls, `<SP>` for space and `<DEL>` for delete;
* a caret form, `^@` … `^_` for the C0 controls and `^?` for delete;
* a character in single quotes, `'A'`, where a backslash starts an escape: one of
  `\a \b \f \n \r \t \v \\ \'`, `\xNN` (any byte value), `\uNNNN` or `\UNNNNNNNN` (a
  scalar value), or three octal digits up to `\377`.

A token that has none of these shapes is no character literal; a quoted token whose
inside is malformed is a syntax error.

The main statement is `caretForm_read`: the caret form of a control character reads back
as that character.
-/

namespace ForthMachine.Character

open ForthMachine.Text

/-- The C0 control characters and the two pseudo-controls, with their names. -/
def controlNames : List (String × Nat) :=
  [("NUL", 0x00), ("SOH", 0x01), ("STX", 0x02), ("ETX", 0x03), ("EOT", 0x04), ("ENQ", 0x05),
   ("ACK", 0x06), ("BEL", 0x07), ("BS", 0x08), ("HT", 0x09), ("NL", 0x0A), ("VT", 0x0B),
   ("NP", 0x0C), ("CR", 0x0D), ("SO", 0x0E), ("SI", 0x0F), ("DLE", 0x10), ("DC1", 0x11),
   ("DC2", 0x12), ("DC3", 0x13), ("DC4", 0x14), ("NAK", 0x15), ("SYN", 0x16), ("ETB", 0x17),
   ("CAN", 0x18), ("EM", 0x19), ("SUB", 0x1A), ("ESC", 0x1B), ("FS", 0x1C), ("GS", 0x1D),
   ("RS", 0x1E), ("US", 0x1F), ("SP", 0x20), ("DEL", 0x7F)]

/-- The character a caret stands before: the control character with bit 6 flipped. -/
def caretPartner (r : Int) : Nat :=
  if r < 0 then replacement else (r.toNat ^^^ 0x40)

/-- Whether a character has a caret form: the C0 controls and delete. -/
def hasCaretForm (r : Int) : Bool := r < 0x20 || r == 0x7F

/--
The caret form of a control character, `^` followed by the character with bit 6
flipped; empty for characters that have none. A negative value has no character to flip
to, and shows U+FFFD after the caret.
-/
def caretForm (r : Int) : Bytes :=
  if hasCaretForm r then 0x5E :: encode (caretPartner r) else []

/-- ASCII lower case of a name. -/
def lowerName (s : String) : String := s.map Char.toLower

/-- The named or caret spelling that `token` is, if any, and the character it stands for. -/
def controlWord (token : Bytes) : Option Nat :=
  (controlNames.find? fun (name, code) =>
      token = Bytes.ofString ("<" ++ name ++ ">") ||
      token = Bytes.ofString ("<" ++ lowerName name ++ ">") ||
      (hasCaretForm code && token = caretForm code)).map (·.2)

/-- Why a token is no character literal. -/
inductive LiteralError where
  /-- The token has none of the three shapes. -/
  | notLiteral
  /-- The token is quoted, but what stands between the quotes is malformed. -/
  | badSyntax
  deriving DecidableEq, Repr

/-- The text of a literal error. -/
def LiteralError.message : LiteralError → String
  | .notLiteral => "rune literal must be \"^X\" \"<NAME>\" or 'X'"
  | .badSyntax => "invalid syntax"

/-- The value of a hexadecimal digit in either case. -/
def hexValue (b : UInt8) : Option Nat :=
  if 0x30 ≤ b && b ≤ 0x39 then some (b.toNat - 0x30)
  else if 0x61 ≤ b && b ≤ 0x66 then some (b.toNat - 0x61 + 10)
  else if 0x41 ≤ b && b ≤ 0x46 then some (b.toNat - 0x41 + 10)
  else none

/-- Reads exactly `n` hexadecimal digits from the front, returning the value and the rest. -/
def takeHex : Nat → Bytes → Nat → Option (Nat × Bytes)
  | 0, bs, acc => some (acc, bs)
  | _ + 1, [], _ => none
  | n + 1, b :: bs, acc => do
    let v ← hexValue b
    takeHex n bs (acc * 16 + v)

/-- The value of an octal digit. -/
def octalValue (b : UInt8) : Option Nat :=
  if 0x30 ≤ b && b ≤ 0x37 then some (b.toNat - 0x30) else none

/-- The value of the single-letter escape `\c`, if it is one. -/
def letterEscape (c : UInt8) : Option Nat :=
  if c = 0x61 then some 0x07 else if c = 0x62 then some 0x08
  else if c = 0x66 then some 0x0C else if c = 0x6E then some 0x0A
  else if c = 0x72 then some 0x0D else if c = 0x74 then some 0x09
  else if c = 0x76 then some 0x0B else if c = 0x5C then some 0x5C
  else none

/--
Reads one possibly escaped character from the front of `s`, inside text quoted by
`quoteMark`; returns its value and the rest. An unescaped quote mark ends the text
and is no character.
-/
def readQuotedChar (quoteMark : UInt8) : Bytes → Option (Nat × Bytes)
  | [] => none
  | c :: rest =>
    if c = quoteMark then none
    else if 0x80 ≤ c then (splitPiece (c :: rest)).map fun (p, r) => (p.code, r)
    else if c ≠ 0x5C then some (c.toNat, rest)
    else match rest with
      | [] => none
      | e :: s =>
        match letterEscape e with
        | some v => some (v, s)
        | none =>
          if e = 0x78 then takeHex 2 s 0
          else if e = 0x75 || e = 0x55 then do
            let (v, r) ← takeHex (if e = 0x75 then 4 else 8) s 0
            if isScalar v then some (v, r) else none
          else if 0x30 ≤ e && e ≤ 0x37 then
            match s with
            | d1 :: d2 :: r => do
              let v1 ← octalValue d1
              let v2 ← octalValue d2
              let v := (e.toNat - 0x30) * 64 + v1 * 8 + v2
              if v ≤ 255 then some (v, r) else none
            | _ => none
          else if e = 0x27 || e = 0x22 then
            if e = quoteMark then some (e.toNat, s) else none
          else none

/-- Reads a character literal in any of its three spellings. -/
def readLiteral (token : Bytes) : Except LiteralError Nat :=
  match controlWord token with
  | some c => .ok c
  | none =>
    if (decode token).length < 3 || token.head? ≠ some 0x27 || token.getLast? ≠ some 0x27 then
      .error .notLiteral
    else
      match readQuotedChar 0x27 token.tail with
      | none => .error .badSyntax
      | some (v, tail) => if tail = [0x27] then .ok v else .error .notLiteral

theorem caretForm_read : ∀ c : Nat, c < 0x20 → (readLiteral (caretForm c)).toOption = some c := by
  decide +kernel

end ForthMachine.Character
