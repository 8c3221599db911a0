import ForthMachine.Text.Utf8

/-!
# Characters on a terminal

How `emit` writes a character value to the output:

* ASCII (0 to 127) is written as one byte;
* NEL (U+0085) is written as carriage return and line feed;
* the other C1 controls (U+0080 to U+009F) are written in their 7-bit form, escape
  followed by the byte with bits 6 and 7 flipped (so CSI becomes `ESC [`);
* a value that is no scalar value (negative, a surrogate, or past U+10FFFF) is written as
  U+FFFD;
* every other character is written in UTF-8.

The main statement is `terminalBytes_ascii`.
-/

namespace ForthMachine.Character

open ForthMachine.Text

/-- The bytes that show character value `r` on a terminal. -/
def terminalBytes (r : Int) : Bytes :=
  if 0 ≤ r && r < 0x80 then [r.toNat.toUInt8]
  else if r = 0x85 then [0x0D, 0x0A]
  else if 0x80 ≤ r && r ≤ 0x9F then [0x1B, (r.toNat ^^^ 0xC0).toUInt8]
  else if r < 0 then encode replacement
  else encode r.toNat

theorem terminalBytes_ascii (r : Int) (h0 : 0 ≤ r) (h1 : r < 0x80) :
    terminalBytes r = [r.toNat.toUInt8] := by
  simp [terminalBytes, h0, h1]

end ForthMachine.Character
