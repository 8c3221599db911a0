import ForthMachine.Text.Utf8
import ForthMachine.Text.Printable
import ForthMachine.Text.Numeral

/-!
# Quoted text

Messages show names and input text in double quotes, written so that every byte string
has one quoted form and the form is printable ASCII or printable Unicode:

* a double quote and a backslash get a backslash in front;
* a printable character stands as itself;
* the seven C escapes `\a \b \f \n \r \t \v` stand for their control characters;
* any other character below U+0020, and U+007F, is `\xNN`;
* any other character is `\uNNNN`, or `\UNNNNNNNN` past U+FFFF;
* a stray byte (one that starts no UTF-8 sequence) is `\xNN`.

Hexadecimal digits are lower case, padded to the width of the escape.

The main statement is `quote_plain`: text of printable ASCII without quotes or
backslashes is quoted by adding the two quote marks.
-/

namespace ForthMachine.Text

/-- `n` in lower-case hexadecimal, padded with zeros to `width` digits. -/
def hexPadded (width : Nat) (n : Nat) : Bytes :=
  let ds := hexLower n
  List.replicate (width - ds.length) 0x30 ++ ds

/-- The escaped form of one character inside quotes. -/
def escapeCode (c : Nat) : Bytes :=
  if c = 0x22 || c = 0x5C then [0x5C, c.toUInt8]
  else if isPrintable c then encode c
  else if c = 0x07 then [0x5C, 0x61]
  else if c = 0x08 then [0x5C, 0x62]
  else if c = 0x0C then [0x5C, 0x66]
  else if c = 0x0A then [0x5C, 0x6E]
  else if c = 0x0D then [0x5C, 0x72]
  else if c = 0x09 then [0x5C, 0x74]
  else if c = 0x0B then [0x5C, 0x76]
  else if c < 0x20 || c = 0x7F then [0x5C, 0x78] ++ hexPadded 2 c
  else if c < 0x10000 then [0x5C, 0x75] ++ hexPadded 4 c
  else [0x5C, 0x55] ++ hexPadded 8 c

/-- The escaped form of one piece: stray bytes as `\xNN`. -/
def escapePiece : Piece → Bytes
  | .scalar c => escapeCode c
  | .stray b => [0x5C, 0x78] ++ hexByte b

/-- A byte string in double quotes, escaped as described above. -/
def quote (bs : Bytes) : Bytes :=
  [0x22] ++ (decode bs).flatMap escapePiece ++ [0x22]

/-- A list of byte strings, each quoted, separated by spaces, in square brackets. -/
def quoteList (items : List Bytes) : Bytes :=
  [0x5B] ++ ((items.map quote).intersperse [0x20]).flatten ++ [0x5D]

/-- A printable ASCII character other than a double quote or a backslash. -/
def isPlain (b : UInt8) : Bool := 0x20 ≤ b && b < 0x7F && b != 0x22 && b != 0x5C

theorem splitPiece_ascii {b : UInt8} (h : b < 0x80) (bs : Bytes) :
    splitPiece (b :: bs) = some (.scalar b.toNat, bs) := by
  simp [splitPiece, h]

theorem decode_eq_cons {bs rest : Bytes} {p : Piece} (h : splitPiece bs = some (p, rest)) :
    decode bs = p :: decode rest := by
  rw [decode]
  split
  · simp_all
  · rename_i h'
    rw [h] at h'
    cases h'
    rfl

theorem decode_ascii_cons {b : UInt8} (h : b < 0x80) (bs : Bytes) :
    decode (b :: bs) = .scalar b.toNat :: decode bs :=
  decode_eq_cons (splitPiece_ascii h bs)

theorem escapeCode_plain {b : UInt8} (h : isPlain b = true) : escapeCode b.toNat = [b] := by
  simp only [isPlain, Bool.and_eq_true, decide_eq_true_eq, bne_iff_ne, ne_eq] at h
  obtain ⟨⟨⟨h1, h2⟩, h3⟩, h4⟩ := h
  simp [UInt8.le_iff_toNat_le, UInt8.lt_iff_toNat_lt] at h1 h2
  have n1 : b.toNat ≠ 0x22 := fun e => h3 (UInt8.toNat_inj.mp (by simpa using e))
  have n2 : b.toNat ≠ 0x5C := fun e => h4 (UInt8.toNat_inj.mp (by simpa using e))
  have ha : b.toNat < 128 := by omega
  have hp : isPrintable b.toNat = true := by
    simp [isPrintable, ha]; omega
  have hs : isScalar b.toNat = true := by simp [isScalar]; omega
  simp [escapeCode, n1, n2, hp, encode, encodeScalar, hs, ha]

theorem quote_plain (bs : Bytes) (h : ∀ b ∈ bs, isPlain b = true) :
    quote bs = [0x22] ++ bs ++ [0x22] := by
  suffices hs : (decode bs).flatMap escapePiece = bs by simp [quote, hs]
  induction bs with
  | nil => simp [decode, splitPiece]
  | cons b bs ih =>
    have hb := h b (by simp)
    have hlt : b < 0x80 := by
      simp only [isPlain, Bool.and_eq_true, decide_eq_true_eq] at hb
      simp [UInt8.lt_iff_toNat_lt] at hb ⊢
      omega
    rw [decode_ascii_cons hlt]
    simp [escapePiece, escapeCode_plain hb, ih (fun x hx => h x (by simp [hx]))]

end ForthMachine.Text
