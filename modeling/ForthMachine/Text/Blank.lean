import ForthMachine.Text.Utf8

/-!
# White space

The characters with the Unicode White_Space property, and the splitting of text into
fields separated by runs of them. Bytes that are not valid UTF-8 are never white space.

The main statement is `isWhiteSpace_ascii`: in ASCII, white space is the space and the
controls from tab to carriage return.
-/

namespace ForthMachine.Text

/-- Whether a scalar value has the Unicode White_Space property. -/
def isWhiteSpace (c : Nat) : Bool :=
  (0x09 ≤ c && c ≤ 0x0D) || c = 0x20 || c = 0x85 || c = 0xA0 || c = 0x1680 ||
  (0x2000 ≤ c && c ≤ 0x200A) || c = 0x2028 || c = 0x2029 || c = 0x202F || c = 0x205F ||
  c = 0x3000

/-- Whether a piece of text is white space. -/
def Piece.isWhiteSpace : Piece → Bool
  | .scalar c => Text.isWhiteSpace c
  | .stray _ => false

/-- The maximal runs of pieces that are not white space. -/
def pieceFields (ps : List Piece) : List (List Piece) :=
  match h : ps.dropWhile Piece.isWhiteSpace with
  | [] => []
  | p :: more =>
    have : (more.dropWhile (!·.isWhiteSpace)).length < ps.length := by
      have h1 := (List.dropWhile_suffix (p := (!·.isWhiteSpace)) (l := more)).length_le
      have h2 := (List.dropWhile_suffix (p := Piece.isWhiteSpace) (l := ps)).length_le
      rw [h] at h2
      simp at h2
      omega
    (p :: more.takeWhile (!·.isWhiteSpace)) :: pieceFields (more.dropWhile (!·.isWhiteSpace))
termination_by ps.length

/-- The fields of text: the maximal runs of characters that are not white space. -/
def fields (bs : Bytes) : List Bytes :=
  (pieceFields (decode bs)).map fun f => f.flatMap Piece.bytes

theorem isWhiteSpace_ascii (c : Nat) (h : c < 128) :
    isWhiteSpace c = ((0x09 ≤ c && c ≤ 0x0D) || c = 0x20) := by
  unfold isWhiteSpace
  have : c ≠ 0x85 ∧ c ≠ 0xA0 ∧ c ≠ 0x1680 ∧ ¬ 0x2000 ≤ c ∧ c ≠ 0x2028 ∧ c ≠ 0x2029 ∧
    c ≠ 0x202F ∧ c ≠ 0x205F ∧ c ≠ 0x3000 := by omega
  simp [this]

end ForthMachine.Text
