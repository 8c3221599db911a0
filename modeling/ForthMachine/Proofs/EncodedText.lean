import Mathlib
import ForthMachine.Text.Blank
import ForthMachine.Text.Quoted

/-!
# Reading encoded text back

Text written in UTF-8 decodes to the scalar values it encodes (`decode_flatMap_encode`). The
bytes of a sequence of two to four bytes all lie at or above `0x80`, so an ASCII byte stands
in encoded text only as the encoding of itself: looking for an ASCII delimiter or an ASCII
prefix in the bytes is looking for it among the scalars (`not_mem_flatMap_encode`,
`ascii_prefix_flatMap_encode`). The fields of a text are read off its pieces one at a time,
white space skipped and a word taken whole (`pieceFields_cons_of_white`,
`pieceFields_cons_of_not_white`).
-/

namespace ForthMachine.Text

/-! ## Bytes of a sequence -/

theorem toNat_toUInt8 {n : Nat} (h : n < 256) : n.toUInt8.toNat = n :=
  UInt8.toNat_ofNat_of_lt' h

theorem toNat_and_mask {x m : UInt8} {n : Nat} (hm : m.toNat = 2 ^ n - 1) :
    (x &&& m).toNat = x.toNat % 2 ^ n := by
  rw [UInt8.toNat_and, hm, Nat.and_two_pow_sub_one_eq_mod]

theorem contBits_eq (b : UInt8) : contBits b = b.toNat % 64 := toNat_and_mask (n := 6) rfl

theorem isContinuation_toUInt8 (n : Nat) : isContinuation (0x80 + n % 64).toUInt8 = true := by
  simp [isContinuation, UInt8.le_iff_toNat_le]
  omega

/-- The lead bytes of sequences, with the range their second byte must lie in. -/
theorem leadShape_two : ∀ q < 30, leadShape (0xC2 + q).toUInt8 = some (2, 0x80, 0xBF) := by
  decide

theorem leadShape_three : ∀ q < 16, leadShape (0xE0 + q).toUInt8 =
    some (3, if q = 0 then 0xA0 else 0x80, if q = 13 then 0x9F else 0xBF) := by
  decide

theorem leadShape_four : ∀ q < 5, leadShape (0xF0 + q).toUInt8 =
    some (4, if q = 0 then 0x90 else 0x80, if q = 4 then 0x8F else 0xBF) := by
  decide

theorem splitPiece_two {b0 b1 lo hi : UInt8} (rest : Bytes) (ha : 0x80 ≤ b0.toNat)
    (hl : leadShape b0 = some (2, lo, hi)) (h1 : lo ≤ b1 ∧ b1 ≤ hi) :
    splitPiece (b0 :: b1 :: rest) =
      some (.scalar (b0.toNat % 32 * 64 + b1.toNat % 64), rest) := by
  have ha : ¬ b0 < 0x80 := by simp [UInt8.lt_iff_toNat_lt]; omega
  simp [splitPiece, ha, hl, h1, contBits_eq, toNat_and_mask (n := 5) (m := 0x1F) rfl]

theorem splitPiece_three {b0 b1 b2 lo hi : UInt8} (rest : Bytes) (ha : 0x80 ≤ b0.toNat)
    (hl : leadShape b0 = some (3, lo, hi)) (h1 : lo ≤ b1 ∧ b1 ≤ hi) (h2 : isContinuation b2) :
    splitPiece (b0 :: b1 :: b2 :: rest) =
      some (.scalar (b0.toNat % 16 * 4096 + b1.toNat % 64 * 64 + b2.toNat % 64), rest) := by
  have ha : ¬ b0 < 0x80 := by simp [UInt8.lt_iff_toNat_lt]; omega
  simp [splitPiece, ha, hl, h1, h2, contBits_eq, toNat_and_mask (n := 4) (m := 0x0F) rfl]

theorem splitPiece_four {b0 b1 b2 b3 lo hi : UInt8} (rest : Bytes) (ha : 0x80 ≤ b0.toNat)
    (hl : leadShape b0 = some (4, lo, hi)) (h1 : lo ≤ b1 ∧ b1 ≤ hi) (h2 : isContinuation b2)
    (h3 : isContinuation b3) :
    splitPiece (b0 :: b1 :: b2 :: b3 :: rest) =
      some (.scalar (b0.toNat % 8 * 262144 + b1.toNat % 64 * 4096 + b2.toNat % 64 * 64 +
        b3.toNat % 64), rest) := by
  have ha : ¬ b0 < 0x80 := by simp [UInt8.lt_iff_toNat_lt]; omega
  simp [splitPiece, ha, hl, h1, h2, h3, contBits_eq, toNat_and_mask (n := 3) (m := 0x07) rfl]

/-! ## Decoding what was encoded -/

/-- Decoding reads an encoded scalar value back, whatever follows it. -/
theorem splitPiece_encode {c : Nat} (hc : isScalar c = true) (rest : Bytes) :
    splitPiece (encode c ++ rest) = some (.scalar c, rest) := by
  have hr : c < 0xD800 ∨ (0xE000 ≤ c ∧ c ≤ 0x10FFFF) := by simpa [isScalar] using hc
  simp only [encode, hc, if_true, encodeScalar]
  split
  · rename_i h1
    have hb : c.toUInt8 < 0x80 := by simp [UInt8.lt_iff_toNat_lt]; omega
    rw [List.singleton_append, splitPiece_ascii hb, toNat_toUInt8 (by omega)]
  -- the continuation bytes carry six bits each
  have hlow : ((0x80 + c % 64).toUInt8).toNat = 0x80 + c % 64 := toNat_toUInt8 (by omega)
  split
  · rename_i h1 h2
    have hb0 : ((0xC0 + c / 64).toUInt8).toNat = 0xC0 + c / 64 := toNat_toUInt8 (by omega)
    have hl := leadShape_two (c / 64 - 2) (by omega)
    rw [show 0xC2 + (c / 64 - 2) = 0xC0 + c / 64 by omega] at hl
    rw [List.cons_append, List.cons_append, List.nil_append,
      splitPiece_two rest (by omega) hl (by simp [UInt8.le_iff_toNat_le]; omega), hb0, hlow]
    congr 3
    omega
  have hmid : ((0x80 + c / 64 % 64).toUInt8).toNat = 0x80 + c / 64 % 64 :=
    toNat_toUInt8 (by omega)
  split
  · -- three bytes: a lead of `E0` needs a large second byte, one of `ED` a small one,
    -- which is where surrogates are left out
    rename_i h1 h2 h3
    have hb0 : ((0xE0 + c / 4096).toUInt8).toNat = 0xE0 + c / 4096 := toNat_toUInt8 (by omega)
    rw [List.cons_append, List.cons_append, List.cons_append, List.nil_append,
      splitPiece_three rest (by omega) (leadShape_three (c / 4096) (by omega))
        (by constructor <;> split <;> simp [UInt8.le_iff_toNat_le] <;> omega)
        (isContinuation_toUInt8 c), hb0, hmid, hlow]
    congr 3
    omega
  · rename_i h1 h2 h3
    have hb0 : ((0xF0 + c / 262144).toUInt8).toNat = 0xF0 + c / 262144 :=
      toNat_toUInt8 (by omega)
    have hhigh : ((0x80 + c / 4096 % 64).toUInt8).toNat = 0x80 + c / 4096 % 64 :=
      toNat_toUInt8 (by omega)
    rw [List.cons_append, List.cons_append, List.cons_append, List.cons_append, List.nil_append,
      splitPiece_four rest (by omega) (leadShape_four (c / 262144) (by omega))
        (by constructor <;> split <;> simp [UInt8.le_iff_toNat_le] <;> omega)
        (isContinuation_toUInt8 _) (isContinuation_toUInt8 c), hb0, hhigh, hmid, hlow]
    congr 3
    omega

/-- Text written in UTF-8 decodes to the scalar values it was written from. -/
theorem decode_flatMap_encode {cs : List Nat} (h : ∀ c ∈ cs, isScalar c = true) :
    decode (cs.flatMap encode) = cs.map .scalar := by
  induction cs with
  | nil => simp [decode, splitPiece]
  | cons c cs ih =>
    rw [List.flatMap_cons, decode_eq_cons (splitPiece_encode (h c (by simp)) _),
      ih fun x hx => h x (by simp [hx]), List.map_cons]

/-! ## ASCII in encoded text -/

theorem encode_of_lt {c : Nat} (h : c < 0x80) : encode c = [c.toUInt8] := by
  have hs : isScalar c = true := by simp [isScalar]; omega
  simp [encode, hs, encodeScalar, h]

/-- Every byte of the encoding of a code point past ASCII lies at or above `0x80`. -/
theorem le_of_mem_encode {c : Nat} (h : 0x80 ≤ c) {b : UInt8} (hb : b ∈ encode c) :
    0x80 ≤ b.toNat := by
  -- the value encoded is `c` or U+FFFD, past ASCII and below U+110000 either way
  have hv : 0x80 ≤ (if isScalar c then c else replacement) ∧
      (if isScalar c then c else replacement) ≤ 0x10FFFF := by
    split
    · rename_i hs
      simp [isScalar] at hs
      omega
    · simp [replacement]
  unfold encode encodeScalar at hb
  generalize (if isScalar c then c else replacement) = v at hv hb
  split at hb
  · omega
  split at hb
  · simp at hb
    rcases hb with rfl | rfl <;> simp <;> omega
  split at hb
  · simp at hb
    rcases hb with rfl | rfl | rfl <;> simp <;> omega
  · simp at hb
    rcases hb with rfl | rfl | rfl | rfl <;> simp <;> omega

/-- An ASCII byte stands in encoded text only where its own code point was written. -/
theorem not_mem_flatMap_encode {b : UInt8} (hb : b < 0x80) {cs : List Nat} (h : b.toNat ∉ cs) :
    b ∉ cs.flatMap encode := by
  simp only [List.mem_flatMap, not_exists, not_and]
  intro c hc hbc
  have hb' : b.toNat < 0x80 := by simpa [UInt8.lt_iff_toNat_lt] using hb
  by_cases hlt : c < 0x80
  · rw [encode_of_lt hlt, List.mem_singleton] at hbc
    subst hbc
    exact h (by rwa [toNat_toUInt8 (by omega)])
  · have := le_of_mem_encode (Nat.le_of_not_lt hlt) hbc
    omega

/-- An ASCII text starts encoded text exactly when its code points start the text. -/
theorem ascii_prefix_flatMap_encode {a : List Nat} (ha : ∀ x ∈ a, x < 0x80) {cs : List Nat} :
    a.map Nat.toUInt8 <+: cs.flatMap encode ↔ a <+: cs := by
  induction a generalizing cs with
  | nil => simp
  | cons x a ih =>
    have hx : x < 0x80 := ha x (by simp)
    cases cs with
    | nil => simp
    | cons c cs =>
      rw [List.flatMap_cons, List.map_cons, List.cons_prefix_cons]
      by_cases hc : c < 0x80
      · rw [encode_of_lt hc, List.singleton_append, List.cons_prefix_cons,
          ih fun y hy => ha y (by simp [hy])]
        have : x.toUInt8 = c.toUInt8 ↔ x = c := by
          constructor
          · intro h
            have := congrArg UInt8.toNat h
            rwa [toNat_toUInt8 (by omega), toNat_toUInt8 (by omega)] at this
          · rintro rfl
            rfl
        rw [this]
      · -- the encoding of `c` starts with a byte past ASCII, which no ASCII text matches
        obtain ⟨b, bs, he⟩ : ∃ b bs, encode c = b :: bs := by
          cases h : encode c with
          | nil =>
            have := (encodeScalar_length (if isScalar c then c else replacement)).1
            simp [encode] at h
            simp [h] at this
          | cons b bs => exact ⟨b, bs, rfl⟩
        have hb := le_of_mem_encode (Nat.le_of_not_lt hc) (b := b) (by simp [he])
        rw [he, List.cons_append, List.cons_prefix_cons]
        constructor
        · rintro ⟨rfl, -⟩
          rw [toNat_toUInt8 (by omega)] at hb
          omega
        · rintro ⟨rfl, -⟩
          omega

/-! ## Fields -/

/-- The fields of pieces depend only on what is left once leading white space is dropped. -/
theorem pieceFields_eq_of_dropWhile {ps qs : List Piece}
    (h : ps.dropWhile Piece.isWhiteSpace = qs.dropWhile Piece.isWhiteSpace) :
    pieceFields ps = pieceFields qs := by
  rw [pieceFields, pieceFields]
  split <;> split <;> simp_all

theorem pieceFields_nil : pieceFields [] = [] := by
  rw [pieceFields]
  rfl

theorem pieceFields_cons_of_white {p : Piece} (hp : p.isWhiteSpace = true) (ps : List Piece) :
    pieceFields (p :: ps) = pieceFields ps :=
  pieceFields_eq_of_dropWhile (by simp [hp])

/-- A piece that is not white space starts a field that runs up to the next white space. -/
theorem pieceFields_cons_of_not_white {p : Piece} (hp : p.isWhiteSpace = false)
    (ps : List Piece) :
    pieceFields (p :: ps) =
      (p :: ps.takeWhile (!·.isWhiteSpace)) :: pieceFields (ps.dropWhile (!·.isWhiteSpace)) := by
  rw [pieceFields]
  split
  · simp_all
  · rename_i q more h
    simp only [List.dropWhile_cons, hp] at h
    simp at h
    obtain ⟨rfl, rfl⟩ := h
    rfl

end ForthMachine.Text
