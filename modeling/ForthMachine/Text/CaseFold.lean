import ForthMachine.Text.Utf8

/-!
# Simple case folding

Unicode's simple case folding (version 17.0) maps each code point to one code point; two
code points are the same up to case when they fold alike. The classes this makes can have
more than two members: `k`, `K` and the Kelvin sign, or `s`, `S` and the long s.

Each class is named here by its least member, its *case key*. The table lists, as runs of
code points, every code point whose case key is not itself; all others are their own key.
Two texts are equal up to case when they have as many code points and each pair has one key.

The main statement is `equalFold_refl`.
-/

namespace ForthMachine.Text

/-- A run of code points from `lo` to `hi`: every `stride`-th of them, counting from `lo`,
has the case key `c + shift`; the code points between are their own keys. -/
structure FoldRun where
  lo : Nat
  hi : Nat
  shift : Int
  stride : Nat

/-- The runs of code points whose case key is another code point, ascending and disjoint. -/
def foldRuns : Array FoldRun := #[
  ⟨0x61, 0x7A, -32, 1⟩, ⟨0xE0, 0xF6, -32, 1⟩, ⟨0xF8, 0xFE, -32, 1⟩, ⟨0x101, 0x12F, -1, 2⟩,
  ⟨0x133, 0x137, -1, 2⟩, ⟨0x13A, 0x148, -1, 2⟩, ⟨0x14B, 0x177, -1, 2⟩, ⟨0x178, 0x178, -121, 1⟩,
  ⟨0x17A, 0x17E, -1, 2⟩, ⟨0x17F, 0x17F, -300, 1⟩, ⟨0x183, 0x185, -1, 2⟩, ⟨0x188, 0x188, -1, 1⟩,
  ⟨0x18C, 0x18C, -1, 1⟩, ⟨0x192, 0x192, -1, 1⟩, ⟨0x199, 0x199, -1, 1⟩, ⟨0x1A1, 0x1A5, -1, 2⟩,
  ⟨0x1A8, 0x1A8, -1, 1⟩, ⟨0x1AD, 0x1AD, -1, 1⟩, ⟨0x1B0, 0x1B0, -1, 1⟩, ⟨0x1B4, 0x1B6, -1, 2⟩,
  ⟨0x1B9, 0x1B9, -1, 1⟩, ⟨0x1BD, 0x1BD, -1, 1⟩, ⟨0x1C5, 0x1C5, -1, 1⟩, ⟨0x1C6, 0x1C6, -2, 1⟩,
  ⟨0x1C8, 0x1C8, -1, 1⟩, ⟨0x1C9, 0x1C9, -2, 1⟩, ⟨0x1CB, 0x1CB, -1, 1⟩, ⟨0x1CC, 0x1CC, -2, 1⟩,
  ⟨0x1CE, 0x1DC, -1, 2⟩, ⟨0x1DD, 0x1DD, -79, 1⟩, ⟨0x1DF, 0x1EF, -1, 2⟩, ⟨0x1F2, 0x1F2, -1, 1⟩,
  ⟨0x1F3, 0x1F3, -2, 1⟩, ⟨0x1F5, 0x1F5, -1, 1⟩, ⟨0x1F6, 0x1F6, -97, 1⟩, ⟨0x1F7, 0x1F7, -56, 1⟩,
  ⟨0x1F9, 0x21F, -1, 2⟩, ⟨0x220, 0x220, -130, 1⟩, ⟨0x223, 0x233, -1, 2⟩, ⟨0x23C, 0x23C, -1, 1⟩,
  ⟨0x23D, 0x23D, -163, 1⟩, ⟨0x242, 0x242, -1, 1⟩, ⟨0x243, 0x243, -195, 1⟩, ⟨0x247, 0x24F, -1, 2⟩,
  ⟨0x253, 0x253, -210, 1⟩, ⟨0x254, 0x254, -206, 1⟩, ⟨0x256, 0x257, -205, 1⟩,
  ⟨0x259, 0x259, -202, 1⟩, ⟨0x25B, 0x25B, -203, 1⟩, ⟨0x260, 0x260, -205, 1⟩,
  ⟨0x263, 0x263, -207, 1⟩, ⟨0x268, 0x268, -209, 1⟩, ⟨0x269, 0x269, -211, 1⟩,
  ⟨0x26F, 0x26F, -211, 1⟩, ⟨0x272, 0x272, -213, 1⟩, ⟨0x275, 0x275, -214, 1⟩,
  ⟨0x280, 0x280, -218, 1⟩, ⟨0x283, 0x283, -218, 1⟩, ⟨0x288, 0x288, -218, 1⟩, ⟨0x289, 0x289, -69, 1⟩,
  ⟨0x28A, 0x28B, -217, 1⟩, ⟨0x28C, 0x28C, -71, 1⟩, ⟨0x292, 0x292, -219, 1⟩, ⟨0x371, 0x373, -1, 2⟩,
  ⟨0x377, 0x377, -1, 1⟩, ⟨0x399, 0x399, -84, 1⟩, ⟨0x39C, 0x39C, -743, 1⟩, ⟨0x3AC, 0x3AC, -38, 1⟩,
  ⟨0x3AD, 0x3AF, -37, 1⟩, ⟨0x3B1, 0x3B8, -32, 1⟩, ⟨0x3B9, 0x3B9, -116, 1⟩, ⟨0x3BA, 0x3BB, -32, 1⟩,
  ⟨0x3BC, 0x3BC, -775, 1⟩, ⟨0x3BD, 0x3C1, -32, 1⟩, ⟨0x3C2, 0x3C2, -31, 1⟩, ⟨0x3C3, 0x3CB, -32, 1⟩,
  ⟨0x3CC, 0x3CC, -64, 1⟩, ⟨0x3CD, 0x3CE, -63, 1⟩, ⟨0x3D0, 0x3D0, -62, 1⟩, ⟨0x3D1, 0x3D1, -57, 1⟩,
  ⟨0x3D5, 0x3D5, -47, 1⟩, ⟨0x3D6, 0x3D6, -54, 1⟩, ⟨0x3D7, 0x3D7, -8, 1⟩, ⟨0x3D9, 0x3EF, -1, 2⟩,
  ⟨0x3F0, 0x3F0, -86, 1⟩, ⟨0x3F1, 0x3F1, -80, 1⟩, ⟨0x3F3, 0x3F3, -116, 1⟩, ⟨0x3F4, 0x3F4, -92, 1⟩,
  ⟨0x3F5, 0x3F5, -96, 1⟩, ⟨0x3F8, 0x3F8, -1, 1⟩, ⟨0x3F9, 0x3F9, -7, 1⟩, ⟨0x3FB, 0x3FB, -1, 1⟩,
  ⟨0x3FD, 0x3FF, -130, 1⟩, ⟨0x430, 0x44F, -32, 1⟩, ⟨0x450, 0x45F, -80, 1⟩, ⟨0x461, 0x481, -1, 2⟩,
  ⟨0x48B, 0x4BF, -1, 2⟩, ⟨0x4C2, 0x4CE, -1, 2⟩, ⟨0x4CF, 0x4CF, -15, 1⟩, ⟨0x4D1, 0x52F, -1, 2⟩,
  ⟨0x561, 0x586, -48, 1⟩, ⟨0x13F8, 0x13FD, -8, 1⟩, ⟨0x1C80, 0x1C80, -6254, 1⟩,
  ⟨0x1C81, 0x1C81, -6253, 1⟩, ⟨0x1C82, 0x1C82, -6244, 1⟩, ⟨0x1C83, 0x1C84, -6242, 1⟩,
  ⟨0x1C85, 0x1C85, -6243, 1⟩, ⟨0x1C86, 0x1C86, -6236, 1⟩, ⟨0x1C87, 0x1C87, -6181, 1⟩,
  ⟨0x1C8A, 0x1C8A, -1, 1⟩, ⟨0x1C90, 0x1CBA, -3008, 1⟩, ⟨0x1CBD, 0x1CBF, -3008, 1⟩,
  ⟨0x1E01, 0x1E95, -1, 2⟩, ⟨0x1E9B, 0x1E9B, -59, 1⟩, ⟨0x1E9E, 0x1E9E, -7615, 1⟩,
  ⟨0x1EA1, 0x1EFF, -1, 2⟩, ⟨0x1F08, 0x1F0F, -8, 1⟩, ⟨0x1F18, 0x1F1D, -8, 1⟩,
  ⟨0x1F28, 0x1F2F, -8, 1⟩, ⟨0x1F38, 0x1F3F, -8, 1⟩, ⟨0x1F48, 0x1F4D, -8, 1⟩,
  ⟨0x1F59, 0x1F5F, -8, 2⟩, ⟨0x1F68, 0x1F6F, -8, 1⟩, ⟨0x1F88, 0x1F8F, -8, 1⟩,
  ⟨0x1F98, 0x1F9F, -8, 1⟩, ⟨0x1FA8, 0x1FAF, -8, 1⟩, ⟨0x1FB8, 0x1FB9, -8, 1⟩,
  ⟨0x1FBA, 0x1FBB, -74, 1⟩, ⟨0x1FBC, 0x1FBC, -9, 1⟩, ⟨0x1FBE, 0x1FBE, -7289, 1⟩,
  ⟨0x1FC8, 0x1FCB, -86, 1⟩, ⟨0x1FCC, 0x1FCC, -9, 1⟩, ⟨0x1FD3, 0x1FD3, -7235, 1⟩,
  ⟨0x1FD8, 0x1FD9, -8, 1⟩, ⟨0x1FDA, 0x1FDB, -100, 1⟩, ⟨0x1FE3, 0x1FE3, -7219, 1⟩,
  ⟨0x1FE8, 0x1FE9, -8, 1⟩, ⟨0x1FEA, 0x1FEB, -112, 1⟩, ⟨0x1FEC, 0x1FEC, -7, 1⟩,
  ⟨0x1FF8, 0x1FF9, -128, 1⟩, ⟨0x1FFA, 0x1FFB, -126, 1⟩, ⟨0x1FFC, 0x1FFC, -9, 1⟩,
  ⟨0x2126, 0x2126, -7549, 1⟩, ⟨0x212A, 0x212A, -8415, 1⟩, ⟨0x212B, 0x212B, -8294, 1⟩,
  ⟨0x214E, 0x214E, -28, 1⟩, ⟨0x2170, 0x217F, -16, 1⟩, ⟨0x2184, 0x2184, -1, 1⟩,
  ⟨0x24D0, 0x24E9, -26, 1⟩, ⟨0x2C30, 0x2C5F, -48, 1⟩, ⟨0x2C61, 0x2C61, -1, 1⟩,
  ⟨0x2C62, 0x2C62, -10743, 1⟩, ⟨0x2C63, 0x2C63, -3814, 1⟩, ⟨0x2C64, 0x2C64, -10727, 1⟩,
  ⟨0x2C65, 0x2C65, -10795, 1⟩, ⟨0x2C66, 0x2C66, -10792, 1⟩, ⟨0x2C68, 0x2C6C, -1, 2⟩,
  ⟨0x2C6D, 0x2C6D, -10780, 1⟩, ⟨0x2C6E, 0x2C6E, -10749, 1⟩, ⟨0x2C6F, 0x2C6F, -10783, 1⟩,
  ⟨0x2C70, 0x2C70, -10782, 1⟩, ⟨0x2C73, 0x2C73, -1, 1⟩, ⟨0x2C76, 0x2C76, -1, 1⟩,
  ⟨0x2C7E, 0x2C7F, -10815, 1⟩, ⟨0x2C81, 0x2CE3, -1, 2⟩, ⟨0x2CEC, 0x2CEE, -1, 2⟩,
  ⟨0x2CF3, 0x2CF3, -1, 1⟩, ⟨0x2D00, 0x2D25, -7264, 1⟩, ⟨0x2D27, 0x2D27, -7264, 1⟩,
  ⟨0x2D2D, 0x2D2D, -7264, 1⟩, ⟨0xA641, 0xA649, -1, 2⟩, ⟨0xA64A, 0xA64A, -35266, 1⟩,
  ⟨0xA64B, 0xA64B, -35267, 1⟩, ⟨0xA64D, 0xA66D, -1, 2⟩, ⟨0xA681, 0xA69B, -1, 2⟩,
  ⟨0xA723, 0xA72F, -1, 2⟩, ⟨0xA733, 0xA76F, -1, 2⟩, ⟨0xA77A, 0xA77C, -1, 2⟩,
  ⟨0xA77D, 0xA77D, -35332, 1⟩, ⟨0xA77F, 0xA787, -1, 2⟩, ⟨0xA78C, 0xA78C, -1, 1⟩,
  ⟨0xA78D, 0xA78D, -42280, 1⟩, ⟨0xA791, 0xA793, -1, 2⟩, ⟨0xA797, 0xA7A9, -1, 2⟩,
  ⟨0xA7AA, 0xA7AA, -42308, 1⟩, ⟨0xA7AB, 0xA7AB, -42319, 1⟩, ⟨0xA7AC, 0xA7AC, -42315, 1⟩,
  ⟨0xA7AD, 0xA7AD, -42305, 1⟩, ⟨0xA7AE, 0xA7AE, -42308, 1⟩, ⟨0xA7B0, 0xA7B0, -42258, 1⟩,
  ⟨0xA7B1, 0xA7B1, -42282, 1⟩, ⟨0xA7B2, 0xA7B2, -42261, 1⟩, ⟨0xA7B5, 0xA7C3, -1, 2⟩,
  ⟨0xA7C4, 0xA7C4, -48, 1⟩, ⟨0xA7C5, 0xA7C5, -42307, 1⟩, ⟨0xA7C6, 0xA7C6, -35384, 1⟩,
  ⟨0xA7C8, 0xA7CA, -1, 2⟩, ⟨0xA7CB, 0xA7CB, -42343, 1⟩, ⟨0xA7CD, 0xA7DB, -1, 2⟩,
  ⟨0xA7DC, 0xA7DC, -42561, 1⟩, ⟨0xA7F6, 0xA7F6, -1, 1⟩, ⟨0xAB53, 0xAB53, -928, 1⟩,
  ⟨0xAB70, 0xABBF, -38864, 1⟩, ⟨0xFB06, 0xFB06, -1, 1⟩, ⟨0xFF41, 0xFF5A, -32, 1⟩,
  ⟨0x10428, 0x1044F, -40, 1⟩, ⟨0x104D8, 0x104FB, -40, 1⟩, ⟨0x10597, 0x105A1, -39, 1⟩,
  ⟨0x105A3, 0x105B1, -39, 1⟩, ⟨0x105B3, 0x105B9, -39, 1⟩, ⟨0x105BB, 0x105BC, -39, 1⟩,
  ⟨0x10CC0, 0x10CF2, -64, 1⟩, ⟨0x10D70, 0x10D85, -32, 1⟩, ⟨0x118C0, 0x118DF, -32, 1⟩,
  ⟨0x16E60, 0x16E7F, -32, 1⟩, ⟨0x16EBB, 0x16ED3, -27, 1⟩, ⟨0x1E922, 0x1E943, -34, 1⟩]

/-- The case key of a code point inside a run. -/
def FoldRun.key (r : FoldRun) (c : Nat) : Nat :=
  if (c - r.lo) % r.stride = 0 then (c + r.shift).toNat else c

/-- Finds the run holding `c` among `rs[lo:hi]` by bisection, and gives its case key. -/
def keyIn (rs : Array FoldRun) (c : Nat) (lo hi : Nat) : Nat :=
  if _h : lo < hi then
    let mid := (lo + hi) / 2
    match rs[mid]? with
    | none => c
    | some r =>
      if c < r.lo then keyIn rs c lo mid
      else if r.hi < c then keyIn rs c (mid + 1) hi
      else r.key c
  else c
termination_by hi - lo

/-- The case key of a code point: the least code point with the same simple case folding. -/
def caseKey (c : Nat) : Nat := keyIn foldRuns c 0 foldRuns.size

/-- Whether two byte strings are equal as text up to simple case folding; a stray byte reads
as U+FFFD. -/
def equalFold (a b : Bytes) : Bool :=
  (codes a).map caseKey == (codes b).map caseKey

theorem equalFold_refl (a : Bytes) : equalFold a a = true := by
  simp [equalFold]

example : caseKey 0x212A = 0x4B ∧ caseKey 0x6B = 0x4B ∧ caseKey 0x17F = 0x53 := by decide +kernel
example : caseKey 0x3C2 = 0x3A3 ∧ caseKey 0x1C6 = 0x1C4 ∧ caseKey 0x130 = 0x130 := by decide +kernel

end ForthMachine.Text
