import ForthMachine.Machine.Dictionary

/-!
# Listing compiled code

`see` shows a word as source again: a builtin as `builtin name`, a colon definition as
`: name token … ;`, followed by ` immediate` and ` hidden` for those flags. Each token is
shown by what it refers to: a primitive or word by name, a literal as a signed decimal,
a branch as its kind and target (`0branch@2260`), anything else by its cell.

A body ends at the first `exit` that no forward branch jumps past. The code compiled for
a string literal (a branch over the bytes, then their address and length as literals) is
shown as the literal it came from: `." text"` when it is followed by the string typing
primitive, `s" text"` otherwise.

The trace shows single tokens the same way.
-/

namespace ForthMachine

open ForthMachine.Text ForthMachine.Memory

/-- The name of a word, or `UNNAMED_h` when it has none. -/
def Machine.nameOrAddr (m : Machine) (h : UInt32) : Bytes :=
  match m.wordName h with
  | [] => Bytes.ofString ("UNNAMED_" ++ toString h.toNat)
  | n => n

/-- A cell of the region, zero when it cannot be read. -/
def Machine.cellAt (m : Machine) (addr : UInt32) : UInt32 :=
  match m.region.loadCell addr with
  | .ok v => v
  | .error _ => 0

/-- Shows the token at `pos` and returns the address after it and its operand. -/
def Machine.showToken (m : Machine) (pos : UInt32) : Bytes × UInt32 :=
  match m.region.loadCell pos with
  | .error _ => (Bytes.ofString ("?@" ++ toString pos.toNat), pos + 4)
  | .ok code =>
    let kind := Token.kind? code
    let hasOperand := match kind with
      | some k => k.hasOperand
      | none => false
    let operand := if hasOperand then m.cellAt (pos + 4) else 0
    let next := if hasOperand then pos + 8 else pos + 4
    let text : Bytes := match kind with
      | some .exit => Bytes.ofString "exit"
      | some .prim =>
        let idx := Token.arg code
        match m.prims[idx.toNat]? with
        | some p => p.name
        | none => Bytes.ofString ("prim#" ++ toString idx.toNat)
      | some .call =>
        let h := Token.arg code - headerSize
        if m.isHeader h then m.nameOrAddr h
        else Bytes.ofString ("call@" ++ toString (Token.arg code).toNat)
      | some .lit => decimalInt (Cell.toInt operand)
      | some k => Bytes.ofString (k.name ++ "@" ++ toString operand.toNat)
      | none => Bytes.ofString "?0x" ++ hexLower code.toNat
    (text, next)

/-- The text of the token at an address, as the trace shows it. -/
def Machine.tokenText (m : Machine) (pos : UInt32) : Bytes := (m.showToken pos).1

/--
Recognizes the code of a string literal at `pos`: a branch over the bytes, then literals
of their address and length, and maybe the string typing primitive. Returns the literal
as source and the address after its code.
-/
def Machine.showString (m : Machine) (pos : UInt32) : Option (Bytes × UInt32) :=
  let load := m.cellAt
  if Token.kind? (load pos) ≠ some .branch then none else
  let data := pos + 8
  let stop := load (pos + 4)
  if stop < data || stop + 16 > m.here || load stop ≠ Token.make .lit 0 ||
      load (stop + 4) ≠ data || load (stop + 8) ≠ Token.make .lit 0 then none else
  let n := load (stop + 12)
  if n > stop - data then none else
  match m.region.slice data n.toNat with
  | .error _ => none
  | .ok text =>
    let next := stop + 16
    if next < m.here && load next = Token.make .prim 0 then
      some (Bytes.ofString ".\" " ++ text ++ Bytes.ofString "\"", next + 4)
    else some (Bytes.ofString "s\" " ++ text ++ Bytes.ofString "\"", next)

/-- Shows the body of a colon definition from `pos`, each token after a blank. `reach` is
the furthest forward branch target seen so far. -/
def Machine.showBody (m : Machine) (pos reach : UInt32) : Bytes :=
  if _h : pos < m.here then
    match m.region.loadCell pos with
    | .error _ => []
    | .ok code =>
      if Token.kind? code = some .exit && pos ≥ reach then [] else
      match m.showString pos with
      | some (text, next) =>
        if next ≤ pos then [] else
        0x20 :: text ++ m.showBody next reach
      | none =>
        let reach := match Token.kind? code with
          | some .branch | some .branch0 | some .enterLoop =>
            match m.region.loadCell (pos + 4) with
            | .ok target => if target > reach then target else reach
            | .error _ => reach
          | _ => reach
        let (text, next) := m.showToken pos
        if next ≤ pos then [] else
        0x20 :: text ++ m.showBody next reach
  else []
termination_by m.here.toNat - pos.toNat
decreasing_by
  all_goals simp only [UInt32.lt_iff_toNat_lt, UInt32.le_iff_toNat_le, Nat.not_le] at *
  all_goals omega

/-- Shows a word as source. -/
def Machine.showWord (m : Machine) (h : UInt32) : Bytes :=
  let flags := m.wordFlags h
  let main :=
    if hasFlag flags flagBuiltin then Bytes.ofString "builtin " ++ m.nameOrAddr h
    else Bytes.ofString ": " ++ m.nameOrAddr h ++ m.showBody (h + headerSize) 0 ++
      Bytes.ofString " ;"
  main ++ (if hasFlag flags flagImmediate then Bytes.ofString " immediate" else []) ++
    (if hasFlag flags flagHidden then Bytes.ofString " hidden" else [])

end ForthMachine
