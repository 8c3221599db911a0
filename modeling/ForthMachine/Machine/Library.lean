import ForthMachine.Machine.Compiler
import ForthMachine.Character.Terminal

/-!
# The builtin library

Stack shuffles, the return stack, arithmetic, comparison and bit operations on cells,
memory access, the number base, output, introspection and execution.

Numbers are printed in the current base with upper-case digits and a trailing space.
Flags are all bits set for true and zero for false. Memory words may only touch the data
space, from cell 4 up to the data limit.
-/

namespace ForthMachine

open ForthMachine.Text ForthMachine.Memory ForthMachine.Character

/-- Applies a two-operand operation; the second operand is the top of the stack. -/
def BinaryOp.apply : BinaryOp → UInt32 → UInt32 → UInt32
  | .add, a, b => a + b
  | .sub, a, b => a - b
  | .mul, a, b => a * b
  | .min, a, b => if Cell.lt b a then b else a
  | .max, a, b => if Cell.lt a b then b else a
  | .eq, a, b => Cell.flag (a == b)
  | .ne, a, b => Cell.flag (a != b)
  | .lt, a, b => Cell.flag (Cell.lt a b)
  | .gt, a, b => Cell.flag (Cell.lt b a)
  | .ult, a, b => Cell.flag (a < b)
  | .and, a, b => a &&& b
  | .or, a, b => a ||| b
  | .xor, a, b => a ^^^ b
  | .lshift, a, b => Cell.shiftLeft a b
  | .rshift, a, b => Cell.shiftRight a b

/-- Applies a one-operand operation. -/
def UnaryOp.apply : UnaryOp → UInt32 → UInt32
  | .negate, a => Cell.neg a
  | .abs, a => Cell.abs a
  | .inc, a => a + 1
  | .dec, a => a - 1
  | .twice, a => a <<< 1
  | .halve, a => Cell.halve a
  | .zeroEq, a => Cell.flag (a == 0)
  | .zeroLt, a => Cell.flag (Cell.toInt a < 0)
  | .zeroGt, a => Cell.flag (Cell.toInt a > 0)
  | .invert, a => ~~~a
  | .cells, a => a * 4
  | .cellPlus, a => a + 4

/-- Pops `arity` cells and pushes back the ones `perm` names, bottom first. -/
def shuffleCells (arity : Nat) (perm : List Nat) : Vm Unit := do
  let vals ← popN arity
  pushAll (perm.map fun i => vals.getD i 0)

/-- Divides the second cell by the top one; fails on a zero divisor. -/
def divideCells (r : DivisionResult) : Vm Unit := do
  let vals ← popN 2
  let a := vals.getD 0 0
  let b := vals.getD 1 0
  if b = 0 then throw .divisionByZero
  match r with
  | .quotient => push .data (Cell.quot a b)
  | .remainder => push .data (Cell.rem a b)
  | .both => pushAll [Cell.rem a b, Cell.quot a b]

/-- What formatting a number panics with in a base outside 2..36. -/
def illegalBasePanic : String := "strconv: illegal AppendInt/FormatInt base"

/-- A cell as a numeral in the current base, upper case. -/
def formatCell (v : UInt32) (unsigned : Bool) : Vm Bytes := do
  let b ← radix
  -- formatting in a base outside 2..36 panics
  if b < 2 || b > 36 then throw (.panicked illegalBasePanic)
  return if unsigned then natDigits b v.toNat else intDigits b (Cell.toInt v)

/-- Enters the word at header `h`, saving the current word and position. -/
def callWord (h : UInt32) : Vm Unit := do
  push .ret (← get).cur
  push .ret (← get).ip
  modify fun m => { m with cur := h, ip := h + headerSize }

/-- A run of spaces, in chunks of at most 64. -/
def writeSpaces (n : Int) : Vm Unit :=
  go n.toNat (n.toNat / 64 + 1)
where
  go (n : Nat) : Nat → Vm Unit
    | 0 => pure ()
    | fuel + 1 =>
      if n = 0 then pure () else do
        emitBytes (List.replicate (min n 64) 0x20)
        go (n - min n 64) fuel

/-- Runs a library word. -/
def LibraryWord.run : LibraryWord → Vm Unit
  | .shuffle arity perm => shuffleCells arity perm
  | .drop n => dropCells .data n.toUInt32
  | .qdup => do
    let v ← peek .data 0
    if v ≠ 0 then push .data v
  | .pick => do
    let n ← pop .data
    let i := Cell.toInt n
    if i < 0 then throw (.stack ⟨.data, .underflow⟩)
    push .data (← peek .data i.toNat.toUInt32)
  | .depth => do push .data (← get).data.depth
  | .toR => do push .ret (← pop .data)
  | .fromR => do push .data (← pop .ret)
  | .fetchR => do push .data (← peek .ret 0)
  | .binary op => do
    let b ← pop .data
    let a ← pop .data
    push .data (op.apply a b)
  | .unary op => do push .data (op.apply (← pop .data))
  | .divide r => divideCells r
  | .pushConst v => push .data v
  | .fetch => do
    let addr ← pop .data
    push .data (← loadData addr)
  | .store => do
    let vals ← popN 2
    storData (vals.getD 1 0) (vals.getD 0 0)
  | .cFetch => do
    let addr ← pop .data
    let p ← dataBytes addr 1
    push .data (p.headD 0).toUInt32
  | .cStore => do
    let vals ← popN 2
    let addr := vals.getD 1 0
    let _ ← dataBytes addr 1
    storByte addr (vals.getD 0 0).toUInt8
  | .plusStore => do
    let vals ← popN 2
    let addr := vals.getD 1 0
    let v ← loadData addr
    storData addr (v + vals.getD 0 0)
  | .setRadix r => storData baseAddr r
  | .emit => do emitBytes (terminalBytes (Cell.toInt (← pop .data)))
  | .dot => do emitBytes ((← formatCell (← pop .data) false) ++ [0x20])
  | .uDot => do emitBytes ((← formatCell (← pop .data) true) ++ [0x20])
  | .dotS => do
    let m ← get
    let mut text := Bytes.ofString ("<" ++ toString m.data.depth.toNat ++ "> ")
    for v in m.cells .data do
      text := text ++ (← formatCell v false) ++ [0x20]
    emitBytes text
  | .cr => emitBytes [0x0A]
  | .space => emitBytes [0x20]
  | .spaces => do writeSpaces (Cell.toInt (← pop .data))
  | .type => CompilerWord.run .typeString
  | .words => do
    let names := (← get).words
    emitBytes ((names.intersperse [0x20]).flatten ++ [0x0A])
  | .see => do
    let name ← parseName
    match (← get).lookup name with
    | none => throw (.unknownName name)
    | some h => emitBytes ((← get).showWord h ++ [0x0A])
  | .tick => do
    let name ← parseName
    match (← get).lookup name with
    | none => throw (.unknownName name)
    | some h => push .data h
  | .execute => do
    let xt ← pop .data
    let m ← get
    if !m.isHeader xt then throw (.noWordAt xt)
    let (flags, _) ← wordInfo xt
    if !(← get).compiling && hasFlag flags flagCompileOnly then throw .compileOnly
    callWord xt

end ForthMachine
