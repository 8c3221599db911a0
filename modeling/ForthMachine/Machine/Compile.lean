import ForthMachine.Machine.Listing

/-!
# Compiling into the dictionary

Compiling appends cells at `here`: tokens, and the operands that follow some of them.
Referring to a builtin word inlines its primitive token; referring to any other word
compiles a call of its body.

Control structures compile forward branches with a placeholder target and push a fixup
`{kind, site}` on the control stack; the word that closes the structure pops the entry
and patches the site.
-/

namespace ForthMachine

open ForthMachine.Text ForthMachine.Memory

/-- Appends one cell to the dictionary and returns its address. -/
def compileCell (v : UInt32) : Vm UInt32 := do
  let cell ← allocate 4
  storCell cell v
  return cell

/-- Appends a token with an argument. -/
def compileToken (k : TokenKind) (arg : UInt32) : Vm UInt32 := do
  let site ← compileCell (Token.make k arg)
  let m ← get
  trace "+" fun _ => Bytes.ofString ("@" ++ toString site.toNat ++ " ") ++ m.tokenText site
  return site

/-- Appends a token and its operand; returns the operand's address, to patch it later. -/
def compileOperand (k : TokenKind) (v : UInt32) : Vm UInt32 := do
  let _ ← compileCell (Token.make k 0)
  let site ← compileCell v
  let m ← get
  trace "+" fun _ => Bytes.ofString ("@" ++ toString (site - 4).toNat ++ " ") ++
    m.tokenText (site - 4)
  return site

/-- Stores a branch target into an operand cell. -/
def patch (site target : UInt32) : Vm Unit := storCell site target

/-- Pushes a control structure's fixup. -/
def pushFixup (k : Fixup) (site : UInt32) : Vm Unit := do
  push .control k.code
  push .control site

/-- The kind of the innermost open control structure, `none` if there is none. -/
def Machine.topFixup (m : Machine) : Fixup :=
  match m.peek? .control 1 with
  | some c => Fixup.ofCode c
  | none => .none

/-- Pops the innermost fixup, which must be of one of the wanted kinds; returns its site. -/
def popFixup (want : List Fixup) : Vm UInt32 := do
  let got := (← get).topFixup
  if want.contains got then
    let site ← pop .control
    dropCells .control 1
    return site
  else throw (.unbalanced want got)

/-- Whether any open control structure is a counted loop. -/
def Machine.inLoop (m : Machine) : Bool :=
  (List.range (m.control.depth.toNat / 2)).any fun i =>
    m.peek? .control (2 * i + 1).toUInt32 == some Fixup.doMark.code

/-- Compiles a reference to the word at `h`: builtins inline their primitive token, other
words are called. Loop-only words must be inside a counted loop. -/
def compileWord (h : UInt32) : Vm Unit := do
  let (flags, _) ← wordInfo h
  let m ← get
  if hasFlag flags flagLoopOnly && !m.inLoop then throw (.unbalanced [.doMark] m.topFixup)
  if hasFlag flags flagBuiltin then
    let tok ← loadCell (h + headerSize)
    let _ ← compileCell tok
    let m ← get
    trace "+" fun _ => Bytes.ofString ("@" ++ toString (m.here - 4).toNat ++ " ") ++
      m.tokenText (m.here - 4)
  else
    let _ ← compileToken .call (h + headerSize)

end ForthMachine
