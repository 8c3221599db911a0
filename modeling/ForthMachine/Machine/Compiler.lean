import ForthMachine.Machine.Compile
import ForthMachine.Machine.Reader

/-!
# The compiler words

The words that are always present, whatever the library: defining colon definitions,
the control structures, the parsing words (comments, strings, characters), and the words
that define data and lay out dictionary space.

* `:` opens a hidden definition; `;` closes it, requiring every control structure to be
  closed, and reveals it. Abandoning a definition restores `here` and `latest`.
* `if … else … then`, `begin … until`, `begin … again`, `begin … while … repeat` and
  `do … loop` / `do … +loop` compile branches and patch them through fixups.
* `."` prints text when interpreting and compiles it otherwise; `s"` leaves the address
  and length of text, stored only transiently at `here` when interpreting.
* `constant`, `variable` and `create` define words that push a value or the address of
  their data field, the dictionary space right after their three-cell body.
-/

namespace ForthMachine

open ForthMachine.Text ForthMachine.Memory

/-- Opens a colon definition. -/
def beginDefinition : Vm Unit := do
  if (← get).compiling then throw .nestedDefinition
  let name ← parseName
  let here := (← get).here
  let latest := (← get).latest
  let h ← define name flagHidden
  modify fun m => { m with openWord := h, openHere := here, openLatest := latest,
                           compiling := true }

/-- Closes the open colon definition. -/
def endDefinition : Vm Unit := do
  let m ← get
  if !m.compiling then throw .compileOnly
  if m.control.depth > 0 then throw (.unbalanced [] m.topFixup)
  let h := m.openWord
  let _ ← compileToken .exit 0
  setFlags h 0 flagHidden
  let m ← get
  trace ";" fun _ => m.wordName h
  modify fun m => { m with openWord := 0, compiling := false }

/-- Makes the newest word immediate. -/
def makeImmediate : Vm Unit := do setFlags (← get).latest flagImmediate 0

/-- Compiles a call of the definition being compiled. -/
def compileRecurse : Vm Unit := do
  let m ← get
  if m.openWord = 0 then throw .compileOnly
  let _ ← compileToken .call (m.openWord + headerSize)

/-- Compiles a literal of the cell on top of the stack. -/
def compileLiteral : Vm Unit := do
  let v ← pop .data
  let _ ← compileOperand .lit v

/-- Compiles a return. -/
def compileExit : Vm Unit := do let _ ← compileToken .exit 0

/-- `if`: a conditional forward branch. -/
def compileIf : Vm Unit := do
  let site ← compileOperand .branch0 0
  pushFixup .ifMark site

/-- `else`: ends the true branch with a jump over the false one. -/
def compileElse : Vm Unit := do
  let site ← popFixup [.ifMark]
  let elseSite ← compileOperand .branch 0
  patch site (← get).here
  pushFixup .elseMark elseSite

/-- `then`: the branch of the innermost `if` or `else` lands here. -/
def compileThen : Vm Unit := do
  let site ← popFixup [.ifMark, .elseMark]
  patch site (← get).here

/-- `begin`: marks where a loop starts. -/
def compileBegin : Vm Unit := do pushFixup .beginMark (← get).here

/-- `until`: jumps back to the `begin` while the flag is zero. -/
def compileUntil : Vm Unit := do
  let site ← popFixup [.beginMark]
  let _ ← compileOperand .branch0 site

/-- `again`: jumps back to the `begin`. -/
def compileAgain : Vm Unit := do
  let site ← popFixup [.beginMark]
  let _ ← compileOperand .branch site

/-- `while`: leaves the loop when the flag is zero. -/
def compileWhile : Vm Unit := do
  let got := (← get).topFixup
  if got ≠ .beginMark then throw (.unbalanced [.beginMark] got)
  let site ← compileOperand .branch0 0
  pushFixup .whileMark site

/-- `repeat`: jumps back to the `begin`; the `while` exit lands after it. -/
def compileRepeat : Vm Unit := do
  let whileSite ← popFixup [.whileMark]
  let beginSite ← popFixup [.beginMark]
  let _ ← compileOperand .branch beginSite
  patch whileSite (← get).here

/-- `do`: enters a counted loop. -/
def compileDo : Vm Unit := do
  let site ← compileOperand .enterLoop 0
  pushFixup .doMark site

/-- Closes a counted loop: steps back to the first token after the `do`, whose leave
address is patched to point past the loop. -/
def closeLoop (k : TokenKind) : Vm Unit := do
  let site ← popFixup [.doMark]
  let _ ← compileOperand k (site + 4)
  patch site (← get).here

/-- Pushes a return stack cell: the loop index is the top, the outer index three down. -/
def pushFromReturn (n : UInt32) : Vm Unit := do
  let v ← peek .ret n
  push .data v

/-- `leave`: jumps to the loop's leave address and drops its frame. -/
def leaveLoop : Vm Unit := do
  let target ← peek .ret 2
  modify fun m => { m with ip := target }
  dropCells .ret 3

/-- `."`: prints text, or compiles it to be printed. -/
def printString : Vm Unit := do
  let text ← parseUntil 0x22
  if !(← get).compiling then emitBytes text
  else
    compileString text
    let _ ← compileToken .prim 0
where
  /-- Compiles a branch over the bytes of `text`, then literals of their address and
  length. -/
  compileString (text : Bytes) : Vm Unit := do
    let site ← compileOperand .branch 0
    let addr ← allocate text.length.toUInt32
    copyIn addr text
    patch site (← get).here
    let _ ← compileOperand .lit addr
    let _ ← compileOperand .lit text.length.toUInt32

/-- `s"`: leaves the address and length of text. -/
def stringLiteral : Vm Unit := do
  let text ← parseUntil 0x22
  if (← get).compiling then printString.compileString text
  else
    let m ← get
    let n := text.length
    if m.here.toNat + n > m.dictLimit.toNat then throw (.noRoomForString n.toUInt32)
    copyIn m.here text
    push .data m.here
    push .data n.toUInt32

/-- The first character of the next name. -/
def parseChar : Vm UInt32 := do
  let name ← parseName
  return ((firstCode name).getD replacement).toUInt32

/-- Defines a word that pushes a constant, or the address of its data field, of which
`size` bytes are allocated. -/
def defineData (constant : Bool) (v size : UInt32) : Vm Unit := do
  let name ← parseName
  let h ← define name 0
  let v := if constant then v else h + headerSize + 12
  let _ ← compileOperand .lit v
  let _ ← compileToken .exit 0
  if size > 0 then let _ ← allocate size

/-- `allot`: reserves data space, or gives it back for a negative count (never below the
newest header). -/
def allotSpace : Vm Unit := do
  let v ← pop .data
  let n := Cell.toInt v
  if n < 0 then
    let dec := alignUp (-n).toNat.toUInt32
    let m ← get
    let floor := m.latest + headerSize
    if m.here < dec || m.here - dec < floor then
      throw (.address ⟨m.here - dec, .allot, .belowLatest⟩)
    set { m with here := m.here - dec }
  else
    let _ ← allocate v

/-- `c,`: reserves a cell and stores a byte at its start. -/
def compileByte : Vm Unit := do
  let v ← pop .data
  let a ← allocate 1
  storByte a v.toUInt8

/-- Runs a compiler word. -/
def CompilerWord.run : CompilerWord → Vm Unit
  | .typeString => do
    let vals ← popN 2
    match vals with
    | [addr, n] =>
      if Cell.toInt n ≤ 0 then pure ()
      else emitBytes (← dataBytes addr n.toNat)
    | _ => pure ()
  | .colon => beginDefinition
  | .semicolon => endDefinition
  | .immediate => makeImmediate
  | .recurse => compileRecurse
  | .literal => compileLiteral
  | .exit => compileExit
  | .ifWord => compileIf
  | .elseWord => compileElse
  | .thenWord => compileThen
  | .begin => compileBegin
  | .untilWord => compileUntil
  | .again => compileAgain
  | .whileWord => compileWhile
  | .repeatWord => compileRepeat
  | .doWord => compileDo
  | .loopWord => closeLoop .stepLoop
  | .plusLoop => closeLoop .stepLoopBy
  | .loopIndex => pushFromReturn 0
  | .outerIndex => pushFromReturn 3
  | .leave => leaveLoop
  | .unloop => dropCells .ret 3
  | .comment => do let _ ← parseUntil 0x29
  | .lineComment => skipLine
  | .dotQuote => printString
  | .sQuote => stringLiteral
  | .char => do push .data (← parseChar)
  | .bracketChar => do let _ ← compileOperand .lit (← parseChar)
  | .constant => do
    let v ← pop .data
    defineData true v 0
  | .variable => defineData false 0 4
  | .create => defineData false 0 0
  | .allot => allotSpace
  | .comma => do
    let v ← pop .data
    let _ ← compileCell v
  | .cComma => compileByte
  | .here => do push .data (← get).here

end ForthMachine
