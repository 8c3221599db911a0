import ForthMachine.Machine.State

/-!
# The vocabulary

The words a machine starts with, in the order they are installed: the runtime word that
compiled strings use, the compiler words (always present), the builtin library (which a
host may replace), and the block words (present with a block device). Host primitives
come last, so that they may shadow any of these.

Primitive numbers are positions in this installation order, the runtime word being
number 0; a compiled `."` refers to it by that number.
-/

namespace ForthMachine

open ForthMachine.Text

/-- A primitive with a name given as text. -/
def Primitive.named (name : String) (flags : UInt8) (a : Action) : Primitive :=
  ⟨Bytes.ofString name, flags, some a⟩

/-- Words that may only be compiled, and run while compiling. -/
def compilingWord : UInt8 := flagImmediate ||| flagCompileOnly

/-- The runtime words, present before any other: primitive 0 types a compiled string. -/
def runtimeWords : List Primitive :=
  [.named "(type)" 0 (.compiler .typeString)]

/-- The compiler words, present in every machine. -/
def compilerWords : List Primitive :=
  let c := fun (name : String) (flags : UInt8) (w : CompilerWord) =>
    Primitive.named name flags (.compiler w)
  [c ":" flagImmediate .colon,
   c ";" compilingWord .semicolon,
   c "immediate" 0 .immediate,
   c "recurse" compilingWord .recurse,
   c "literal" compilingWord .literal,
   c "exit" compilingWord .exit,
   c "if" compilingWord .ifWord,
   c "else" compilingWord .elseWord,
   c "then" compilingWord .thenWord,
   c "begin" compilingWord .begin,
   c "until" compilingWord .untilWord,
   c "again" compilingWord .again,
   c "while" compilingWord .whileWord,
   c "repeat" compilingWord .repeatWord,
   c "do" compilingWord .doWord,
   c "loop" compilingWord .loopWord,
   c "+loop" compilingWord .plusLoop,
   c "i" (flagCompileOnly ||| flagLoopOnly) .loopIndex,
   c "j" (flagCompileOnly ||| flagLoopOnly) .outerIndex,
   c "leave" (flagCompileOnly ||| flagLoopOnly) .leave,
   c "unloop" (flagCompileOnly ||| flagLoopOnly) .unloop,
   c "(" flagImmediate .comment,
   c "\\" flagImmediate .lineComment,
   c ".\"" flagImmediate .dotQuote,
   c "s\"" flagImmediate .sQuote,
   c "char" 0 .char,
   c "[char]" compilingWord .bracketChar,
   c "constant" 0 .constant,
   c "variable" 0 .variable,
   c "create" 0 .create,
   c "allot" 0 .allot,
   c "," 0 .comma,
   c "c," 0 .cComma,
   c "here" 0 .here]

/-- The builtin library: stack, return stack, arithmetic, comparison, bits, memory, number
base, output, introspection and execution. -/
def builtinLibrary : List Primitive :=
  let l := fun (name : String) (flags : UInt8) (w : LibraryWord) =>
    Primitive.named name flags (.library w)
  [l "dup" 0 (.shuffle 1 [0, 0]),
   l "drop" 0 (.drop 1),
   l "swap" 0 (.shuffle 2 [1, 0]),
   l "over" 0 (.shuffle 2 [0, 1, 0]),
   l "rot" 0 (.shuffle 3 [1, 2, 0]),
   l "-rot" 0 (.shuffle 3 [2, 0, 1]),
   l "nip" 0 (.shuffle 2 [1]),
   l "tuck" 0 (.shuffle 2 [1, 0, 1]),
   l "?dup" 0 .qdup,
   l "pick" 0 .pick,
   l "depth" 0 .depth,
   l "2dup" 0 (.shuffle 2 [0, 1, 0, 1]),
   l "2drop" 0 (.drop 2),
   l "2swap" 0 (.shuffle 4 [2, 3, 0, 1]),
   l "2over" 0 (.shuffle 4 [0, 1, 2, 3, 0, 1]),
   l ">r" flagCompileOnly .toR,
   l "r>" flagCompileOnly .fromR,
   l "r@" flagCompileOnly .fetchR,
   l "+" 0 (.binary .add),
   l "-" 0 (.binary .sub),
   l "*" 0 (.binary .mul),
   l "/" 0 (.divide .quotient),
   l "mod" 0 (.divide .remainder),
   l "/mod" 0 (.divide .both),
   l "negate" 0 (.unary .negate),
   l "abs" 0 (.unary .abs),
   l "min" 0 (.binary .min),
   l "max" 0 (.binary .max),
   l "1+" 0 (.unary .inc),
   l "1-" 0 (.unary .dec),
   l "2*" 0 (.unary .twice),
   l "2/" 0 (.unary .halve),
   l "=" 0 (.binary .eq),
   l "<>" 0 (.binary .ne),
   l "<" 0 (.binary .lt),
   l ">" 0 (.binary .gt),
   l "u<" 0 (.binary .ult),
   l "0=" 0 (.unary .zeroEq),
   l "0<" 0 (.unary .zeroLt),
   l "0>" 0 (.unary .zeroGt),
   l "true" 0 (.pushConst 0xFFFFFFFF),
   l "false" 0 (.pushConst 0),
   l "and" 0 (.binary .and),
   l "or" 0 (.binary .or),
   l "xor" 0 (.binary .xor),
   l "invert" 0 (.unary .invert),
   l "lshift" 0 (.binary .lshift),
   l "rshift" 0 (.binary .rshift),
   l "@" 0 .fetch,
   l "!" 0 .store,
   l "c@" 0 .cFetch,
   l "c!" 0 .cStore,
   l "+!" 0 .plusStore,
   l "cells" 0 (.unary .cells),
   l "cell+" 0 (.unary .cellPlus),
   l "base" 0 (.pushConst baseAddr),
   l "hex" 0 (.setRadix 16),
   l "decimal" 0 (.setRadix 10),
   l "emit" 0 .emit,
   l "." 0 .dot,
   l "u." 0 .uDot,
   l ".s" 0 .dotS,
   l "cr" 0 .cr,
   l "space" 0 .space,
   l "spaces" 0 .spaces,
   l "type" 0 .type,
   l "words" 0 .words,
   l "see" 0 .see,
   l "'" 0 .tick,
   l "execute" 0 .execute]

/-- The block words, present with a block device. -/
def blockWords : List Primitive :=
  let b := fun (name : String) (w : BlockWord) => Primitive.named name 0 (.blocks w)
  [b "block" .block,
   b "buffer" .buffer,
   b "empty-buffers" .emptyBuffers,
   b "update" .update,
   b "flush" .flush]

/-- The primitive number of the runtime word that types compiled strings. -/
theorem runtimeWords_typeString :
    runtimeWords[0]? = some (.named "(type)" 0 (.compiler .typeString)) := rfl

end ForthMachine
