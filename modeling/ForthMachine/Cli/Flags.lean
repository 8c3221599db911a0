import ForthMachine.Text.Quoted

/-!
# Command-line flags

Flags come before the other arguments: `-name`, `--name`, `-name=value`, or `-name value`
for flags that take a value. Parsing stops at the first argument that is not a flag (a
lone `-` is none), or after `--`. A boolean flag takes a value only after `=`. A flag may
be given again; the last value wins. `-h` and `-help` ask for the usage text unless a
flag of that name exists.

Integer values are read like integer literals: an optional sign, then digits in decimal,
or in binary, octal or hexadecimal after `0b`, `0o` or `0x` (a bare leading `0` means
octal), with underscores allowed between digits. Boolean values are `1`, `t`, `T`,
`TRUE`, `true`, `True` and their opposites with `0`, `f` and `F`.

The usage text lists every flag in name order with its type and description, and its
default when that is not the zero value.

The main statement is `parse_stop`: an argument that does not start with a dash ends the
flags.
-/

namespace ForthMachine.Cli

open ForthMachine.Text

/-- The type of a flag's value, with its default. -/
inductive FlagKind where
  | int (default : Int)
  | bool (default : Bool)
  | text (default : String)

/-- A flag: its name, type and default, and description. -/
structure Flag where
  name : String
  kind : FlagKind
  usage : String

/-- A flag's value. -/
inductive FlagValue where
  | int (v : Int)
  | bool (b : Bool)
  | text (s : String)
  deriving DecidableEq, Repr

/-- Why the flags could not be parsed. -/
inductive FlagError where
  /-- The usage text was asked for. -/
  | help
  | notDefined (name : String)
  | badSyntax (arg : String)
  | needsArgument (name : String)
  /-- A value that does not read as the flag's type; `range` tells it was too large. -/
  | invalidValue (value name : String) (range : Bool)
  | invalidBool (value name : String)

/-- The message of a flag error. -/
def FlagError.message : FlagError → Bytes
  | .help => []
  | .notDefined name => .ofString ("flag provided but not defined: -" ++ name)
  | .badSyntax arg => .ofString ("bad flag syntax: " ++ arg)
  | .needsArgument name => .ofString ("flag needs an argument: -" ++ name)
  | .invalidValue v name range =>
    .ofString "invalid value " ++ quote (.ofString v) ++
      .ofString (" for flag -" ++ name ++ ": " ++ if range then "value out of range" else "parse error")
  | .invalidBool v name =>
    .ofString "invalid boolean value " ++ quote (.ofString v) ++ .ofString (" for -" ++ name ++ ": parse error")

/-- Reads a boolean flag value. -/
def readBool (s : String) : Option Bool :=
  if ["1", "t", "T", "TRUE", "true", "True"].contains s then some true
  else if ["0", "f", "F", "FALSE", "false", "False"].contains s then some false
  else none

/-- The value of a digit or letter in any base up to 36. -/
def digitOf (c : Char) : Option Nat :=
  if c.isDigit then some (c.toNat - 48)
  else if c.isAlpha then some (c.toLower.toNat - 87) else none

/-- Whether underscores in a literal only separate digits (or follow a base prefix). -/
def underscoresOk (s : List Char) : Bool :=
  let s := match s with
    | '+' :: r | '-' :: r => r
    | r => r
  let (start, rest, hex) : Char × List Char × Bool := match s with
    | '0' :: c :: r =>
      if c.toLower = 'b' || c.toLower = 'o' || c.toLower = 'x' then ('0', r, c.toLower = 'x')
      else ('^', s, false)
    | _ => ('^', s, false)
  let step := fun (saw : Option Char) (c : Char) =>
    match saw with
    | none => none
    | some saw =>
      if c.isDigit || (hex && 'a' ≤ c.toLower && c.toLower ≤ 'f') then some '0'
      else if c = '_' then (if saw = '0' then some '_' else none)
      else if saw = '_' then none else some '!'
  let last := rest.foldl step (some start)
  match last with
  | some c => c ≠ '_'
  | none => false

/-- Reads digits of a base, skipping underscores; fails at the first bad digit, or with
`true` once the value exceeds 64 bits. -/
def readBaseDigits (base : Nat) : List Char → Nat → Except Bool Nat
  | [], n => .ok n
  | c :: cs, n =>
    if c = '_' then readBaseDigits base cs n else
    match digitOf c with
    | some d =>
      if d ≥ base then .error false
      else if n * base + d ≥ UInt64.size then .error true
      else readBaseDigits base cs (n * base + d)
    | none => .error false

/-- Reads an integer literal of 64 bits; the error tells whether it was out of range. -/
def readIntLiteral (s : String) : Except Bool Int := do
  let cs := s.toList
  if cs.isEmpty then throw false
  let (neg, body) := match cs with
    | '+' :: r => (false, r)
    | '-' :: r => (true, r)
    | r => (false, r)
  if body.isEmpty then throw false
  let (base, digits) : Nat × List Char := match body with
    | '0' :: c :: d :: r =>
      if c.toLower = 'b' then (2, d :: r)
      else if c.toLower = 'o' then (8, d :: r)
      else if c.toLower = 'x' then (16, d :: r)
      else (8, c :: d :: r)
    | '0' :: r => (8, r)
    | r => (10, r)
  let n ← readBaseDigits base digits 0
  if body.contains '_' && !underscoresOk body then throw false
  if neg then (if n > 9223372036854775808 then throw true else pure (-(n : Int)))
  else (if n ≥ 9223372036854775808 then throw true else pure (n : Int))

/-- Flags as parsed: each flag's value, the last given winning, and the other arguments. -/
structure Parsed where
  values : List (String × FlagValue)
  args : List String

/-- Sets a flag's value from its text. -/
def Flag.read (f : Flag) (v : String) : Except FlagError FlagValue :=
  match f.kind with
  | .int _ =>
    match readIntLiteral v with
    | .ok n => .ok (.int n)
    | .error range => .error (.invalidValue v f.name range)
  | .bool _ =>
    match readBool v with
    | some b => .ok (.bool b)
    | none => .error (.invalidBool v f.name)
  | .text _ => .ok (.text v)

/-- Whether a flag is boolean. -/
def Flag.isBool (f : Flag) : Bool :=
  match f.kind with
  | .bool _ => true
  | _ => false

/-- Parses the flags at the front of the arguments. -/
def parse (spec : List Flag) (args : List String) (acc : List (String × FlagValue)) :
    Except FlagError Parsed :=
  match args with
  | [] => .ok ⟨acc, []⟩
  | s :: rest =>
    if s.length < 2 || s.front ≠ '-' then .ok ⟨acc, s :: rest⟩
    else if s = "--" then .ok ⟨acc, rest⟩
    else
      let body := if (s.drop 1).startsWith "-" then (s.drop 2).toString else (s.drop 1).toString
      if body.isEmpty || body.front = '-' || body.front = '=' then .error (.badSyntax s) else
      let name := (body.takeWhile (· ≠ '=')).toString
      let value := if body.contains '=' then some ((body.dropWhile (· ≠ '=')).drop 1).toString else none
      match spec.find? (·.name = name) with
      | none => .error (if name = "help" || name = "h" then .help else .notDefined name)
      | some f =>
        if f.isBool then
          match f.read (value.getD "true") with
          | .ok v => parse spec rest (acc ++ [(name, v)])
          | .error e => .error e
        else
          match value with
          | some v =>
            match f.read v with
            | .ok x => parse spec rest (acc ++ [(name, x)])
            | .error e => .error e
          | none =>
            match rest with
            | v :: rest' =>
              match f.read v with
              | .ok x => parse spec rest' (acc ++ [(name, x)])
              | .error e => .error e
            | [] => .error (.needsArgument name)
termination_by args.length
decreasing_by
  · exact Nat.lt_succ_self _
  · exact Nat.lt_succ_self _
  · exact Nat.lt_succ_of_lt (Nat.lt_succ_self _)

/-- A flag's value: the last one given, else its default. -/
def Parsed.get (p : Parsed) (f : Flag) : FlagValue :=
  match (p.values.reverse.find? (·.1 = f.name)) with
  | some (_, v) => v
  | none =>
    match f.kind with
    | .int d => .int d
    | .bool d => .bool d
    | .text d => .text d

/-- An integer flag's value. -/
def Parsed.int (p : Parsed) (f : Flag) : Int :=
  match p.get f with
  | .int n => n
  | _ => 0

/-- A boolean flag's value. -/
def Parsed.bool (p : Parsed) (f : Flag) : Bool :=
  match p.get f with
  | .bool b => b
  | _ => false

/-- A text flag's value. -/
def Parsed.text (p : Parsed) (f : Flag) : String :=
  match p.get f with
  | .text s => s
  | _ => ""

/-- A flag's line in the usage text. -/
def Flag.usageLine (f : Flag) : Bytes :=
  let (type, dflt) : String × Bytes := match f.kind with
    | .int d => ("int", if d = 0 then [] else .ofString (" (default " ++ toString d ++ ")"))
    | .bool d => ("", if d then .ofString " (default true)" else [])
    | .text d => ("string", if d.isEmpty then [] else .ofString " (default " ++ quote (.ofString d) ++ [0x29])
  let head := "  -" ++ f.name ++ (if type.isEmpty then "" else " " ++ type)
  Bytes.ofString (head ++ (if head.length ≤ 4 then "\t" else "\n    \t") ++
    "\n    \t".intercalate (f.usage.splitOn "\n")) ++ dflt ++ [0x0A]

/-- The usage text of a program. -/
def usage (program : String) (spec : List Flag) : Bytes :=
  Bytes.ofString ("Usage of " ++ program ++ ":\n") ++
    ((spec.mergeSort fun a b => a.name ≤ b.name).flatMap Flag.usageLine)

theorem parse_stop (spec : List Flag) (s : String) (rest : List String)
    (acc : List (String × FlagValue)) (h : s.front ≠ '-') :
    parse spec (s :: rest) acc = .ok ⟨acc, s :: rest⟩ := by
  unfold parse
  rw [if_pos (by simp only [Bool.or_eq_true, decide_eq_true_eq]; exact Or.inr h)]

end ForthMachine.Cli
