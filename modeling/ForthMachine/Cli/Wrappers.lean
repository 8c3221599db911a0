import ForthMachine.Cli.Flags
import ForthMachine.Cli.Invocation
import ForthMachine.Text.Blank

/-!
# The wrapper generator

`gen_vm_expects [--] [in [out]]` reads source text (a file, or standard input) and
writes a function for every builder method it finds, so that test cases can share
partial configurations. A builder method is a line containing

    func (vmt vmTestCase) <expect|with><What>(<params>) vmTestCase

where `What` and `params` are the shortest texts that complete the pattern, the first
occurrence in the line counting. For it the generator writes a function `<base>VM<What>`
with the same parameters, returning a function that applies the method. The call passes
each parameter by its first word, spreading a variadic one with `...`.

The output starts with the package line, a comment naming the input, and, when both
files are named, a `go:generate` line repeating the arguments; it is written with the
first line read, so that empty input gives empty output. Lines are read up to a line
feed, a carriage return before it dropped; a line of 64 KiB or more stops the reading
with an error.

The main statement is `methodAt_eq_none`: text that does not start with the method prefix
starts no builder method.
-/

namespace ForthMachine.Cli

open ForthMachine.Text ForthMachine.Files

/-- The text every builder method line holds before its name. -/
def methodPrefix : Bytes := Bytes.ofString "func (vmt vmTestCase) "

/-- The text that closes a builder method's signature. -/
def methodSuffix : Bytes := Bytes.ofString ") vmTestCase"

/-- A builder method found in a line: its base (`expect` or `with`), the rest of its
name, and its parameter text. -/
structure Method where
  base : Bytes
  what : Bytes
  params : Bytes

/-- The shortest non-empty parameter text of `rest` followed by the closing text. -/
def shortestParams (rest : Bytes) : Option Bytes :=
  go 1 (rest.length + 1)
where
  go (n : Nat) : Nat → Option Bytes
    | 0 => none
    | fuel + 1 =>
      if n > rest.length then none
      else if methodSuffix.isPrefixOf (rest.drop n) then some (rest.take n)
      else go (n + 1) fuel

/-- The shortest non-empty name, followed by `(` and a parameter text, of `rest`. -/
def shortestName (rest : Bytes) : Option (Bytes × Bytes) :=
  go 1 (rest.length + 1)
where
  go (n : Nat) : Nat → Option (Bytes × Bytes)
    | 0 => none
    | fuel + 1 =>
      if n ≥ rest.length then none
      else if rest[n]? = some 0x28 then
        match shortestParams (rest.drop (n + 1)) with
        | some params => some (rest.take n, params)
        | none => go (n + 1) fuel
      else go (n + 1) fuel

/-- A builder method starting right at the beginning of `line`. -/
def methodAt (line : Bytes) : Option Method :=
  if !methodPrefix.isPrefixOf line then none else
  let rest := line.drop methodPrefix.length
  let attempt := fun (base : String) =>
    let b := Bytes.ofString base
    if b.isPrefixOf rest then
      (shortestName (rest.drop b.length)).map fun (what, params) => ⟨b, what, params⟩
    else none
  (attempt "expect").orElse fun _ => attempt "with"

/-- The first builder method in a line. -/
def builderMethod : Bytes → Option Method
  | [] => none
  | line@(_ :: rest) => (methodAt line).orElse fun _ => builderMethod rest

/-- How a parameter is passed on: its first word, with `...` when it is variadic. -/
def passParam (part : Bytes) : Option Bytes :=
  match fields part with
  | [] => none
  | [name] => some name
  | name :: type :: _ =>
    some (if (Bytes.ofString "...").isPrefixOf type then name ++ Bytes.ofString "..." else name)

/-- The arguments passing every parameter on, or none when a parameter is empty. -/
def passParams (params : Bytes) : Option Bytes :=
  ((params.splitOn 0x2C).mapM passParam).map fun ps => (ps.intersperse (Bytes.ofString ", ")).flatten

/-- The wrapper function of a builder method. -/
def Method.wrapper (m : Method) (call : Bytes) : Bytes :=
  Bytes.ofString "func " ++ m.base ++ Bytes.ofString "VM" ++ m.what ++ [0x28] ++ m.params ++
  Bytes.ofString ") func(vmTestCase) vmTestCase \x7b\n  return func(vmt vmTestCase) vmTestCase \x7b\n    return vmt." ++
  m.base ++ m.what ++ [0x28] ++ call ++ Bytes.ofString ")\n  \x7d\n\x7d\n\n"

/-- The head of the output. -/
def header (inName : String) (args : List String) : Bytes :=
  Bytes.ofString ("package forthvm\n\n// @generated from " ++ inName ++ "\n\n") ++
  (if args.length ≥ 2 then
    Bytes.ofString ("//go:generate go run scripts/gen_vm_expects.go --" ++
      String.join (args.map (" " ++ ·)) ++ "\n\n")
   else [])

/-- The longest line the reader accepts, in bytes. -/
def maxLine : Nat := 65535

/-- The lines of input, each without its line feed and one carriage return before it;
`false` when a line was too long, which ends them. -/
def scanLines (bs : Bytes) : List Bytes × Bool :=
  go (bs.splitOn 0x0A) []
where
  go : List Bytes → List Bytes → List Bytes × Bool
    | [], acc => (acc.reverse, true)
    | [last], acc =>
      if last.length > maxLine then (acc.reverse, false)
      else if last.isEmpty then (acc.reverse, true)
      else ((dropCR last :: acc).reverse, true)
    | l :: ls, acc =>
      if l.length ≥ maxLine + 1 then (acc.reverse, false) else go ls (dropCR l :: acc)
  dropCR (l : Bytes) : Bytes := if l.getLast? = some 0x0D then l.dropLast else l

/-- What the generator writes for its input, or the wrappers written before a line it
cannot handle. -/
def generate (inName : String) (args : List String) (input : Bytes) : Bytes × Option String :=
  let (lines, complete) := scanLines input
  let rec emit : List Bytes → Bytes × Option String
    | [] => ([], if complete then none else some "bufio.Scanner: token too long")
    | l :: ls =>
      match builderMethod l with
      | none => emit ls
      | some m =>
        match passParams m.params with
        | none => ([], some "panic: runtime error: index out of range [0] with length 0")
        | some call => let (rest, e) := emit ls; (m.wrapper call ++ rest, e)
  let (body, e) := emit lines
  ((if lines.isEmpty then [] else header inName args) ++ body, e)

/-- The generator's name, as its usage text gives it. -/
def generatorName : String := "gen_vm_expects"

/-- Runs the generator. -/
def runGenerator (inv : Invocation) : Outcome :=
  match parse [] inv.args [] with
  | .error .help => .failure 0 (usage generatorName []) inv.files
  | .error e => .failure 2 (e.message ++ [0x0A] ++ usage generatorName []) inv.files
  | .ok p =>
    let input : Except Bytes (String × Option Handle) := match p.args with
      | [] => .ok ("/dev/stdin", none)
      | name :: _ =>
        match inv.files.openRead name with
        | .ok h => .ok (name, some h)
        | .error e => .error (Bytes.ofString ("failed to open " ++ name ++ ": " ++ e.message))
    match input with
    | .error msg => .failure 1 (msg ++ [0x0A]) inv.files
    | .ok (inName, source) =>
      let target : Except Bytes (Tree × Option (Option (List String))) := match p.args with
        | _ :: out :: _ =>
          match inv.files.create out with
          | .ok (t, h) => .ok (t, some h)
          | .error e => .error (Bytes.ofString ("failed to create " ++ out ++ ": " ++ e.message))
        | _ => .ok (inv.files, none)
      match target with
      | .error msg => .failure 1 (msg ++ [0x0A]) inv.files
      | .ok (files, out) =>
        -- the input is read after the output was created, which empties it when both are
        -- the same file
        let (text, err) := match source with
          | none => generate inName p.args inv.stdin
          | some (.file es) => generate inName p.args (files.contents es).toList
          | some .dir => ([], some ("read " ++ inName ++ ": is a directory"))
        let (stdout, files) := match out with
          | some (some es) => ([], files.put es (.file ⟨text.toArray⟩))
          | some none => ([], files)
          | none => (text, files)
        match err with
        | some e => { exit := (if e.startsWith "panic" then 2 else 1), stdout := stdout,
                      stderr := Bytes.ofString (e ++ "\n"), files := files }
        | none => { exit := 0, stdout := stdout, stderr := [], files := files }

theorem methodAt_eq_none (line : Bytes) (h : ¬ methodPrefix <+: line) :
    methodAt line = none := by
  unfold methodAt
  have : methodPrefix.isPrefixOf line = false := by
    cases hp : methodPrefix.isPrefixOf line
    · rfl
    · exact absurd (List.isPrefixOf_iff_prefix.mp hp) h
  simp [this]

end ForthMachine.Cli
