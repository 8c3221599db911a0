import ForthMachine.Cli.Program

/-!
# The executable

Runs the command line on the real working directory: the files it may read are loaded
first (every argument that names a readable file, and any block file the run looks for),
the command runs, and then its output is printed and the files it wrote are saved.
-/

open ForthMachine.Cli ForthMachine.Files

/-- Reads a stream to its end. -/
partial def readToEnd (s : IO.FS.Stream) (acc : ByteArray) : IO ByteArray := do
  let chunk ← s.read 65536
  if chunk.isEmpty then return acc else readToEnd s (acc ++ chunk)

/-- The contents of a file, if it can be read. -/
def loadFile (path : String) : IO (Option ByteArray) := do
  try
    return some (← IO.FS.readBinFile path)
  catch _ =>
    return none

/-- Runs the command, loading the files it looked for and rerunning it until it finds
everything that exists. -/
partial def settle (inv : Invocation) (tried : List String) : IO (Outcome × Invocation) := do
  let o := run inv
  let fresh := o.missing.filter fun p => !tried.contains p
  let mut files := inv.files
  let mut found := false
  for p in fresh do
    if let some d ← loadFile p then
      files := files.withFile p d
      found := true
  if found then settle { inv with files := files } (tried ++ fresh) else return (o, inv)

/-- Saves the files a run wrote or changed. -/
def saveFiles (before after : Tree) : IO Unit := do
  for (p, d) in after.files do
    let same := match before.readFile p with
      | .ok d' => d'.toList == d.toList
      | .error _ => false
    if !same then
      let parent := "/".intercalate (elements p).dropLast
      if !parent.isEmpty then IO.FS.createDirAll parent
      IO.FS.writeBinFile p d

def main (args : List String) : IO UInt32 := do
  let stdin ← readToEnd (← IO.getStdin) ByteArray.empty
  let mut files := Tree.empty
  for a in args do
    if let some d ← loadFile a then files := files.withFile a d
  let (o, inv) ← settle ⟨args, stdin.toList, files⟩ []
  saveFiles inv.files o.files
  let out ← IO.getStdout
  out.write ⟨o.stdout.toArray⟩
  out.flush
  let err ← IO.getStderr
  err.write ⟨o.stderr.toArray⟩
  err.flush
  return o.exit.toUInt32
