import ForthMachine.Files.Tree
import ForthMachine.Text.Utf8

/-!
# Running a command

A command is run on its arguments, its standard input and the files of its working
directory. It ends with an exit status, what it wrote to standard output and standard
error, and the files as it left them; it also tells which files it looked for and did
not find, so that a caller holding only some of a directory's files can supply more and
run it again.

The main statement is `Outcome.failure_exit`: a failure exits with the status it was given.
-/

namespace ForthMachine.Cli

open ForthMachine.Text ForthMachine.Files

/-- What a command is given. -/
structure Invocation where
  args : List String
  stdin : Bytes
  files : Tree

/-- What a command leaves: exit status, output, error output, and files. -/
structure Outcome where
  exit : Nat
  stdout : Bytes
  stderr : Bytes
  files : Tree
  /-- Files it looked for and did not find. -/
  missing : List String := []

/-- An outcome that wrote only to standard error and left the files as they were. -/
def Outcome.failure (code : Nat) (stderr : Bytes) (files : Tree) : Outcome :=
  { exit := code, stdout := [], stderr := stderr, files := files }

theorem Outcome.failure_exit (code : Nat) (stderr : Bytes) (files : Tree) :
    (Outcome.failure code stderr files).exit = code := rfl

end ForthMachine.Cli
