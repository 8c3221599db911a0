/-!
# A tree of files

The command line programs read and write files relative to a working directory. Their
logic works on this value: a set of relative paths, each naming a regular file with its
contents or a directory. Every parent of an entry is a directory entry too.

A path is resolved the way the operating system resolves it, part by part and without
cleaning it first: `.` stays, `..` goes up, and every part before the last must lead to
a directory, so `a.fs/..` fails when `a.fs` is a file. A path that ends in a slash must
name a directory. Above the working directory, and from a path that starts with a slash,
nothing is known to exist.

Failures name the operation and the path as the caller spelled it, with the reason:
a missing entry, a file where a directory is needed, a directory where a file is needed,
or an entry where a new directory was to be made.

The main statements are `walk_file_cons` (a path cannot go on through a file) and
`parentPath_length_lt` (the walk up a path's parents ends).
-/

namespace ForthMachine.Files

/-- What a path names. -/
inductive Node where
  | file (data : ByteArray)
  | dir

/-- Why a file operation failed. -/
inductive Errno where
  | notFound | notDirectory | isDirectory | alreadyExists
  deriving DecidableEq, Repr

/-- The text of a failure reason. -/
def Errno.text : Errno → String
  | .notFound => "no such file or directory"
  | .notDirectory => "not a directory"
  | .isDirectory => "is a directory"
  | .alreadyExists => "file exists"

/-- A failed operation on a path. -/
structure PathError where
  op : String
  path : String
  errno : Errno

/-- The message of a failed operation, like `open a/b: no such file or directory`. -/
def PathError.message (e : PathError) : String := e.op ++ " " ++ e.path ++ ": " ++ e.errno.text

/--
The lexically shortest path equal to `p`: empty and `.` elements dropped, `..` removing
the element before it, a leading slash kept; the empty result is `.`. Joining a directory
and a file name goes through it, so the joined path is looked up in its cleaned form.
-/
def clean (p : String) : String :=
  let rooted := p.startsWith "/"
  let step := fun (acc : List String) (part : String) =>
    if part = "" || part = "." then acc
    else if part = ".." then
      match acc with
      | a :: rest => if a = ".." then part :: acc else rest
      | [] => if rooted then [] else [part]
    else part :: acc
  let parts := (p.splitOn "/").foldl step []
  let body := "/".intercalate parts.reverse
  if rooted then "/" ++ body else if body = "" then "." else body

/-- Joins two paths with a slash and cleans the result. -/
def join (a b : String) : String := clean (a ++ "/" ++ b)

/-- The elements of a relative path, after cleaning. -/
def elements (p : String) : List String :=
  (clean p).splitOn "/" |>.filter (· ≠ ".")

/-- The parts of a path between its slashes, empty ones dropped. -/
def parts (p : String) : List String := (p.splitOn "/").filter (· ≠ "")

/-- A directory a walk can stand in: one of the tree, by its elements, or one outside the
tree, where nothing is known to exist. -/
inductive Place where
  | inside (es : List String)
  | outside

/-- The directory above a place; above the working directory is outside. -/
def Place.up : Place → Place
  | .inside [] => .outside
  | .inside es => .inside es.dropLast
  | .outside => .outside

/-- What a path leads to. -/
inductive Target where
  /-- An existing regular file, by its elements. -/
  | file (es : List String)
  | dir (p : Place)
  /-- Nothing yet, under a name in an existing directory. -/
  | absent (p : Place) (name : String)

/-- An entry opened for reading. -/
inductive Handle where
  /-- A regular file, by its elements. -/
  | file (es : List String)
  | dir

/-- A set of files and directories, keyed by their path elements. -/
structure Tree where
  entries : List (List String × Node)

namespace Tree

/-- The empty working directory. -/
def empty : Tree := ⟨[]⟩

/-- The node at exactly these elements; the empty path is the working directory. -/
def node? (t : Tree) (es : List String) : Option Node :=
  if es = [] then some .dir else (t.entries.find? (·.1 = es)).map (·.2)

/-- The contents of the file at these elements; empty if there is none. -/
def contents (t : Tree) (es : List String) : ByteArray :=
  match t.node? es with
  | some (.file d) => d
  | _ => ByteArray.empty

/-- Sets the node at a path, replacing any entry there. -/
def put (t : Tree) (es : List String) (n : Node) : Tree :=
  ⟨(t.entries.filter (·.1 ≠ es)) ++ [(es, n)]⟩

/-- What one part of a path leads to from a directory. -/
def step (t : Tree) (p : Place) (part : String) : Target :=
  if part = "." then .dir p
  else if part = ".." then .dir p.up
  else match p with
    | .outside => .absent p part
    | .inside es =>
      match t.node? (es ++ [part]) with
      | none => .absent p part
      | some (.file _) => .file (es ++ [part])
      | some .dir => .dir (.inside (es ++ [part]))

/-- Walks the parts of a path from a directory: every part before the last must lead to an
existing directory. -/
def walk (t : Tree) (p : Place) : List String → Except Errno Target
  | [] => .ok (.dir p)
  | [part] => .ok (t.step p part)
  | part :: rest@(_ :: _) =>
    match t.step p part with
    | .dir q => t.walk q rest
    | .file _ => .error .notDirectory
    | .absent .. => .error .notFound

/-- Resolves a path from the working directory. The empty path names nothing, and a path
starting with a slash starts outside the tree. -/
def resolve (t : Tree) (path : String) : Except Errno Target :=
  if path.isEmpty then .error .notFound
  else t.walk (if path.startsWith "/" then .outside else .inside []) (parts path)

/-- Whether a path names a directory (`true`) or a file (`false`), as a status query
tells; a file named with a trailing slash is not a directory. -/
def stat (t : Tree) (path : String) : Except Errno Bool :=
  match t.resolve path with
  | .error e => .error e
  | .ok (.absent ..) => .error .notFound
  | .ok (.file _) => if path.endsWith "/" then .error .notDirectory else .ok false
  | .ok (.dir _) => .ok true

/-- Opens a path for reading: it must name something, and a file must not be named with a
trailing slash. -/
def openRead (t : Tree) (path : String) : Except PathError Handle :=
  match t.resolve path with
  | .error e => .error ⟨"open", path, e⟩
  | .ok (.absent ..) => .error ⟨"open", path, .notFound⟩
  | .ok (.file es) =>
    if path.endsWith "/" then .error ⟨"open", path, .notDirectory⟩ else .ok (.file es)
  | .ok (.dir _) => .ok .dir

/-- Reads a whole file; a directory cannot be read. -/
def readFile (t : Tree) (path : String) : Except PathError ByteArray :=
  match t.openRead path with
  | .error e => .error e
  | .ok .dir => .error ⟨"read", path, .isDirectory⟩
  | .ok (.file es) => .ok (t.contents es)

/--
Opens a path for writing, creating the file or emptying it. A directory cannot be opened
so, and neither can a path that ends in a slash. Gives the file's elements, or `none` for
a file made outside the tree.
-/
def create (t : Tree) (path : String) : Except PathError (Tree × Option (List String)) :=
  match t.resolve path with
  | .error e => .error ⟨"open", path, e⟩
  | .ok (.dir _) => .error ⟨"open", path, .isDirectory⟩
  | .ok (.file es) =>
    if path.endsWith "/" then .error ⟨"open", path, .isDirectory⟩
    else .ok (t.put es (.file ByteArray.empty), some es)
  | .ok (.absent p n) =>
    if path.endsWith "/" then .error ⟨"open", path, .isDirectory⟩
    else match p with
      | .inside es => .ok (t.put (es ++ [n]) (.file ByteArray.empty), some (es ++ [n]))
      | .outside => .ok (t, none)

/-- Creates or empties a file and writes its contents. -/
def writeFile (t : Tree) (path : String) (data : ByteArray) : Except PathError Tree := do
  let (t, h) ← t.create path
  match h with
  | some es => return t.put es (.file data)
  | none => return t

/-- Makes one directory: its parent must exist, and its name must not be taken (`.` and
`..` always are). -/
def mkdir (t : Tree) (path : String) : Except PathError Tree :=
  match t.resolve path with
  | .error e => .error ⟨"mkdir", path, e⟩
  | .ok (.absent (.inside es) n) => .ok (t.put (es ++ [n]) .dir)
  | .ok (.absent .outside _) => .ok t
  | .ok _ => .error ⟨"mkdir", path, .alreadyExists⟩

/-- The path before a path's last element: trailing slashes and the last element are cut,
and so is the slash before it; empty when there is no slash. -/
def parentPath (cs : List Char) : List Char :=
  ((cs.reverse.dropWhile (· = '/')).dropWhile (· ≠ '/') |>.drop 1).reverse

theorem parentPath_length_lt {cs : List Char} (h : cs ≠ []) :
    (parentPath cs).length < cs.length := by
  unfold parentPath
  have h1 := (List.dropWhile_suffix (· = '/') (l := cs.reverse)).length_le
  have h2 := (List.dropWhile_suffix (· ≠ '/')
    (l := cs.reverse.dropWhile (· = '/'))).length_le
  have h3 : 0 < cs.length := List.length_pos_iff.mpr h
  simp only [List.length_reverse, List.length_drop] at *
  omega

/--
Makes a directory and any missing parents. A path that already names a directory is
fine and one that names a file fails. Otherwise the parent path is made first, then the
directory itself; a failure names the path whose making failed, as spelled.
-/
def makeDirs (t : Tree) (path : List Char) : Except PathError Tree :=
  let p := String.ofList path
  match t.stat p with
  | .ok true => .ok t
  | .ok false => .error ⟨"mkdir", p, .notDirectory⟩
  | .error _ =>
    let parent := parentPath path
    let made : Except PathError Tree :=
      if h : parent ≠ [] then
        have : parent.length < path.length := parentPath_length_lt (by
          intro hp; subst hp; simp [parent, parentPath] at h)
        t.makeDirs parent
      else .ok t
    match made with
    | .error e => .error e
    | .ok t =>
      match t.mkdir p with
      | .ok t => .ok t
      | .error e =>
        match t.stat p with
        | .ok true => .ok t
        | _ => .error e
termination_by path.length

/-- Makes a directory and any missing parents, as `makeDirs` does. -/
def mkdirAll (t : Tree) (path : String) : Except PathError Tree := t.makeDirs path.toList

/-- Every regular file, with its slash-separated path, in path order. -/
def files (t : Tree) : List (String × ByteArray) :=
  let fs := t.entries.filterMap fun
    | (es, .file d) => some ("/".intercalate es, d)
    | (_, .dir) => none
  fs.mergeSort (fun a b => a.1 ≤ b.1)

/-- The regular files directly inside a directory, by name, in name order. -/
def filesIn (t : Tree) (dir : String) : List (String × ByteArray) :=
  let d := elements dir
  let fs := t.entries.filterMap fun
    | (es, .file data) => if es.dropLast = d then es.getLast?.map (·, data) else none
    | (_, .dir) => none
  fs.mergeSort (fun a b => a.1 ≤ b.1)

/-- Makes the directories along some elements. -/
def withDirs (t : Tree) (es : List String) : Tree :=
  (List.range es.length).foldl (fun t i =>
    let here := es.take (i + 1)
    match t.node? here with
    | some _ => t
    | none => t.put here .dir) t

/-- Adds a file at a path, making its parent directories. -/
def withFile (t : Tree) (p : String) (d : ByteArray) : Tree :=
  let es := elements p
  (t.withDirs es.dropLast).put es (.file d)

/-- Builds a tree from files and directories given by path, making their parents. -/
def ofPaths (files : List (String × ByteArray)) (dirs : List String) : Tree :=
  let withDirs := dirs.foldl (fun t d => t.withDirs (elements d)) empty
  files.foldl (fun t (p, d) => t.withFile p d) withDirs

theorem walk_file_cons (t : Tree) (p : Place) (part : String) (rest : List String)
    (es : List String) (h : t.step p part = .file es) (hr : rest ≠ []) :
    t.walk p (part :: rest) = .error .notDirectory := by
  cases rest with
  | nil => exact absurd rfl hr
  | cons _ _ => simp [walk, h]

end Tree

end ForthMachine.Files
