import RootedFS.File

/-!
# Filesystems

A filesystem is a filesystem in memory, a directory of the host, or a view: another filesystem
seen from one of its paths, the base. A view puts its base before every path that it is given and
passes the call on; names that come back are told from the base again.

## Main definitions

* `FileSystem`
* `FileSystem.join`, `FileSystem.base`, `FileSystem.translate`, `FileSystem.underlyingPath`,
  `FileSystem.viewFrom`
* `FileSystem.create`, `FileSystem.openRead`, `FileSystem.openFile`, `FileSystem.createTemp`
* `FileSystem.rename`, `FileSystem.remove`, `FileSystem.makeDirectories`
* `FileSystem.stat`, `FileSystem.list`
* `FileSystem.newMemory`, `FileSystem.openHost`
-/

namespace RootedFS

/-- A filesystem. -/
inductive FileSystem where
  /-- A filesystem in memory, plain or deviating, on the store with a number. -/
  | memory (store : Nat) (variant : Variant)
  | host (root : Key)
  /-- Another filesystem, seen from one of its paths. -/
  | view (underlying : FileSystem) (base : String)
deriving DecidableEq, Repr

namespace FileSystem

open World Host

/-! ## Paths -/

/-- Joins path elements by the rules of the filesystem; a view has those of its underlying one. -/
def join : FileSystem → List String → String
  | memory _ variant, elements => variant.join elements
  | host _, elements => Path.join elements
  | view underlying _, elements => underlying.join elements

/-- The path at which the filesystem is rooted. -/
def base : FileSystem → String
  | memory _ variant => variant.base
  | host _ => "/"
  | view _ base => base

/-- The path of the underlying filesystem that a path of a view stands for. -/
def translate (underlying : FileSystem) (base path : String) : String :=
  underlying.join [base, path]

/-- The name of the kind of filesystem, as reports give it. -/
def typeName : FileSystem → String
  | memory _ variant => variant.typeName
  | host _ => "OSFS"
  | view .. => "SubdirFS"

/-- The path of the underlying filesystem that a path of a view stands for; other filesystems know
no such path. -/
def underlyingPath (path : String) : FileSystem → Except Fault String
  | view underlying base => .ok (underlying.translate base path)
  | fs => .error (.noOperation fs.typeName "underlying_path")

/-- The view of a filesystem from one of its paths. The view of a view sees the same underlying
filesystem, so that views never pile up. -/
def viewFrom : FileSystem → String → FileSystem
  | view underlying base, path => view underlying (underlying.translate base path)
  | fs, path => view fs (fs.join [fs.base, path])

/-! ## Files -/

/-- Opens a file. The access, and whether a missing file is made or an existing one refused or
emptied, are told by the flags. -/
def openFile : FileSystem → String → OpenFlags → Int → WorldM File
  | memory store variant, path, flags, perm => do
    let (handle, name) ← onStore store (variant.openFile path flags perm)
    return .memory store handle name
  | host root, path, flags, perm => do
    let stream ← onHost (Rooted.openFile root path flags perm)
    return .host stream path
  | view underlying base, path, flags, perm => do
    let inner ← underlying.openFile (underlying.translate base path) flags perm
    return .renamed path inner

/-- Opens an empty file for reading and writing, whether or not it exists. -/
def create (fs : FileSystem) (path : String) : WorldM File :=
  fs.openFile path .rewriting 0o666

/-- Opens a file for reading. -/
def openRead (fs : FileSystem) (path : String) : WorldM File :=
  fs.openFile path .reading 0

/-- The number of names that are tried for a temporary file on the host. -/
def hostAttempts : Nat := 10000

/-- Tries the numbers of the supply in turn until one does not meet an existing entry. -/
def firstFree {α : Type} (attempt : Int → WorldM α) : Nat → WorldM α
  | 0 => throw (.unnamed .noFreeName)
  | n + 1 => do
    let number ← draw
    tryCatch (attempt number) fun f =>
      if f.kind = .present then firstFree attempt n else throw f

/-- Creates a file in a directory, named by a lead and a number that gives a free name. -/
def createTemp : FileSystem → (directory lead : String) → WorldM File
  | memory store variant, directory, lead => do
    let (handle, name) ← onStore store (variant.createTemp directory lead)
    return .memory store handle name
  | host root, directory, lead => do
    onHost (Rooted.makeDirectories root directory Rooted.defaultPerm)
    let (stream, name) ←
      firstFree (fun number => onHost (Rooted.openTemp root directory lead number)) hostAttempts
    return .host stream name
  | view underlying base, directory, lead => do
    let inner ← underlying.createTemp (underlying.translate base directory) lead
    return .renamed (underlying.join [directory, Path.baseName inner.name]) inner

/-- Moves a file, or a directory and all below it. -/
def rename : FileSystem → (path target : String) → WorldM Unit
  | memory store variant, path, target => onStore store (variant.rename path target)
  | host root, path, target => onHost (Rooted.rename root path target)
  | view underlying base, path, target =>
    underlying.rename (underlying.translate base path) (underlying.translate base target)

/-- Removes a file, a symbolic link, or an empty directory. -/
def remove : FileSystem → String → WorldM Unit
  | memory store variant, path => onStore store (variant.remove path)
  | host root, path => onHost (Rooted.remove root path)
  | view underlying base, path => underlying.remove (underlying.translate base path)

/-! ## Directories and metadata -/

/-- Makes a directory and whatever is missing on the way to it. -/
def makeDirectories : FileSystem → String → Int → WorldM Unit
  | memory store variant, path, perm => onStore store (variant.makeDirectories path perm)
  | host root, path, perm => onHost (Rooted.makeDirectories root path perm)
  | view underlying base, path, perm =>
    underlying.makeDirectories (underlying.translate base path) perm

/-- The metadata of what a path leads to. -/
def stat : FileSystem → String → WorldM (EntryInfo Status)
  | memory store variant, path => return .plain (← onStore store (variant.stat path))
  | host root, path => return .plain (← onHost (Rooted.stat root path))
  | view underlying base, path => do
    let full := underlying.translate base path
    return .renamed (Path.baseName full) (← underlying.stat full)

/-- The metadata of a directory's entries. A view takes its own path of the directory off every
name that begins with it. -/
def list : FileSystem → String → WorldM (List (EntryInfo Status))
  | memory store variant, path => return (← onStore store (variant.list path)).map .plain
  | host root, path => return (← onHost (Rooted.list root path)).map .plain
  | view underlying base, path => do
    let full := underlying.translate base path
    let infos ← underlying.list full
    return infos.map fun info => .renamed (Path.stripLead info.name full) info

/-! ## Making filesystems -/

/-- A new filesystem in memory. -/
def newMemory (variant : Variant) : WorldM FileSystem :=
  return .memory (← newStore) variant

/-- The filesystem of a directory of the host, which is made if it is missing. -/
def openHost (path : String) : WorldM FileSystem := do
  let root ← onHost (Rooted.resolveRoot path)
  unless ← onHost (Rooted.isPresent (fun _ => true) root) do
    notify (.creatingRoot (Key.toString root))
    onHost (Rooted.makeRoot root)
  unless ← onHost (Rooted.isPresent Node.isDirectory root) do
    throw (.rootNotDirectory path)
  return .host root

/-! ## Descriptions -/

/-- A description of a filesystem; of a filesystem in memory it tells the numbers of files and of
directories. -/
def describe (w : World) : FileSystem → String
  | memory store _ =>
    let files := (w.stores[store]?.map fun s => s.files.size).getD 0
    let directories := (w.stores[store]?.map fun s => s.directories.size).getD 0
    "MemoryFS(files=" ++ toString files ++ ", dirs=" ++ toString directories ++ ")"
  | host root => "OSFS(root=" ++ Text.quote (Key.toString root) ++ ")"
  | view underlying base =>
    "SubdirFS(underlying=" ++ underlying.describe w ++ ", base=" ++ Text.quote base ++ ")"

end FileSystem

end RootedFS
