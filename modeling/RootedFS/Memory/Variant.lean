import RootedFS.Memory.Basic
import RootedFS.Memory.Handle

/-!
# Variants of the filesystem in memory

Besides the plain filesystem in memory there are variants that deviate from it in one operation
each: some add a capability, most break a rule that the conformance scenarios check. Operations
that are built from others, such as creating a temporary file, see the deviation of their parts.

## Main definitions

* `Variant`: the plain filesystem and its deviations
* `Variant.openFile`, `Variant.createTemp`, `Variant.rename`, `Variant.remove`,
  `Variant.makeDirectories`, `Variant.stat`, `Variant.list`, `Variant.join`, `Variant.base`
* `Variant.symlink`, `Variant.readlink`: the table of links of `Variant.linkTable`
-/

namespace RootedFS

/-- The plain filesystem in memory, or one that deviates from it. -/
inductive Variant where
  | plain
  /-- Listed entries are named by the path of the listing and their name. -/
  | fullNames
  /-- Symbolic links are kept in a table, by the spelling of their paths. -/
  | linkTable
  /-- Opening, renaming, listing and asking for metadata fail. -/
  | failing
  | noExclusive
  /-- Writing does not go to the end. -/
  | noAppend
  /-- Existing files are not emptied. -/
  | noTruncate
  /-- Every file is opened for reading and writing. -/
  | alwaysReadWrite
  /-- Handles are named by absolute paths. -/
  | absoluteNames
  /-- Failures to remove are passed over. -/
  | silentRemove
  | noDirectories
  | zeroSize
  | copyRename
  | reversed
  /-- Temporary files have no number. -/
  | fixedTemp
  | emptyBase
  /-- Paths are joined without being normalised. -/
  | rawJoin
  /-- Metadata tells that everything is a directory. -/
  | allDirectories
  /-- Missing paths are reported without an error number. -/
  | lookupErrors
deriving DecidableEq, Repr

namespace Variant

open Memory

/-- The name of the kind of filesystem, as reports give it. -/
def typeName : Variant → String
  | plain => "MemoryFS"
  | fullNames => "FullNames"
  | linkTable => "LinkTable"
  | failing => "Failing"
  | noExclusive => "NoExcl"
  | noAppend => "NoAppend"
  | noTruncate => "NoTrunc"
  | alwaysReadWrite => "AlwaysRdwr"
  | absoluteNames => "AbsNames"
  | silentRemove => "SilentRemove"
  | noDirectories => "NoMkdir"
  | zeroSize => "ZeroSize"
  | copyRename => "CopyRename"
  | reversed => "Reversed"
  | fixedTemp => "FixedTemp"
  | emptyBase => "EmptyBase"
  | rawJoin => "RawJoin"
  | allDirectories => "AllDirs"
  | lookupErrors => "LookupErrors"

/-- Whether the variant has symbolic links. -/
def hasSymlinks (v : Variant) : Bool :=
  v = linkTable

/-- The failure of every operation that `failing` breaks. -/
def goneFault : Fault :=
  .onPath .gone "project/x"

/-- Fails without an error number if nothing is at a path. -/
def requirePresent (path : String) : MemoryM Unit := do
  let k := Key.resolve path
  unless (← hasFile k) || (← hasDirectory k) do throw (.lookup path)

/-- Joins path elements. -/
def join (v : Variant) (elements : List String) : String :=
  match v with
  | rawJoin => Path.glue elements
  | _ => Path.join elements

/-- The path at which the filesystem is rooted. -/
def base : Variant → String
  | emptyBase => ""
  | _ => "/"

/-- Opens a file; the result is the number and the name of the new handle. -/
def openFile (v : Variant) (path : String) (flags : OpenFlags) (perm : Int) :
    MemoryM (Nat × String) :=
  let opened (path : String) (flags : OpenFlags) : MemoryM (Nat × String) :=
    return (← Memory.openFile path flags perm, path)
  match v with
  | failing => throw goneFault
  | noExclusive => opened path (flags.without 7)
  | noAppend => opened path (flags.without 10)
  | noTruncate => opened path (flags.without 9)
  | alwaysReadWrite => opened path flags.withReadWrite
  | absoluteNames => opened (String.ofList ('/' :: path.toList.dropWhile (· == '/'))) flags
  | lookupErrors => do
    unless flags.create do requirePresent path
    opened path flags
  | _ => opened path flags

/-- Makes a directory and whatever is missing on the way to it. -/
def makeDirectories (v : Variant) (path : String) (perm : Int) : MemoryM Unit :=
  match v with
  | noDirectories => pure ()
  | _ => Memory.makeDirectories path perm

/-- Creates a file in a directory, named by the lead and a number that gives a free name. -/
def createTemp (v : Variant) (directory lead : String) : MemoryM (Nat × String) :=
  match v with
  | plain => Memory.createTemp directory lead
  | fixedTemp => Memory.openFile (Path.join [directory, lead]) .rewriting 0o666 >>= fun id =>
    return (id, Path.join [directory, lead])
  | _ => do
    v.makeDirectories directory defaultPerm
    firstFree
      (fun number => v.openFile (v.join [directory, lead ++ toString number]) .fresh tempPerm)
      (attempts (← get))

/-- Writes the content of one file to another. -/
def copyFile (path target : String) : MemoryM Unit := do
  let source ← Memory.openFile path .reading 0
  let data ← Memory.read source none
  Memory.close source
  let copy ← Memory.openFile target .overwriting 0o644
  discard <| Memory.write copy data
  Memory.close copy

/-- Moves a file, or a directory and all below it. -/
def rename (v : Variant) (path target : String) : MemoryM Unit :=
  match v with
  | failing => throw goneFault
  | copyRename => copyFile path target
  | lookupErrors => do
    unless Key.resolve path = Key.resolve target do requirePresent path
    Memory.rename path target
  | _ => Memory.rename path target

/-- Removes a file or an empty directory. -/
def remove (v : Variant) (path : String) : MemoryM Unit :=
  match v with
  | silentRemove => tryCatch (Memory.remove path) fun f =>
    if f.isFilesystemError then pure () else throw f
  | linkTable => do
    if ((← get).store.links.lookup path).isSome then
      modifyStore fun s => { s with links := s.links.filter (·.1 != path) }
    else
      Memory.remove path
  | lookupErrors => do
    requirePresent path
    Memory.remove path
  | _ => Memory.remove path

/-- The metadata of an entry. -/
def stat {σ : Type} (v : Variant) (path : String) : MemoryM (FileInfo σ) :=
  match v with
  | failing => throw goneFault
  | zeroSize => return { ← Memory.stat path with size := 0 }
  | allDirectories => return { ← Memory.stat path with mode := Mode.directory + 0o755 }
  | lookupErrors => do
    requirePresent path
    Memory.stat path
  | _ => Memory.stat path

/-- The metadata of a directory's entries. -/
def list {σ : Type} (v : Variant) (path : String) : MemoryM (List (FileInfo σ)) :=
  match v with
  | failing => throw goneFault
  | fullNames => do
    let infos ← Memory.list path
    return infos.map fun i => { i with name := Path.join [path, i.name] }
  | reversed => return (← Memory.list path).reverse
  | lookupErrors => do
    requirePresent path
    Memory.list path
  | _ => Memory.list path

/-- Records a link in the table, in place of an earlier one of the same spelling. -/
def symlink (target link : String) : MemoryM Unit :=
  modifyStore fun s => { s with links := (link, target) :: s.links.filter (·.1 != link) }

/-- The target of a link in the table. -/
def readlink (link : String) : MemoryM String := do
  match (← get).store.links.lookup link with
  | some target => return target
  | none => throw (.onPath .missing link)

end Variant

end RootedFS
