import RootedFS.Memory.Store

/-!
# The filesystem in memory

Paths are taken from the top of the store, whether or not they begin with a slash. Errors name the
path as the caller spelt it; a file in the way of new directories is named by its key.

## Main definitions

* `Memory.openFile`, `Memory.createTemp`
* `Memory.rename`, `Memory.remove`, `Memory.makeDirectories`
* `Memory.stat`, `Memory.list`
-/

namespace RootedFS.Memory

/-- Makes a directory at a key unless there is one; a file there is an error. -/
def makeDirectory (perm : Int) (k : Key) : MemoryM Unit := do
  if ← hasFile k then
    throw (.onPath .notDirectory k.toString)
  unless ← hasDirectory k do
    let now ← tick
    modifyStore (·.putDirectory k ⟨Mode.directory + Mode.permissions perm, now⟩)

/-- Makes the directories on the way to a key, the key included. -/
def makeDirectoriesAt (k : Key) (perm : Int) : MemoryM Unit :=
  k.steps.forM (makeDirectory perm)

/-- The permissions of directories that are made along the way. -/
def defaultPerm : Int := 0o755

/-- Makes a directory and whatever is missing on the way to it. -/
def makeDirectories (path : String) (perm : Int) : MemoryM Unit :=
  makeDirectoriesAt (Key.resolve path) perm

/-- A new handle on a file with some content. -/
def newHandle (k : Key) (name : String) (flags : OpenFlags) (content : Bytes) : Handle :=
  let buffer : Buffer := ⟨content, 0⟩
  { key := some k, name, flags, buffer := if flags.append then buffer.toEnd else buffer }

/-- Adds a handle on the file at a key, which has to be there. -/
def attach (k : Key) (name : String) (flags : OpenFlags) : MemoryM Nat := do
  let content ← contentAt k
  let id := (← get).store.handles.length
  modifyStore fun s => { s with handles := s.handles ++ [newHandle k name flags content] }
  return id

/-- Opens a file and returns the number of the new handle. The access, and whether a missing file
is made or an existing one refused or emptied, are told by the flags. -/
def openFile (path : String) (flags : OpenFlags) (perm : Int) : MemoryM Nat := do
  let k := Key.resolve path
  if ← hasDirectory k then
    throw (.onPath .isDirectory path)
  if ← hasFile k then
    if flags.create && flags.exclusive then
      throw (.onPath .present path)
    -- a handle for reading alone empties nothing
    if flags.truncate && flags.writable then
      commit k []
  else if flags.create then
    makeDirectoriesAt k.parent defaultPerm
    putFile k [] (Mode.regular + Mode.permissions perm)
  else
    failMissing k path
  attach k path flags

/-- Tries the numbers of the supply in turn until one does not meet an existing file. -/
def firstFree {α : Type} (attempt : Int → MemoryM α) : Nat → MemoryM α
  | 0 => throw (.unnamed .noFreeName)
  | n + 1 => do
    let number ← draw
    tryCatch (attempt number) fun f =>
      if f.kind = .present then firstFree attempt n else throw f

/-- A number of attempts after which a free number has been met: every listed number and every
entry can stand in the way of one attempt. -/
def attempts (d : Disk) : Nat :=
  d.supply.listed.length + d.store.size + 1

/-- The permissions of temporary files. -/
def tempPerm : Int := 0o600

/-- Creates a file in a directory, named by the lead and a number that gives a free name. -/
def createTemp (directory lead : String) : MemoryM (Nat × String) := do
  makeDirectories directory defaultPerm
  firstFree (fun number => do
      let name := Path.join [directory, lead ++ toString number]
      return (← openFile name .fresh tempPerm, name))
    (attempts (← get))

/-- Takes the file at a key, which has to be there, to another key, where it takes the place of a
file. -/
def moveFile (k target : Key) : MemoryM Unit := do
  let content ← contentAt k
  let stamp ← stampAt k
  modifyStore fun s => (s.eraseFile k).putFile target content stamp

/-- Takes the directory at a key to another key. -/
def moveDirectory (k target : Key) : MemoryM Unit := do
  let stamp ← stampAt k
  modifyStore fun s => (s.eraseDirectory k).putDirectory target stamp

/-- Moves the file at `src` to `dst`, where it takes the place of a file. -/
def renameFile (src dst : Key) (target : String) : MemoryM Unit := do
  if ← hasDirectory dst then
    throw (.onPath .isDirectory target)
  makeDirectoriesAt dst.parent defaultPerm
  -- the handles on a replaced file lose it before those on the moved file come to its key
  modifyHandles (Handle.detach dst)
  moveFile src dst
  modifyHandles (Handle.follow src dst)

/-- Moves the directory at `src` and all below it to `dst`, where it takes the place of an empty
directory. -/
def renameDirectory (src dst : Key) (path target : String) : MemoryM Unit := do
  if src = [] then
    throw (.onPath .renameRoot path)
  if ← hasFile dst then
    throw (.onPath .notDirectory target)
  if Key.within src dst then
    throw (.onPath .intoItself target)
  if ← hasDirectory dst then
    unless ((← get).store.children dst).isEmpty do
      throw (.onPath .notEmpty target)
  makeDirectoriesAt dst.parent defaultPerm
  let directories := (← get).store.directories.keys.filter (Key.within src)
  directories.forM fun k => moveDirectory k (Tree.rebase src dst k)
  let files := (← get).store.files.keys.filter (Key.within src)
  files.forM fun k => moveFile k (Tree.rebase src dst k)
  modifyHandles (Handle.follow src dst)

/-- Moves a file, or a directory and all below it. A path is its own destination at no cost. -/
def rename (path target : String) : MemoryM Unit := do
  let src := Key.resolve path
  let dst := Key.resolve target
  if src ≠ dst then
    if ← hasFile src then
      renameFile src dst target
    else if ← hasDirectory src then
      renameDirectory src dst path target
    else
      failMissing src path

/-- Removes a file or an empty directory. -/
def remove (path : String) : MemoryM Unit := do
  let k := Key.resolve path
  if ← hasFile k then
    discard (stampAt k)
    modifyStore (·.eraseFile k)
    modifyHandles (Handle.detach k)
  else if ← hasDirectory k then
    if k = [] then
      throw (.onPath .removeRoot path)
    unless ((← get).store.children k).isEmpty do
      throw (.onPath .notEmpty path)
    discard (stampAt k)
    modifyStore (·.eraseDirectory k)
  else
    failMissing k path

/-- The metadata of the entry at a key, which has to be there. -/
def info {σ : Type} (k : Key) : MemoryM (FileInfo σ) := do
  let stamp ← stampAt k
  let content := ((← get).store.files.get? k).getD []
  return {
    name := k.name
    size := content.length
    mode := stamp.mode
    modified := some (.ofTick stamp.modified)
    payload := none }

/-- The metadata of an entry. -/
def stat {σ : Type} (path : String) : MemoryM (FileInfo σ) := do
  let k := Key.resolve path
  if (← hasFile k) || (← hasDirectory k) then info k else failMissing k path

/-- The metadata of a directory's entries, by name. -/
def list {σ : Type} (path : String) : MemoryM (List (FileInfo σ)) := do
  let k := Key.resolve path
  if ← hasFile k then
    throw (.onPath .notDirectory path)
  if ← hasDirectory k then
    ((← get).store.children k).mapM fun name => info (k ++ [name])
  else
    failMissing k path

end RootedFS.Memory
