import RootedFS.Clock
import RootedFS.Info
import RootedFS.Memory.Buffer
import RootedFS.OpenFlags
import RootedFS.Tree

/-!
# Stores

A store is a filesystem in memory: the contents of its files, its directories, what is noted of
each entry, and the handles opened on its files. A handle keeps a copy of its file's content and
hands it back when it is flushed; it knows its file by key, follows the file when that is renamed,
and loses it when the file is removed or replaced.

A computation on a store also reads the clock, draws from the supply of numbers, and may fail; what
it did before failing stays done.

## Main definitions

* `Memory.Stamp`, `Memory.Handle`, `Memory.Store`
* `Memory.Entry`, `Memory.Store.tree`: the files and directories of a store as one tree
* `Memory.Disk`: a store with the clock and the supply that it uses
* `MemoryM`: computations on a disk
-/

namespace RootedFS

namespace Memory

/-- What is noted of an entry besides its content. -/
structure Stamp where
  mode : Nat
  modified : Nat
deriving DecidableEq, Repr

/-- An entry of a store. -/
inductive Entry where
  /-- A file with its content, its mode, and the tick of its last change. -/
  | file (content : Bytes) (mode modified : Nat)
  | directory (mode modified : Nat)
deriving DecidableEq, Repr

namespace Entry

/-- The bits of the kind and the permissions. -/
def mode : Entry → Nat
  | file _ mode _ => mode
  | directory mode _ => mode

/-- The tick of the last change. -/
def modified : Entry → Nat
  | file _ _ modified => modified
  | directory _ modified => modified

/-- The size in bytes; zero for directories. -/
def size : Entry → Nat
  | file content _ _ => content.length
  | directory _ _ => 0

end Entry

/-- A handle on a file of a store. -/
structure Handle where
  /-- Where the file is now; absent once the file has been removed or replaced. -/
  key : Option Key
  name : String
  flags : OpenFlags
  /-- The handle's copy of the content, with its position. -/
  buffer : Buffer
  /-- Whether the copy has changes that the store has not seen. -/
  dirty : Bool := false
  closed : Bool := false
deriving DecidableEq, Repr

namespace Handle

/-- The handle after its file may have moved along with the entries at and below `src`; a closed
handle no longer follows its file. -/
def follow (src dst : Key) (h : Handle) : Handle :=
  if h.closed then h else { h with key := h.key.map (Tree.rebase src dst) }

/-- The handle after the file at `k` has gone; a closed handle no longer knows. -/
def detach (k : Key) (h : Handle) : Handle :=
  if !h.closed && h.key = some k then { h with key := none } else h

end Handle

/-- A filesystem in memory. -/
structure Store where
  files : Tree Bytes := ⟨[]⟩
  /-- The directories; the top is one. -/
  directories : Tree Unit
  stamps : Tree Stamp
  /-- The handles, in the order in which they were opened. -/
  handles : List Handle := []
  /-- A table of symbolic links by the spelling of their paths, which only one variant of the
  filesystem uses. -/
  links : List (String × String) := []

namespace Store

/-- The store with nothing but its top directory, made at tick `now`. -/
def empty (now : Nat) : Store where
  directories := .singleton ()
  stamps := .singleton ⟨Mode.directory + 0o755, now⟩

/-- Whether a file is at a key. -/
def hasFile (s : Store) (k : Key) : Bool :=
  (s.files.get? k).isSome

/-- Whether a directory is at a key. -/
def hasDirectory (s : Store) (k : Key) : Bool :=
  (s.directories.get? k).isSome

/-- The number of files and directories. -/
def size (s : Store) : Nat :=
  s.files.size + s.directories.size

/-- The names of the files and directories directly below a key, in order of code points. -/
def children (s : Store) (k : Key) : List String :=
  (s.files.namesBelow k ++ s.directories.namesBelow k).foldr Tree.insertName []

/-- The files and directories with what is noted of them, as one tree. -/
def tree (s : Store) : Tree Entry where
  entries :=
    (s.files.entries.filterMap fun (k, content) =>
      (s.stamps.get? k).map fun stamp => (k, .file content stamp.mode stamp.modified)) ++
    (s.directories.entries.filterMap fun (k, _) =>
      (s.stamps.get? k).map fun stamp => (k, .directory stamp.mode stamp.modified))

/-- The store with a file at a key, in place of an earlier one. -/
def putFile (k : Key) (content : Bytes) (stamp : Stamp) (s : Store) : Store :=
  { s with files := s.files.insert k content, stamps := s.stamps.insert k stamp }

/-- The store with a directory at a key. -/
def putDirectory (k : Key) (stamp : Stamp) (s : Store) : Store :=
  { s with directories := s.directories.insert k (), stamps := s.stamps.insert k stamp }

/-- The store without the file at a key. -/
def eraseFile (k : Key) (s : Store) : Store :=
  { s with files := s.files.erase k, stamps := s.stamps.erase k }

/-- The store without the directory at a key. -/
def eraseDirectory (k : Key) (s : Store) : Store :=
  { s with directories := s.directories.erase k, stamps := s.stamps.erase k }

/-- Why nothing is found at a key: a file is in the way, or nothing is there. -/
def missing (s : Store) (k : Key) : Refusal :=
  if k.parent.steps.any s.hasFile then .notDirectory else .missing

end Store

/-- A store with the clock and the supply that it uses. -/
structure Disk where
  store : Store
  clock : Nat
  supply : Supply

end Memory

/-- Computations on a disk; a failure keeps what was done before it. -/
abbrev MemoryM := EStateM Fault Memory.Disk

namespace Memory

/-- The present tick of the clock, which moves on. -/
def tick : MemoryM Nat :=
  modifyGet fun d => (d.clock, { d with clock := d.clock + 1 })

/-- The next number of the supply. -/
def draw : MemoryM Int :=
  modifyGet fun d => (d.supply.draw.1, { d with supply := d.supply.draw.2 })

/-- Whether a file is at a key. -/
def hasFile (k : Key) : MemoryM Bool :=
  return (← get).store.hasFile k

/-- Whether a directory is at a key. -/
def hasDirectory (k : Key) : MemoryM Bool :=
  return (← get).store.hasDirectory k

/-- The content of the file at a key, which has to be there. -/
def contentAt (k : Key) : MemoryM Bytes := do
  match (← get).store.files.get? k with
  | some content => return content
  | none => throw (.noEntry k.toString)

/-- What is noted of the entry at a key, which has to be there. -/
def stampAt (k : Key) : MemoryM Stamp := do
  match (← get).store.stamps.get? k with
  | some stamp => return stamp
  | none => throw (.noEntry k.toString)

/-- Changes the store. -/
def modifyStore (f : Store → Store) : MemoryM Unit :=
  modify fun d => { d with store := f d.store }

/-- Changes every handle. -/
def modifyHandles (f : Handle → Handle) : MemoryM Unit :=
  modifyStore fun s => { s with handles := s.handles.map f }

/-- Fails because nothing is at the key that `path` names. -/
def failMissing {α : Type} (k : Key) (path : String) : MemoryM α :=
  do throw (.onPath ((← get).store.missing k) path)

/-- The result of a pure step, or its failure. -/
def liftStep {α : Type} (r : Except Fault α) : MemoryM α :=
  match r with
  | .ok a => pure a
  | .error f => throw f

/-- Puts a file at a key with the present tick. -/
def putFile (k : Key) (content : Bytes) (mode : Nat) : MemoryM Unit := do
  let now ← tick
  modifyStore (·.putFile k content ⟨mode, now⟩)

/-- Gives the file at a key a new content and the present tick; its mode stays. -/
def commit (k : Key) (content : Bytes) : MemoryM Unit := do
  let mode := (((← get).store.stamps.get? k).map Stamp.mode).getD (Mode.regular + 0o644)
  putFile k content mode

end Memory

end RootedFS
