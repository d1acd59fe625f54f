import RootedFS.Bytes
import RootedFS.Fault
import RootedFS.Info
import RootedFS.OpenFlags
import RootedFS.Tree

/-!
# The host

The host is a tree of directories, files and symbolic links under one top. A file is kept apart
from its place in the tree, under a number that stays the same when the file is renamed and that an
open stream goes on using when the file is removed. A file need not keep what is written to it, and
its permissions may keep the caller from it; directories let every caller through.

## Main definitions

* `Host.Node`, `Host.Regular`, `Host.Stream`, `Host`
* `Host.Regular.owned`, `Host.Regular.change`: a file of the caller's, and one with a new content
* `Host.permits`: the ways in which the caller may use a file
* `Host.Status`: what the host tells of a node
* `HostM`: computations on a host
-/

namespace RootedFS

namespace Host

/-- An entry of the host. -/
inductive Node where
  | directory (perm : Nat)
  | file (number : Nat)
  | link (target : String)
deriving DecidableEq, Repr

/-- Whether an entry is a directory. -/
def Node.isDirectory : Node → Bool
  | directory _ => true
  | _ => false

/-- What the caller is to a file: some of the file's permissions are the caller's. -/
inductive Standing where
  | owner
  | group
  | other
deriving DecidableEq, Repr

/-- A way to use the content of a file. -/
inductive Right where
  | read
  | write
deriving DecidableEq, Repr

/-- The number of the bit that gives a right among permissions. -/
def Standing.bit : Standing → Right → Nat
  | owner, .read => 8
  | owner, .write => 7
  | group, .read => 5
  | group, .write => 4
  | other, .read => 2
  | other, .write => 1

/-- A file: its content and its permissions, and what the caller is to it. -/
structure Regular where
  content : Bytes
  perm : Nat
  standing : Standing
  /-- The file is a device that keeps nothing of what is written to it. -/
  sink : Bool
  empty : sink = true → content = []
deriving DecidableEq, Repr

/-- A file of the caller's own, with a content that it keeps. -/
def Regular.owned (content : Bytes) (perm : Nat) : Regular :=
  ⟨content, perm, .owner, false, nofun⟩

@[simp] theorem Regular.perm_owned (content : Bytes) (perm : Nat) :
    (Regular.owned content perm).perm = perm := rfl

/-- Whether the permissions of a file give the caller a right. -/
def Regular.allows (r : Regular) (right : Right) : Bool :=
  r.perm.testBit (r.standing.bit right)

/-- The kind and the permissions of a file. -/
def Regular.mode (r : Regular) : Nat :=
  (if r.sink then Mode.device else Mode.regular) + r.perm

/-- The permissions that are left when a file is changed: it no longer runs as its owner, nor, where
its group may run it, as its group. -/
def unprivileged (perm : Nat) : Nat :=
  let asGroup := perm / 0o2000 % 2 = 1 ∧ perm / 0o10 % 2 = 1
  perm - perm / 0o4000 % 2 * 0o4000 - if asGroup then 0o2000 else 0

/-- A file with a new content, if it keeps one. -/
def Regular.change (r : Regular) (content : Bytes) : Regular :=
  if h : r.sink = true then r
  else { r with content, perm := unprivileged r.perm, empty := fun hs => absurd hs h }

/-- What the host tells of an entry. -/
structure Status where
  mode : Nat
  /-- The size in bytes; a directory has none of its own. -/
  size : Nat
  /-- When the entry was last modified, in microseconds since the start of 1970. -/
  modified : Int
deriving DecidableEq, Repr

/-- A description of a status. -/
def Status.describe (s : Status) : String :=
  "Status(mode=" ++ toString s.mode ++ ", size=" ++ toString s.size
    ++ ", modified=" ++ toString s.modified ++ ")"

/-- An open file: a descriptor with its offset, and a block of bytes between the caller and the
file. The block holds bytes that were read ahead, bytes that are still to be written, or both; its
first byte lies `anchor` bytes before the descriptor's offset. -/
structure Stream where
  /-- The number of the file; a descriptor that only marks a path leads to none. -/
  file : Option Nat
  canRead : Bool
  canWrite : Bool
  /-- The descriptor writes at the end of the file. -/
  appends : Bool
  /-- The stream offers reading. -/
  reads : Bool
  /-- The stream offers writing. -/
  writes : Bool
  offset : Nat := 0
  /-- The descriptor's offset as the stream last heard of it. -/
  known : Nat := 0
  block : Bytes := []
  cursor : Nat := 0
  /-- The position in the block at which the descriptor's offset lies, where that is known. -/
  anchor : Option Nat := none
  /-- The end of the bytes of the block that may be read. -/
  filled : Option Nat := none
  /-- The bytes of the block that are still to be written: from the first to before the second. -/
  pending : Option (Nat × Nat) := none
  closed : Bool := false
deriving DecidableEq, Repr

end Host

/-- A host with its entries, its files, and the streams opened on them. -/
structure Host where
  /-- The entries under the top, which is a directory. -/
  tree : Tree Host.Node
  files : List Host.Regular := []
  /-- The streams, in the order in which they were opened. -/
  streams : List Host.Stream := []
  /-- The caller may read and write every file, whatever its permissions. -/
  superuser : Bool := true
  /-- The present, as a number of moments that have passed. -/
  now : Nat := 0
  /-- When the entry at a key was last modified, as the host tells it at a moment, in microseconds
  since the start of 1970. The host's clock and those who set it may have made this any time. -/
  dates : Nat → Key → Int := fun _ _ => 0

/-- Computations on a host; a failure keeps what was done before it. -/
abbrev HostM := EStateM Fault Host

namespace Host

/-- The file with a number; there are no files but those that were made. -/
def file (h : Host) (number : Nat) : Regular :=
  h.files[number]?.getD (.owned [] 0)

/-- When the entry at a key was last modified, as the host tells it now. -/
def date (h : Host) (k : Key) : Int :=
  h.dates h.now k

/-- Whether the caller may use a file in some way. -/
def permits (h : Host) (r : Regular) (right : Right) : Bool :=
  h.superuser || r.allows right

/-- What is told of the entry at a key. -/
def status (h : Host) (k : Key) : Node → Status
  | .directory perm => ⟨Mode.directory + perm, 0, h.date k⟩
  | .file number => ⟨(h.file number).mode, (h.file number).content.length, h.date k⟩
  | .link target => ⟨Mode.link + 0o777, target.utf8ByteSize, h.date k⟩

/-- Changes the tree of entries. -/
def modifyTree (f : Tree Node → Tree Node) : HostM Unit :=
  modify fun h => { h with tree := f h.tree }

end Host

end RootedFS
