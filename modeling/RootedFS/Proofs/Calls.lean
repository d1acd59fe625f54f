import RootedFS.FileSystem.Basic

/-!
# Calls as data

The calls on filesystems and on their handles, so that properties can range over all sequences of
them. Each call runs on any filesystem, and on the filesystem in memory alone; the two agree.

## Main definitions

* `Call`, `HandleCall`, `Answer`: calls, and what they answer
* `FileSystem.perform`, `File.use`: running a call on a filesystem or a handle
* `Memory.perform`, `Memory.use`: running a call on a store
* `Memory.Event`, `Memory.Reachable`: the stores that sequences of calls lead to

## Main results

* `FileSystem.perform_memory`, `File.use_memory`: a call on the filesystem in memory runs on its
  store
* `FileSystem.perform_view`: a call on a view is the call on the underlying filesystem with its
  paths translated, and its answer told from the base
-/

namespace RootedFS

/-- A call on a filesystem. -/
inductive Call where
  | create (path : String)
  | openRead (path : String)
  | openFile (path : String) (flags : OpenFlags) (perm : Int)
  | createTemp (directory lead : String)
  | rename (path target : String)
  | remove (path : String)
  | makeDirectories (path : String) (perm : Int)
  | stat (path : String)
  | list (path : String)
deriving DecidableEq, Repr

/-- A call on a handle. -/
inductive HandleCall where
  | read (size : Option Int)
  | write (data : Bytes)
  | seek (offset origin : Int)
  | tell
  | truncate (size : Option Int)
  | flush
  | close
deriving DecidableEq, Repr

/-- What a call answers; handles are given out as values of `φ`. -/
inductive Answer (φ : Type) where
  | file (f : φ)
  | done
  | info (i : EntryInfo Host.Status)
  | listing (l : List (EntryInfo Host.Status))
  | bytes (b : Bytes)
  | number (n : Int)
deriving DecidableEq

/-- The answer with its handle given out in another way. -/
def Answer.map {φ ψ : Type} (g : φ → ψ) : Answer φ → Answer ψ
  | file f => file (g f)
  | done => done
  | info i => info i
  | listing l => listing l
  | bytes b => bytes b
  | number n => number n

/-- The call with its paths translated; the lead of a temporary name is no path. -/
def Call.translate (g : String → String) : Call → Call
  | create path => create (g path)
  | openRead path => openRead (g path)
  | openFile path flags perm => openFile (g path) flags perm
  | createTemp directory lead => createTemp (g directory) lead
  | rename path target => rename (g path) (g target)
  | remove path => remove (g path)
  | makeDirectories path perm => makeDirectories (g path) perm
  | stat path => stat (g path)
  | list path => list (g path)

/-! ## Running calls -/

/-- Runs a call on a filesystem. -/
def FileSystem.perform (fs : FileSystem) : Call → WorldM (Answer File)
  | .create path => return .file (← fs.create path)
  | .openRead path => return .file (← fs.openRead path)
  | .openFile path flags perm => return .file (← fs.openFile path flags perm)
  | .createTemp directory lead => return .file (← fs.createTemp directory lead)
  | .rename path target => do
    fs.rename path target
    return .done
  | .remove path => do
    fs.remove path
    return .done
  | .makeDirectories path perm => do
    fs.makeDirectories path perm
    return .done
  | .stat path => return .info (← fs.stat path)
  | .list path => return .listing (← fs.list path)

/-- Runs a call on a handle. -/
def File.use (f : File) : HandleCall → WorldM (Answer File)
  | .read size => return .bytes (← f.read size)
  | .write data => return .number (← f.write data)
  | .seek offset origin => return .number (← f.seek offset origin)
  | .tell => return .number (← f.tell)
  | .truncate size => return .number (← f.truncate size)
  | .flush => do
    f.flush
    return .done
  | .close => do
    let _ ← f.close
    return .done

namespace Memory

/-- Runs a call on a store; a new handle is given out by its number and its name. -/
def perform : Call → MemoryM (Answer (Nat × String))
  | .create path => return .file (← openFile path .rewriting 0o666, path)
  | .openRead path => return .file (← openFile path .reading 0, path)
  | .openFile path flags perm => return .file (← openFile path flags perm, path)
  | .createTemp directory lead => return .file (← createTemp directory lead)
  | .rename path target => do
    rename path target
    return .done
  | .remove path => do
    remove path
    return .done
  | .makeDirectories path perm => do
    makeDirectories path perm
    return .done
  | .stat path => return .info (.plain (← stat path))
  | .list path => return .listing ((← list path).map .plain)

/-- Runs a call on the handle of a store with a number. -/
def use (id : Nat) : HandleCall → MemoryM (Answer (Nat × String))
  | .read size => return .bytes (← read id size)
  | .write data => return .number (← write id data)
  | .seek offset origin => return .number (← seek id offset origin)
  | .tell => return .number (← tell id)
  | .truncate size => return .number (← truncate id size)
  | .flush => do
    flush id
    return .done
  | .close => do
    close id
    return .done

/-- A call on a store or on one of its handles. -/
inductive Event where
  | call (c : Call)
  | use (id : Nat) (c : HandleCall)
deriving DecidableEq, Repr

/-- Runs an event. -/
def Event.run : Event → MemoryM (Answer (Nat × String))
  | call c => perform c
  | use id c => Memory.use id c

/-- The disk with which a run ends, whether or not it has failed. -/
def diskOf {α : Type} : EStateM.Result Fault Disk α → Disk
  | .ok _ d => d
  | .error _ d => d

@[simp] theorem diskOf_ok {α : Type} (a : α) (d : Disk) : diskOf (.ok a d) = d := rfl

@[simp] theorem diskOf_error {α : Type} (f : Fault) (d : Disk) :
    diskOf (.error f d : EStateM.Result Fault Disk α) = d := rfl

/-- The disk after a computation. -/
def after {α : Type} (x : MemoryM α) (d : Disk) : Disk :=
  diskOf (x.run d)

/-- The stores that sequences of calls lead to from a new one. Every call finds some clock and some
supply of numbers: other filesystems may have used both in between. -/
inductive Reachable : Store → Prop where
  | new (now : Nat) : Reachable (.empty now)
  /-- The store after one more call, also if that fails. -/
  | step {s : Store} (h : Reachable s) (clock : Nat) (supply : Supply) (e : Event) :
    Reachable (after e.run ⟨s, clock, supply⟩).store

end Memory

/-! ## Calls on the filesystem in memory, and on views -/

open World

theorem map_onStore {α β : Type} (m : Nat) (f : α → β) (x : MemoryM α) :
    f <$> onStore m x = onStore m (f <$> x) := by
  funext w
  simp only [Functor.map, EStateM.map, onStore]
  cases w.stores[m]? with
  | none => rfl
  | some s => cases hx : x ⟨s, w.clock, w.supply⟩ <;> simp [EStateM.run, EStateM.map, hx]

theorem map_onHost {α β : Type} (f : α → β) (x : HostM α) :
    f <$> onHost x = onHost (f <$> x) := by
  funext w
  simp only [Functor.map, EStateM.map, onHost]
  cases hx : x w.host <;> simp [EStateM.run, EStateM.map, hx]

/-- A computation on the host changes nothing but the host. -/
theorem World.run_onHost {α : Type} (x : HostM α) (w : World) :
    (onHost x).run w =
      match x.run w.host with
      | .ok a h => .ok a { w with host := h }
      | .error f h => .error f { w with host := h } := rfl

/-- A computation that only reads the host leaves the world as it is. -/
theorem World.run_onHost_of_read {α : Type} {act : HostM α} {w : World} {a : α}
    (h : act.run w.host = .ok a w.host) : (onHost act).run w = .ok a w := by
  rw [run_onHost, h]

theorem World.run_onHost_of_read_error {α : Type} {act : HostM α} {w : World} {f : Fault}
    (h : act.run w.host = .error f w.host) : (onHost act).run w = .error f w := by
  rw [run_onHost, h]

/-- A computation on the host that succeeds changes nothing but the host. -/
theorem World.run_onHost_eq_ok_iff {α : Type} {act : HostM α} {w w' : World} {a : α} :
    (onHost act).run w = .ok a w' ↔
      ∃ h', act.run w.host = .ok a h' ∧ w' = { w with host := h' } := by
  rw [run_onHost]
  cases act.run w.host with
  | error f h => simp
  | ok b h => simp [eq_comm, and_assoc]

/-- The handle of a store, as the filesystem in memory gives it out. -/
def File.ofStore (m : Nat) (f : Nat × String) : File :=
  .memory m f.1 f.2

/-- A call on the filesystem in memory runs on its store. -/
theorem FileSystem.perform_memory (m : Nat) (c : Call) :
    (FileSystem.memory m .plain).perform c =
      onStore m (Answer.map (File.ofStore m) <$> Memory.perform c) := by
  cases c <;>
    simp [FileSystem.perform, Memory.perform, FileSystem.create, FileSystem.openRead,
      FileSystem.openFile, FileSystem.createTemp, FileSystem.rename, FileSystem.remove,
      FileSystem.makeDirectories, FileSystem.stat, FileSystem.list, Variant.openFile,
      Variant.createTemp, Variant.rename, Variant.remove, Variant.makeDirectories, Variant.stat,
      Variant.list, map_onStore, Answer.map, File.ofStore]

/-- A call on a handle of the filesystem in memory runs on its store. -/
theorem File.use_memory (m id : Nat) (name : String) (c : HandleCall) :
    (File.memory m id name).use c =
      onStore m (Answer.map (File.ofStore m) <$> Memory.use id c) := by
  cases c <;>
    simp [File.use, Memory.use, File.read, File.write, File.seek, File.tell, File.truncate,
      File.flush, File.close, map_onStore, Answer.map]

/-- A call on a handle given out by a view goes straight to the handle inside. -/
theorem File.use_renamed (name : String) (inner : File) (c : HandleCall) :
    (File.renamed name inner).use c = inner.use c := by
  cases c <;> rfl

/-- The answer of the underlying filesystem to the translated call, as a view gives it. -/
def FileSystem.retell (underlying : FileSystem) (base : String) : Call → Answer File → Answer File
  | .create path, .file f => .file (.renamed path f)
  | .openRead path, .file f => .file (.renamed path f)
  | .openFile path _ _, .file f => .file (.renamed path f)
  | .createTemp directory _, .file f =>
    .file (.renamed (underlying.join [directory, Path.baseName f.name]) f)
  | .stat path, .info i => .info (.renamed (Path.baseName (underlying.translate base path)) i)
  | .list path, .listing l =>
    .listing (l.map fun i => .renamed (Path.stripLead i.name (underlying.translate base path)) i)
  | _, a => a

/-- A call on a view is the call on the underlying filesystem with its paths translated, and its
answer told from the base. -/
theorem FileSystem.perform_view (underlying : FileSystem) (base : String) (c : Call) :
    (FileSystem.view underlying base).perform c =
      underlying.retell base c <$>
        underlying.perform (c.translate (underlying.translate base)) := by
  cases c <;>
    simp [FileSystem.perform, Call.translate, FileSystem.create, FileSystem.openRead,
      FileSystem.openFile, FileSystem.createTemp, FileSystem.rename, FileSystem.remove,
      FileSystem.makeDirectories, FileSystem.stat, FileSystem.list, FileSystem.retell]

end RootedFS
