import RootedFS.Host.Rooted
import RootedFS.Memory.Variant
import RootedFS.Notice
import RootedFS.Recorder

/-!
# Worlds

A world holds everything that filesystems and handles refer to: the stores of filesystems in
memory, the host, the recorders, one clock and one supply of numbers for all of them, and the
notices that were given. Filesystems and handles themselves are plain values that point into a
world by number.

## Main definitions

* `World`, `WorldM`: a world, and computations on it
* `World.onStore`, `World.onHost`, `World.onRecorder`: computations on a part of the world
* `World.newStore`, `World.newRecorder`, `World.draw`, `World.notify`
-/

namespace RootedFS

/-- Everything that filesystems and handles refer to. -/
structure World where
  clock : Nat := 0
  supply : Supply := {}
  /-- The stores of the filesystems in memory, in the order in which they were made. -/
  stores : List Memory.Store := []
  host : Host
  /-- The recorders, in the order in which they were made. -/
  recorders : List Recorder := []
  /-- The notices, in the order in which they were given. -/
  notices : List Notice := []

/-- Computations on a world; a failure keeps what was done before it. -/
abbrev WorldM := EStateM Fault World

namespace World

variable {α : Type}

/-- The number of entries of all filesystems. -/
def size (w : World) : Nat :=
  w.stores.foldl (fun n s => n + s.size) w.host.tree.size

/-- The world after a computation on the store with a number. -/
def putDisk (w : World) (id : Nat) (d : Memory.Disk) : World :=
  { w with stores := w.stores.set id d.store, clock := d.clock, supply := d.supply }

/-- Runs a computation on the store with a number; there are no stores but those that were
made. -/
def onStore (id : Nat) (act : MemoryM α) : WorldM α := fun w =>
  match w.stores[id]? with
  | none => .error (.unnamed .missing) w
  | some store =>
    match act.run ⟨store, w.clock, w.supply⟩ with
    | .ok a d => .ok a (w.putDisk id d)
    | .error f d => .error f (w.putDisk id d)

/-- Runs a computation on the host. -/
def onHost (act : HostM α) : WorldM α := fun w =>
  match act.run w.host with
  | .ok a host => .ok a { w with host }
  | .error f host => .error f { w with host }

/-- Runs a computation on the recorder with a number; there are no recorders but those that were
made. -/
def onRecorder (id : Nat) (act : RecorderM α) : WorldM α := fun w =>
  match w.recorders[id]? with
  | none => .error (.unnamed .missing) w
  | some recorder =>
    match act.run recorder with
    | .ok a r => .ok a { w with recorders := w.recorders.set id r }
    | .error f r => .error f { w with recorders := w.recorders.set id r }

/-- Makes a store with nothing but its top directory, and returns its number. -/
def newStore : WorldM Nat :=
  modifyGet fun w =>
    (w.stores.length,
      { w with stores := w.stores ++ [.empty w.clock], clock := w.clock + 1 })

/-- Makes a recorder, and returns its number. -/
def newRecorder (closing : Recorder.Closing) : WorldM Nat :=
  modifyGet fun w =>
    (w.recorders.length, { w with recorders := w.recorders ++ [{ closing }] })

/-- The next number of the supply. -/
def draw : WorldM Int :=
  modifyGet fun w => (w.supply.draw.1, { w with supply := w.supply.draw.2 })

/-- Gives a notice. -/
def notify (n : Notice) : WorldM Unit :=
  modify fun w => { w with notices := w.notices ++ [n] }

end World

end RootedFS
