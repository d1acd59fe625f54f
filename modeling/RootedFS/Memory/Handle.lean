import RootedFS.Memory.Store

/-!
# Handles of the filesystem in memory

A handle works on its own copy of the content. Flushing hands the copy to the file, if it has
changed and the file still exists; closing flushes first.

## Main definitions

* `Memory.read`, `Memory.write`, `Memory.seek`, `Memory.tell`, `Memory.truncate`
* `Memory.flush`, `Memory.close`
-/

namespace RootedFS.Memory

/-- Replaces a handle. -/
def setHandle (id : Nat) (h : Handle) : MemoryM Unit :=
  modifyStore fun s => { s with handles := s.handles.set id h }

/-- The handle with a number; there are no handles but those that were opened. -/
def handle (id : Nat) : MemoryM Handle := do
  match (← get).store.handles[id]? with
  | some h => return h
  | none => throw (.closedHandle "")

/-- The handle with a number, which must not be closed. -/
def openHandle (id : Nat) : MemoryM Handle := do
  let h ← handle id
  if h.closed then throw (.closedHandle h.name) else return h

/-- Reads up to `size` bytes, or all that are left if `size` is absent or negative. -/
def read (id : Nat) (size : Option Int) : MemoryM Bytes := do
  let h ← openHandle id
  unless h.flags.readable do throw (.unsupported .read)
  let (data, buffer) ← liftStep (h.buffer.read size)
  setHandle id { h with buffer }
  return data

/-- Writes bytes at the position, or at the end through an appending handle. -/
def write (id : Nat) (data : Bytes) : MemoryM Nat := do
  let h ← openHandle id
  unless h.flags.writable do throw (.unsupported .write)
  let h := { h with buffer := if h.flags.append then h.buffer.toEnd else h.buffer, dirty := true }
  -- this much stays also if the write itself fails
  setHandle id h
  let (count, buffer) ← liftStep (h.buffer.write data)
  setHandle id { h with buffer }
  return count

/-- Moves the position. -/
def seek (id : Nat) (offset origin : Int) : MemoryM Nat := do
  let h ← openHandle id
  let (position, buffer) ← liftStep (h.buffer.seek offset origin)
  setHandle id { h with buffer }
  return position

/-- The position. -/
def tell (id : Nat) : MemoryM Nat :=
  return (← openHandle id).buffer.position

/-- Cuts the content to `size` bytes, or at the position. -/
def truncate (id : Nat) (size : Option Int) : MemoryM Nat := do
  let h ← openHandle id
  unless h.flags.writable do throw (.unsupported .truncate)
  setHandle id { h with dirty := true }
  let (size, buffer) ← liftStep (h.buffer.truncate size)
  setHandle id { h with buffer, dirty := true }
  return size

/-- Hands the changed content to the file, if that still exists. -/
def flush (id : Nat) : MemoryM Unit := do
  let h ← openHandle id
  if h.dirty then
    -- the changes of a file that is gone are dropped
    if let some k := h.key then
      commit k h.buffer.content
    setHandle id { h with dirty := false }

/-- Flushes and closes; a closed handle stays closed. -/
def close (id : Nat) : MemoryM Unit := do
  let h ← handle id
  unless h.closed do
    flush id
    setHandle id { h with dirty := false, closed := true }

end RootedFS.Memory
