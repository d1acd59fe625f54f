import RootedFS.World

/-!
# Handles

A handle on an open file, as the filesystem that opened it gives it out. A view gives out the
handle of its underlying filesystem under a name of its own: every operation goes straight to the
handle inside.

## Main definitions

* `File`, with `File.name` and `File.describe`
* `File.read`, `File.write`, `File.seek`, `File.tell`, `File.truncate`, `File.flush`, `File.close`
* `File.access`: what a handle allows
* `File.closing`: a computation after which the handle is closed, whatever happens
-/

namespace RootedFS

/-- A handle on an open file. -/
inductive File where
  /-- A handle of a store. -/
  | memory (store handle : Nat) (name : String)
  /-- A stream on a file of the host. -/
  | host (stream : Nat) (name : String)
  | recorder (id : Nat)
  /-- A handle as a view gives it out, under the view's name of the file. -/
  | renamed (name : String) (inner : File)
deriving DecidableEq, Repr

/-- What a handle allows. -/
structure File.Access where
  closed : Bool
  readable : Bool
  writable : Bool
deriving DecidableEq, Repr

namespace File

/-- The name of a handle: the path that it was opened with, in the filesystem that opened it. -/
def name : File → String
  | memory _ _ name => name
  | host _ name => name
  | recorder _ => ""
  | renamed name _ => name

/-- A description of a handle. -/
def describe : File → String
  | memory _ _ name => "MemoryFile(name=" ++ Text.quote name ++ ")"
  | host _ name => "OSFile(name=" ++ Text.quote name ++ ")"
  | recorder id => "Recorder(" ++ toString id ++ ")"
  | renamed name inner =>
    "ScopedFile(name=" ++ Text.quote name ++ ", file=" ++ inner.describe ++ ")"

open World

/-- Runs a computation on the stream with a number. -/
def onStream {α : Type} (id : Nat) (act : StreamM α) : WorldM α :=
  onHost (Host.onStream id act)

/-- Reads up to `size` bytes, or all that are left if `size` is absent or minus one. -/
def read (size : Option Int) : File → WorldM Bytes
  | memory store handle _ => onStore store (Memory.read handle size)
  | host stream _ => onStream stream (Host.Stream.readBytes size)
  | recorder id => onRecorder id (Recorder.read size)
  | renamed _ inner => inner.read size

/-- Writes bytes and returns their number. -/
def write (data : Bytes) : File → WorldM Nat
  | memory store handle _ => onStore store (Memory.write handle data)
  | host stream _ => onStream stream (Host.Stream.writeBytes data)
  | recorder id => onRecorder id (Recorder.write data)
  | renamed _ inner => inner.write data

/-- Moves the position by an offset from an origin, and returns it. -/
def seek (offset origin : Int) : File → WorldM Int
  | memory store handle _ => return ← onStore store (Memory.seek handle offset origin)
  | host stream _ => return ← onStream stream (Host.Stream.seek offset origin)
  | recorder id => onRecorder id (Recorder.seek offset origin)
  | renamed _ inner => inner.seek offset origin

/-- The position. -/
def tell : File → WorldM Nat
  | memory store handle _ => onStore store (Memory.tell handle)
  | host stream _ => onStream stream Host.Stream.tell
  | recorder id => onRecorder id Recorder.tell
  | renamed _ inner => inner.tell

/-- Sets the size, to the position if none is given; a recorder has no size. -/
def truncate (size : Option Int) : File → WorldM Nat
  | memory store handle _ => onStore store (Memory.truncate handle size)
  | host stream _ => onStream stream (Host.Stream.truncate size)
  | recorder _ => throw (.unsupported .truncate)
  | renamed _ inner => inner.truncate size

/-- Hands what was written to the file. -/
def flush : File → WorldM Unit
  | memory store handle _ => onStore store (Memory.flush handle)
  | host stream _ => onStream stream Host.Stream.flush
  | recorder id => onRecorder id Recorder.flush
  | renamed _ inner => inner.flush

/-- Closes the handle. Only a recorder answers with a value. -/
def close : File → WorldM Literal
  | memory store handle _ => do
    onStore store (Memory.close handle)
    return .none
  | host stream _ => do
    onStream stream Host.Stream.close
    return .none
  | recorder id => onRecorder id Recorder.close
  | renamed _ inner => inner.close

/-- What a handle allows; a closed stream of the host does not tell. -/
def access : File → WorldM Access
  | memory store handle _ => do
    let h ← onStore store (Memory.handle handle)
    return ⟨h.closed, h.flags.readable, h.flags.writable⟩
  | host stream _ => do
    let s ← onStream stream Host.Stream.current
    if s.closed then throw (.closedStream .inspect)
    return ⟨false, s.reads, s.writes⟩
  | recorder _ => return ⟨false, true, true⟩
  | renamed _ inner => inner.access

/-- Runs a computation and closes the handle afterwards, also if the computation fails. Where
closing fails too, that failure is reported. -/
def closing {α : Type} (f : File) (body : WorldM α) : WorldM α := do
  let a ← tryCatch body fun e => do
    discard f.close
    throw e
  discard f.close
  return a

end File

end RootedFS
