import RootedFS.Bytes
import RootedFS.Fault
import RootedFS.Literal

/-!
# Recorders

A recorder stands in for a handle: it notes every call that it receives and answers each kind of
call in one fixed way. It shows what reaches a handle through the views around it.

## Main definitions

* `Recorder`, `Recorder.Call`
* `Recorder.read`, `Recorder.write`, `Recorder.seek`, `Recorder.tell`, `Recorder.flush`,
  `Recorder.close`
-/

namespace RootedFS

namespace Recorder

/-- A call that a recorder has received, with its arguments. -/
inductive Call where
  | read (size : Option Int)
  | write (data : Bytes)
  | seek (offset origin : Int)
  | tell
  | flush
  | close
deriving DecidableEq, Repr

/-- How a recorder answers when it is closed. -/
inductive Closing where
  /-- With a value. -/
  | answer (value : Literal)
  /-- With a failure of the device. -/
  | fail (report : String)

end Recorder

/-- A handle that notes the calls it receives. -/
structure Recorder where
  calls : List Recorder.Call := []
  /-- How it answers when it is closed. -/
  closing : Recorder.Closing

/-- Computations on a recorder; a failure keeps what was noted before it. -/
abbrev RecorderM := EStateM Fault Recorder

namespace Recorder

/-- Notes a call. -/
def note (c : Call) : RecorderM Unit :=
  modify fun r => { r with calls := r.calls ++ [c] }

/-- The bytes that every reading call gives: the four letters of "data". -/
def readAnswer : Bytes := [0x64, 0x61, 0x74, 0x61]

/-- Answers a reading call. -/
def read (size : Option Int) : RecorderM Bytes := do
  note (.read size)
  return readAnswer

/-- Answers a writing call with the number of bytes. -/
def write (data : Bytes) : RecorderM Nat := do
  note (.write data)
  return data.length

/-- Answers a seek with the offset, whatever it is counted from. -/
def seek (offset origin : Int) : RecorderM Int := do
  note (.seek offset origin)
  return offset

/-- Answers that the position is zero. -/
def tell : RecorderM Nat := do
  note .tell
  return 0

/-- Notes that what is pending is to be handed on. -/
def flush : RecorderM Unit :=
  note .flush

/-- Closes in the way that the recorder was made for, any number of times. -/
def close : RecorderM Literal := do
  note .close
  match (← get).closing with
  | .answer value => return value
  | .fail report => throw (.unnamed (.device report))

end Recorder

end RootedFS
