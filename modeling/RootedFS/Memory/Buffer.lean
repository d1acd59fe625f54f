import RootedFS.Bytes
import RootedFS.Number.Limits

/-!
# Buffers

A buffer is a byte string with a position. Reading and writing move the position; a position past
the end reads nothing, and writing there fills the gap with zeros.

## Main definitions

* `Buffer`
* `Buffer.read`, `Buffer.write`, `Buffer.seek`, `Buffer.truncate`
-/

namespace RootedFS

/-- A byte string with a position. -/
structure Buffer where
  content : Bytes
  /-- Where the next read or write begins. -/
  position : Nat := 0
deriving DecidableEq, Repr

namespace Buffer

/-- The buffer with its position at the end. -/
def toEnd (b : Buffer) : Buffer :=
  { b with position := b.content.length }

/-- Reads up to `size` bytes, or all that are left if `size` is absent or negative. -/
def read (b : Buffer) (size : Option Int) : Except Fault (Bytes × Buffer) :=
  let size := size.getD (-1)
  if !fitsLong size then .error (.outOfRange .index)
  else
    let left := b.content.length - b.position
    let count := if size < 0 then left else min size.toNat left
    .ok (b.content.slice b.position count, { b with position := b.position + count })

/-- Writes bytes at the position; no bytes leave everything as it is. A buffer that grows asks for
one byte more than it holds. -/
def write (b : Buffer) (data : Bytes) : Except Fault (Nat × Buffer) := do
  -- writing nothing past the end fills no gap
  if data = [] then return (0, b)
  let stop := b.position + data.length
  if maxPosition < stop then throw (.outOfRange .buffer)
  if b.content.length < stop then requireLength (stop + 1)
  return (data.length, ⟨b.content.writeAt b.position data, stop⟩)

/-- Moves the position: from the start, from where it is, or from the end, for the origins `0`,
`1` and `2`. A relative move stops at the start. -/
def seek (b : Buffer) (offset origin : Int) : Except Fault (Nat × Buffer) :=
  if !fitsLong offset then .error (.outOfRange .signedSize)
  else if !fitsInt origin then .error (.outOfRange .int)
  else
    let moveFrom (start : Nat) : Except Fault (Nat × Buffer) :=
      if maxPosition < offset + start then .error (.outOfRange .position)
      else
        let target := (offset + start).toNat
        .ok (target, { b with position := target })
    if origin = 0 then
      if offset < 0 then .error (.negativeSeek offset) else moveFrom 0
    else if origin = 1 then moveFrom b.position
    else if origin = 2 then moveFrom b.content.length
    else .error (.unknownOrigin origin)

/-- Cuts the content to `size` bytes, or at the position; a longer content is not made. -/
def truncate (b : Buffer) (size : Option Int) : Except Fault (Nat × Buffer) :=
  let size := size.getD b.position
  if !fitsLong size then .error (.outOfRange .index)
  else if size < 0 then .error (.negativeSize size)
  else .ok (size.toNat, { b with content := b.content.take size.toNat })

end Buffer

end RootedFS
