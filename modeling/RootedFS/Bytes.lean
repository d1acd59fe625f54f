/-!
# Byte strings

## Main definitions

* `Bytes`: the content of a file
* `Bytes.slice`: the bytes from a position on, up to a count
* `Bytes.writeAt`: bytes laid over a content at a position, zeros filling a gap
* `Bytes.resize`: a content cut or filled with zeros to a length

## Main results

* `Bytes.slice_writeAt`: what was written is read back
-/

namespace RootedFS

/-- The content of a file. -/
abbrev Bytes := List UInt8

namespace Bytes

/-- At most `count` bytes of the content from `position` on. -/
def slice (content : Bytes) (position count : Nat) : Bytes :=
  (content.drop position).take count

/-- The content cut to `size` bytes, or filled with zeros up to it. -/
def resize (content : Bytes) (size : Nat) : Bytes :=
  content.take size ++ List.replicate (size - content.length) 0

/-- The content with `data` laid over it from `position` on; zeros fill a gap before it. -/
def writeAt (content : Bytes) (position : Nat) (data : Bytes) : Bytes :=
  resize content position ++ data ++ content.drop (position + data.length)

@[simp] theorem length_resize (content : Bytes) (size : Nat) :
    (resize content size).length = size := by
  simp only [resize, List.length_append, List.length_take, List.length_replicate]
  omega

theorem length_writeAt (content : Bytes) (position : Nat) (data : Bytes) :
    (writeAt content position data).length = max content.length (position + data.length) := by
  simp only [writeAt, List.length_append, length_resize, List.length_drop]
  omega

/-- Bytes that were laid over a content are read back from where they were laid. -/
theorem slice_writeAt (content : Bytes) (position : Nat) (data : Bytes) :
    slice (writeAt content position data) position data.length = data := by
  rw [slice, writeAt, List.append_assoc,
    List.drop_left' (length_resize content position), List.take_left' rfl]

end Bytes

end RootedFS
