import RootedFS.Fault

/-!
# Limits of numbers

Offsets and sizes are signed numbers of sixty-four bits, flags and permissions signed numbers of
thirty-two: one that does not fit is refused. A byte string can only be had up to a length.

## Main definitions

* `fitsLong`, `fitsInt`, `maxPosition`
* `requireLength`: the lengths of byte strings that can be had
-/

namespace RootedFS

/-- The largest number that fits into sixty-four bits with a sign. -/
def maxPosition : Nat := 0x7fffffffffffffff

/-- Whether a number fits into sixty-four bits with a sign. -/
def fitsLong (n : Int) : Bool :=
  -0x8000000000000000 ≤ n && n < 0x8000000000000000

/-- Whether a number fits into thirty-two bits with a sign. -/
def fitsInt (n : Int) : Bool :=
  -0x80000000 ≤ n && n < 0x80000000

/-- The longest byte string that may be asked for. -/
def maxLength : Nat := maxPosition - 33

/-- The length after which a byte string does not fit into memory. -/
def memoryLimit : Nat := 0x1000000000

/-- Fails unless a byte string of a length can be had. -/
def requireLength (length : Nat) : Except Fault Unit := do
  if maxPosition < length then throw .wrappedLength
  if maxLength < length then throw (.outOfRange .bytes)
  if memoryLimit < length then throw .outOfMemory

end RootedFS
