/-!
# Flags for opening a file

The flags of an opening call are the bits of one integer: two bits of access, and one bit for each
request. A negative integer has the bits of its two's complement.

## Main definitions

* `OpenFlags`, with a test for each request: `create`, `exclusive`, `truncate`, `append`,
  `directory`, `noFollow`, `pathOnly`, `nameless`
* `OpenFlags.readable`, `OpenFlags.writable`: what the access bits allow
* `OpenFlags.reading`, `OpenFlags.rewriting`, `OpenFlags.overwriting`, `OpenFlags.fresh`: the
  combinations that the library itself uses
-/

namespace RootedFS

/-- The flags of an opening call. -/
structure OpenFlags where
  /-- The integer whose bits are the flags. -/
  bits : Int
deriving DecidableEq, Repr

namespace OpenFlags

/-- Whether bit number `n` is set. -/
def bit (f : OpenFlags) (n : Nat) : Bool :=
  f.bits >>> n % 2 == 1

/-- Access for writing alone. -/
def writeOnly (f : OpenFlags) : Bool := f.bit 0

/-- Access for reading and writing. -/
def readWrite (f : OpenFlags) : Bool := f.bit 1

/-- A missing file is made. -/
def create (f : OpenFlags) : Bool := f.bit 6

/-- With `create`, an existing file is refused. -/
def exclusive (f : OpenFlags) : Bool := f.bit 7

/-- The content of an existing file is dropped. -/
def truncate (f : OpenFlags) : Bool := f.bit 9

/-- Every write goes to the end of the file. -/
def append (f : OpenFlags) : Bool := f.bit 10

/-- Only a directory may be opened. -/
def directory (f : OpenFlags) : Bool := f.bit 16

/-- A symbolic link at the end of the path is refused. -/
def noFollow (f : OpenFlags) : Bool := f.bit 17

/-- The file is only marked, for no access at all; all requests but `directory` and `noFollow` are
void. -/
def pathOnly (f : OpenFlags) : Bool := f.bit 21

/-- A file without a name is made in a directory. -/
def nameless (f : OpenFlags) : Bool := f.bit 22

/-- The access bits allow reading. -/
def readable (f : OpenFlags) : Bool := !f.writeOnly

/-- The access bits allow writing. -/
def writable (f : OpenFlags) : Bool := f.writeOnly || f.readWrite

/-- The flags with bit number `n` cleared. -/
def without (f : OpenFlags) (n : Nat) : OpenFlags :=
  if f.bit n then ⟨f.bits - 1 <<< n⟩ else f

/-- The flags with the access bits set for reading and writing. -/
def withReadWrite (f : OpenFlags) : OpenFlags :=
  ⟨f.bits - f.bits % 4 + 2⟩

/-- Opening for reading. -/
def reading : OpenFlags := ⟨0⟩

/-- Opening an empty file for reading and writing, whether or not it exists. -/
def rewriting : OpenFlags := ⟨0x242⟩

/-- Opening an empty file for writing, whether or not it exists. -/
def overwriting : OpenFlags := ⟨0x241⟩

/-- Opening a file for reading and writing that must not exist yet. -/
def fresh : OpenFlags := ⟨0xC2⟩

end OpenFlags

end RootedFS
