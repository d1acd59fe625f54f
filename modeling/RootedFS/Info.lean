import RootedFS.Clock
import RootedFS.Fault
import RootedFS.Text.Quoted

/-!
# Metadata of entries

What is known of a file or directory: its name, its size, its mode, and when it was last modified.
A view reports the same entry under a name of its own and passes everything else on.

## Main definitions

* `Mode`: the kinds of entries as bits of a mode, and `Mode.check`
* `FileInfo`: the metadata of an entry, with whatever its backend adds
* `EntryInfo`: metadata as reported, possibly renamed by views
-/

namespace RootedFS

namespace Mode

/-- The bits of a regular file. -/
def regular : Nat := 0o100000

/-- The bits of a directory. -/
def directory : Nat := 0o040000

/-- The bits of a symbolic link. -/
def link : Nat := 0o120000

/-- The bits of a device that is read and written byte by byte. -/
def device : Nat := 0o020000

/-- Whether the kind that a mode tells is a directory. -/
def isDirectory (mode : Int) : Bool :=
  mode / 0o10000 % 0o20 == 4

/-- Fails unless a number fits into the thirty-two bits of a mode. -/
def check (mode : Int) : Except Fault Unit := do
  if mode < 0 then throw (.outOfRange .unsigned)
  if 0x10000000000000000 ≤ mode then throw (.outOfRange .unsignedLong)
  if 0x100000000 ≤ mode then throw (.outOfRange .mode)

/-- The nine bits of permissions of an integer. -/
def permissions (perm : Int) : Nat :=
  (perm % 0o1000).toNat

end Mode

/-- The metadata of a file or directory; `σ` is what the backend adds. -/
structure FileInfo (σ : Type) where
  name : String
  size : Int
  mode : Int
  /-- When the entry was last modified, where the backend keeps track of it. -/
  modified : Option Instant
  payload : Option σ
deriving DecidableEq, Repr

/-- Metadata as a filesystem reports it. -/
inductive EntryInfo (σ : Type) where
  | plain (info : FileInfo σ)
  /-- From a view, under the view's name of the entry. -/
  | renamed (name : String) (inner : EntryInfo σ)
deriving DecidableEq, Repr

namespace EntryInfo

variable {σ : Type}

/-- The metadata that the backend gave. -/
def origin : EntryInfo σ → FileInfo σ
  | plain info => info
  | renamed _ inner => inner.origin

/-- The name that is reported: the outermost view's, or the backend's. -/
def name : EntryInfo σ → String
  | plain info => info.name
  | renamed name _ => name

/-- The size in bytes. -/
def size (i : EntryInfo σ) : Int := i.origin.size

/-- The bits of the kind and the permissions. -/
def mode (i : EntryInfo σ) : Int := i.origin.mode

/-- When the entry was last modified, where the backend keeps track of it. -/
def modified (i : EntryInfo σ) : Option Instant := i.origin.modified

/-- What the backend adds. -/
def payload (i : EntryInfo σ) : Option σ := i.origin.payload

/-- Whether the entry is a directory. -/
def isDirectory (i : EntryInfo σ) : Bool := Mode.isDirectory i.mode

/-- Whether the entry is a directory, asked of metadata that may come from anywhere: the number that
stands for its mode need not be one. -/
def checkDirectory (i : EntryInfo σ) : Except Fault Bool := do
  Mode.check i.mode
  return i.isDirectory

/-- Whether the entry is a symbolic link itself. -/
def isLink (i : EntryInfo σ) : Bool := i.mode / 0o10000 % 0o20 == 10

/-- A description of the metadata, with the text of the payload. -/
def describe (payloadText : σ → String) : EntryInfo σ → String
  | plain info =>
    "FileInfo(name=" ++ Text.quote info.name ++ ", size=" ++ toString info.size
      ++ ", mode=" ++ toString info.mode
      ++ ", mod_time=" ++ (info.modified.map Instant.describe).getD "None"
      ++ ", sys=" ++ (info.payload.map payloadText).getD "None" ++ ")"
  | renamed name inner =>
    "ScopedFileInfo(name=" ++ Text.quote name ++ ", info=" ++ inner.describe payloadText ++ ")"

end EntryInfo

end RootedFS
