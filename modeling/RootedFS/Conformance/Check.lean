import RootedFS.FileSystem.Content

/-!
# Checks

A scenario of the conformance suite is a computation that uses a filesystem and checks what it
sees. It ends early when a check is not met, when it asks for a capability that is not there, or
when a call fails that should not.

## Main definitions

* `Conformance.Setback`, `CheckM`: why a scenario ends early, and scenarios as computations
* `Conformance.require`, `Conformance.expectFault`, `Conformance.withFile`
* `Conformance.Verdict`: the outcome of a scenario
-/

namespace RootedFS

namespace Conformance

/-- Why a scenario ends early. -/
inductive Setback where
  | unmet
  | skipped
  | fault (f : Fault)
deriving DecidableEq, Repr

/-- The outcome of a scenario. -/
inductive Verdict where
  | passed
  | failed
  | skipped
  | error (f : Fault)
deriving DecidableEq, Repr

/-- The outcome of a scenario that ends early. -/
def Setback.verdict : Setback → Verdict
  | unmet => .failed
  | skipped => .skipped
  | fault f => .error f

end Conformance

/-- Scenarios as computations on a world. -/
abbrev CheckM := EStateM Conformance.Setback World

namespace Conformance

/-- A call whose failure ends the scenario. -/
def call {α : Type} (act : WorldM α) : CheckM α := fun w =>
  match act w with
  | .ok a w => .ok a w
  | .error f w => .error (.fault f) w

instance : MonadLift WorldM CheckM where
  monadLift act := call act

/-- Checks a condition. -/
def require (condition : Bool) : CheckM Unit :=
  unless condition do throw .unmet

/-- Checks that a call fails with a fault of some sort; any other fault ends the scenario. -/
def expectFault {α : Type} (sort : Fault → Bool) (act : WorldM α) : CheckM Unit := fun w =>
  match act w with
  | .ok _ w => .error .unmet w
  | .error f w => if sort f then .ok () w else .error (.fault f) w

/-- Checks that a call fails because something is missing. -/
def expectMissing {α : Type} (act : WorldM α) : CheckM Unit :=
  expectFault (fun f => f.kind = .missing) act

/-- Checks that a call fails because something is there already. -/
def expectPresent {α : Type} (act : WorldM α) : CheckM Unit :=
  expectFault (fun f => f.kind = .present) act

/-- Checks that a call fails because something on the way is not a directory. -/
def expectNotDirectory {α : Type} (act : WorldM α) : CheckM Unit :=
  expectFault (fun f => f.kind = .notDirectory) act

/-- Checks that a call fails because the handle lacks the access. -/
def expectUnsupported {α : Type} (act : WorldM α) : CheckM Unit :=
  expectFault (fun f => f.kind = .unsupported) act

/-- Checks that the filesystem refuses a call, for whatever reason. -/
def expectRefusal {α : Type} (act : WorldM α) : CheckM Unit :=
  expectFault Fault.isFilesystemError act

/-- Uses a handle and closes it afterwards, also if the scenario ends early. -/
def withFile (f : File) (body : CheckM Unit) : CheckM Unit := do
  tryCatch body fun e => do
    discard <| call f.close
    throw e
  discard <| call f.close

/-- The bytes of a text of ASCII characters. -/
def ascii (s : String) : Bytes :=
  s.toList.map fun c => UInt8.ofNat c.toNat

/-- Writes a file with the permissions that files usually get. -/
def put (fs : FileSystem) (path : String) (text : String) : CheckM Unit :=
  fs.writeContent path (ascii text) 0o644

/-- Makes a directory with the permissions that directories usually get. -/
def makeDirectory (fs : FileSystem) (path : String) : CheckM Unit :=
  fs.makeDirectories path 0o755

/-- Checks the content of a file. -/
def requireContent (fs : FileSystem) (path : String) (text : String) : CheckM Unit := do
  require ((← fs.readContent path) = ascii text)

/-- Checks that a directory is at a path. -/
def requireDirectory (fs : FileSystem) (path : String) : CheckM Unit := do
  require (← fs.stat path).isDirectory

end Conformance

end RootedFS
