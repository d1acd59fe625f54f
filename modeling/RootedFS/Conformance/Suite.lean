import RootedFS.Conformance.Directories
import RootedFS.Conformance.Files
import RootedFS.Conformance.Symlinks
import RootedFS.Conformance.TempFiles

/-!
# The conformance suite

All scenarios, and the filesystems that they are run on: healthy ones, ones that deviate, and views
of both.

## Main definitions

* `Conformance.scenarios`, `Conformance.scenario?`
* `Conformance.Subject`: a filesystem that scenarios are run on
* `Conformance.verdict`: the outcome of a scenario on a subject, in a new world
-/

namespace RootedFS.Conformance

/-- All scenarios. -/
def scenarios : List Scenario :=
  fileScenarios ++ directoryScenarios ++ symlinkScenarios ++ tempFileScenarios

/-- The scenario of a name. -/
def scenario? (name : String) : Option Scenario :=
  scenarios.find? (·.name = name)

/-- A filesystem that scenarios are run on. -/
inductive Subject where
  | memory (variant : Variant)
  | memoryView (variant : Variant)
  /-- The view that a filesystem in memory gives of one of its paths. -/
  | memoryDirectory
  /-- A view of a filesystem in memory that is said to have symbolic links. -/
  | memoryClaimant
  | host
  | hostView
  /-- The view that a filesystem on the host gives of one of its paths. -/
  | hostDirectory
deriving DecidableEq, Repr

namespace Subject

/-- Whether the subject is said to have symbolic links. -/
def hasSymlinks : Subject → Bool
  | memory variant => variant = .linkTable
  | memoryView _ | memoryDirectory => false
  | memoryClaimant | host | hostView | hostDirectory => true

/-- Makes the subject; `root` is the directory of the host that it may use. -/
def make (root : String) : Subject → WorldM FileSystem
  | memory variant => FileSystem.newMemory variant
  | memoryView variant => return .view (← FileSystem.newMemory variant) "scoped"
  | memoryDirectory => return (← FileSystem.newMemory .plain).viewFrom "scoped"
  | memoryClaimant => return .view (← FileSystem.newMemory .plain) "scoped"
  | host => FileSystem.openHost root
  | hostView => return .view (← FileSystem.openHost root) "scoped"
  | hostDirectory => return (← FileSystem.openHost root).viewFrom "a/b/c"

end Subject

/-- The outcome of a scenario on a subject, in a world of its own with a host and a supply of
numbers. -/
def verdict (s : Scenario) (subject : Subject) (host : Host) (root : String) (supply : Supply) :
    Verdict :=
  s.verdict subject.hasSymlinks (subject.make root) { host, supply }

end RootedFS.Conformance
