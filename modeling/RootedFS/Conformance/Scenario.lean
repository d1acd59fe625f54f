import RootedFS.Conformance.Check

/-!
# Scenarios

## Main definitions

* `Conformance.Scenario`: a named scenario
* `Conformance.Scenario.verdict`: the outcome of a scenario on a filesystem
-/

namespace RootedFS.Conformance

/-- A named scenario of the conformance suite. -/
structure Scenario where
  name : String
  /-- Whether the scenario is about symbolic links. -/
  needsSymlinks : Bool := false
  run : FileSystem → CheckM Unit

/-- The outcome of a scenario on the filesystem that a computation makes. A scenario about symbolic
links does not apply where there are said to be none. -/
def Scenario.verdict (s : Scenario) (hasSymlinks : Bool) (make : WorldM FileSystem) (w : World) :
    Verdict :=
  let all : CheckM Unit := do
    let fs ← call make
    if s.needsSymlinks && !hasSymlinks then throw .skipped
    s.run fs
  match all w with
  | .ok _ _ => .passed
  | .error e _ => e.verdict

end RootedFS.Conformance
