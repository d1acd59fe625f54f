import RootedFS.Conformance.Scenario

/-!
# Scenarios on temporary files

Temporary files in the root and in other directories.

## Main definitions

* `Conformance.tempFileScenarios`
-/

namespace RootedFS.Conformance

/-- Whether a text begins with another one. -/
def beginsWith (lead s : String) : Bool :=
  (Path.dropLead? lead.toList s.toList).isSome

/-- The scenarios on temporary files. -/
def tempFileScenarios : List Scenario := [
  { name := "temp_file"
    run := fun fs => do
      let f ← fs.createTemp "" "bar"
      require (beginsWith "bar" (Path.baseName f.name))
      discard <| call f.close },
  { name := "temp_file_with_path"
    run := fun fs => do
      let f ← fs.createTemp "foo" "bar"
      require (beginsWith (fs.join ["foo", "bar"]) f.name)
      discard <| call f.close
      requireDirectory fs "foo" },
  { name := "temp_file_write_and_reopen"
    run := fun fs => do
      let f ← fs.createTemp "foo" "bar"
      withFile f do
        discard <| call (f.write (ascii "temporary"))
      requireContent fs f.name "temporary" },
  { name := "temp_file_unique"
    run := fun fs => do
      let a ← fs.createTemp "" "bar"
      let b ← fs.createTemp "" "bar"
      require (a.name ≠ b.name)
      discard <| call a.close
      discard <| call b.close }]

end RootedFS.Conformance
