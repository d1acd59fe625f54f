import RootedFS.Conformance.Scenario

/-!
# Scenarios on symbolic links

Making links, reading through them, and reading their targets.

## Main definitions

* `Conformance.symlinkScenarios`
-/

namespace RootedFS.Conformance

/-- A scenario about symbolic links. -/
def linkScenario (name : String) (run : FileSystem → CheckM Unit) : Scenario :=
  { name, needsSymlinks := true, run }

/-- The scenarios on symbolic links. -/
def symlinkScenarios : List Scenario := [
  linkScenario "symlink" fun fs => do
    put fs "file" "hello"
    fs.symlink "file" "link"
    let info ← fs.stat "link"
    require (info.name = "link")
    require (info.size = 5)
    requireContent fs "link" "hello",
  linkScenario "symlink_creates_parents" fun fs => do
    put fs "foo/file" "hello"
    fs.symlink "../foo/file" "bar/link"
    requireContent fs "bar/link" "hello",
  linkScenario "symlink_existing" fun fs => do
    put fs "file" ""
    put fs "link" ""
    expectPresent (fs.symlink "file" "link"),
  linkScenario "symlink_to_dir" fun fs => do
    makeDirectory fs "dir"
    fs.symlink "dir" "link"
    let info ← fs.stat "link"
    require (info.name = "link")
    require info.isDirectory,
  linkScenario "symlink_read_dir" fun fs => do
    put fs "dir/file" "foo"
    fs.symlink "dir" "link"
    match ← fs.list "link" with
    | [info] =>
      require (info.size = 3)
      require (!info.isDirectory)
      require (info.name = "file")
    | _ => throw .unmet,
  linkScenario "readlink" fun fs => do
    put fs "file" ""
    fs.symlink "file" "link"
    require ((← fs.readlink "link") = "file"),
  linkScenario "readlink_absolute" fun fs => do
    put fs "dir/file" "abs"
    fs.symlink "/dir/file" "link"
    require ((← fs.readlink "link") = "/dir/file")
    requireContent fs "link" "abs",
  linkScenario "readlink_not_exists" fun fs =>
    expectMissing (fs.readlink "non-existent"),
  linkScenario "readlink_not_a_link" fun fs => do
    put fs "file" ""
    expectRefusal (fs.readlink "file"),
  linkScenario "read_dir_with_link" fun fs => do
    fs.writeContent "foo/bar" (ascii "foo") 0o755
    fs.symlink "bar" "foo/qux"
    let qux := fs.viewFrom "/foo"
    require ((← qux.list "/").length = 2),
  linkScenario "remove_all_keeps_link_target" fun fs => do
    put fs "dir/file" "keep"
    fs.symlink "../dir" "tree/link"
    requireDirectory fs "tree/link"
    fs.removeTree "tree"
    expectMissing (fs.stat "tree")
    requireContent fs "dir/file" "keep"]

end RootedFS.Conformance
