import RootedFS.Conformance.Scenario

/-!
# Scenarios on directories

Making and listing directories, views of directories, and removing whole trees.

## Main definitions

* `Conformance.directoryScenarios`
-/

namespace RootedFS.Conformance

/-- Making directories makes what is missing and refuses files in the way. -/
def makingDirectories : List Scenario := [
  { name := "mkdir_all"
    run := fun fs => do
      makeDirectory fs "empty"
      requireDirectory fs "empty" },
  { name := "mkdir_all_nested"
    run := fun fs => do
      makeDirectory fs "a/b/c"
      requireDirectory fs "a"
      requireDirectory fs "a/b"
      requireDirectory fs "a/b/c" },
  { name := "mkdir_all_idempotent"
    run := fun fs => do
      makeDirectory fs "a/b"
      makeDirectory fs "a/b"
      requireDirectory fs "a/b" },
  { name := "mkdir_all_over_file"
    run := fun fs => do
      put fs "file" "x"
      expectRefusal (fs.makeDirectories "file/dir" 0o755) }]

/-- Writes the empty files that listings are checked on. -/
def putListed (fs : FileSystem) : CheckM Unit :=
  ["foo", "bar", "qux/baz", "qux/qux"].forM fun name => put fs name ""

/-- Listings have one entry for each child, in order. -/
def listing : List Scenario := [
  { name := "read_dir"
    run := fun fs => do
      putListed fs
      require ((← fs.list "/").length = 3)
      require ((← fs.list "/qux").length = 2)
      let qux := fs.viewFrom "/qux"
      require ((← qux.list "/").length = 2) },
  { name := "read_dir_entries"
    run := fun fs => do
      put fs "foo" "foo"
      put fs "qux/baz" ""
      let entries ← fs.list ""
      require (entries.map EntryInfo.name = ["foo", "qux"])
      require (entries.map EntryInfo.isDirectory = [false, true])
      require (entries.head?.map EntryInfo.size = some 3) },
  { name := "read_dir_empty"
    run := fun fs => do
      makeDirectory fs "empty"
      require (← fs.list "empty").isEmpty },
  { name := "read_dir_non_existent", run := fun fs => expectMissing (fs.list "non-existent") }]

/-- Views of directories tell names from their base. -/
def viewing : List Scenario := [
  { name := "dir_stat"
    run := fun fs => do
      putListed fs
      expectMissing (fs.stat "qu")
      let info ← fs.stat "qux"
      require (info.name = "qux")
      require info.isDirectory
      let qux := fs.viewFrom "qux"
      ["baz", "/baz"].forM fun path => do
        let info ← qux.stat path
        require (info.name = "baz")
        require (!info.isDirectory) },
  { name := "create_in_dir"
    run := fun fs => do
      let f ← (fs.viewFrom "foo").create "bar"
      discard <| call f.close
      require (f.name = "bar")
      let g ← fs.openRead "foo/bar"
      require (g.name = fs.join ["foo", "bar"])
      discard <| call g.close },
  { name := "dir_nested"
    run := fun fs => do
      let f ← ((fs.viewFrom "a").viewFrom "b").create "c"
      withFile f do
        discard <| call (f.write (ascii "deep"))
      requireContent fs "a/b/c" "deep" },
  { name := "base", run := fun fs => require (fs.base ≠ "") }]

/-- The files of a tree that is removed as a whole. -/
def treeFiles : List String := [
  "foo/1", "foo/2", "foo/bar/1", "foo/bar/2", "foo/bar/baz/1", "foo/bar/baz/qux/1",
  "foo/bar/baz/qux/2", "foo/bar/baz/qux/3"]

/-- Writes the files of a tree, removes the tree at a path, and checks that all are gone. -/
def removeWhole (path : String) (fs : FileSystem) : CheckM Unit := do
  treeFiles.forM fun name => put fs name ""
  fs.removeTree path
  treeFiles.forM fun name => expectMissing (fs.stat name)

/-- Removing a tree takes away everything in it. -/
def treeRemoval : List Scenario := [
  { name := "remove_all_non_existent", run := fun fs => fs.removeTree "non-existent" },
  { name := "remove_all_empty_dir"
    run := fun fs => do
      makeDirectory fs "empty"
      fs.removeTree "empty"
      expectMissing (fs.stat "empty") },
  { name := "remove_all[foo]", run := removeWhole "foo" },
  { name := "remove_all[foo/bar/..]", run := removeWhole "foo/bar/.." }]

/-- The scenarios on directories. -/
def directoryScenarios : List Scenario :=
  makingDirectories ++ listing ++ viewing ++ treeRemoval

end RootedFS.Conformance
