import RootedFS.Conformance.Scenario

/-!
# Scenarios on files

Creating, opening, relocation, removing, and asking for metadata.

## Main definitions

* `Conformance.fileScenarios`
-/

namespace RootedFS.Conformance

/-- Flags for opening an existing file for writing. -/
def writing : OpenFlags := ⟨0x1⟩

/-- Flags for opening a file for reading and writing. -/
def readingWriting : OpenFlags := ⟨0x2⟩

/-- Flags for opening a file for writing, made if it is missing. -/
def writingCreate : OpenFlags := ⟨0x41⟩

/-- Flags for making a file for writing, which must not exist. -/
def writingFresh : OpenFlags := ⟨0xC1⟩

/-- Flags for emptying an existing file for writing. -/
def writingTruncate : OpenFlags := ⟨0x201⟩

/-- Flags for writing at the end of an existing file. -/
def appending : OpenFlags := ⟨0x401⟩

/-- Creates a file, checks that the handle has the name that was asked for, and closes it. -/
def createNamed (fs : FileSystem) (path : String) : CheckM Unit := do
  let f ← fs.create path
  require (f.name = path)
  discard <| call f.close

/-- Handles on new files have the names that were asked for. -/
def creation : List Scenario := [
  { name := "create", run := fun fs => createNamed fs "foo" },
  { name := "create_depth", run := fun fs => createNamed fs "bar/foo" },
  { name := "create_depth_absolute"
    run := fun fs => do
      createNamed fs "/bar/foo"
      require ((← fs.stat "bar/foo").name = "foo") },
  { name := "create_and_read"
    run := fun fs => do
      let f ← fs.create "foo"
      withFile f do
        require ((← f.write (ascii "foo")) = 3)
      let g ← fs.openRead "foo"
      withFile g do
        require (g.name = "foo")
        require ((← g.read (some (-1))) = ascii "foo") },
  { name := "create_overwrite"
    run := fun fs => do
      put fs "foo" "foo"
      let f ← fs.create "foo"
      withFile f do
        discard <| call (f.write (ascii "bar"))
      requireContent fs "foo" "bar" },
  { name := "create_with_existing_dir"
    run := fun fs => do
      makeDirectory fs "foo"
      expectRefusal (fs.create "foo") }]

/-- Opening asks for the access that the flags tell, and for an entry that can be opened. -/
def opening : List Scenario := [
  { name := "open_not_exists", run := fun fs => expectMissing (fs.openRead "not-found") },
  { name := "open_read_only_rejects_write"
    run := fun fs => do
      put fs "foo" "foo"
      let f ← fs.openRead "foo"
      withFile f do
        expectUnsupported (f.write (ascii "bar")) },
  { name := "open_file_write_only_rejects_read"
    run := fun fs => do
      let f ← fs.openFile "foo" writingCreate 0o644
      withFile f do
        expectUnsupported (f.read (some (-1))) },
  { name := "open_file_append"
    run := fun fs => do
      put fs "foo" "foo"
      let f ← fs.openFile "foo" appending 0o644
      withFile f do
        discard <| call (f.write (ascii "bar"))
      requireContent fs "foo" "foobar" },
  { name := "open_file_truncate"
    run := fun fs => do
      put fs "foo" "foo"
      let f ← fs.openFile "foo" writingTruncate 0o644
      withFile f do
        discard <| call (f.write (ascii "x"))
      requireContent fs "foo" "x" },
  { name := "open_file_exclusive"
    run := fun fs => do
      put fs "foo" "foo"
      expectPresent (fs.openFile "foo" writingFresh 0o644) },
  { name := "open_file_read_write"
    run := fun fs => do
      put fs "foo" "foo"
      let f ← fs.openFile "foo" readingWriting 0o644
      withFile f do
        require (f.name = "foo")
        discard <| call (f.write (ascii "F"))
        discard <| call (f.seek 0 0)
        require ((← f.read (some (-1))) = ascii "Foo")
      requireContent fs "foo" "Foo" },
  { name := "open_under_file"
    run := fun fs => do
      put fs "file" "x"
      expectNotDirectory (fs.openRead "file/x") }]

/-- Handles keep positions of their own and follow their files. -/
def handles : List Scenario := [
  { name := "seek_and_read"
    run := fun fs => do
      put fs "foo" "0123456789"
      let f ← fs.openRead "foo"
      withFile f do
        require ((← f.seek 3 0) = 3)
        require ((← f.read (some 2)) = ascii "34")
        require ((← f.tell) = 5)
        discard <| call (f.seek (-2) 2)
        require ((← f.read (some (-1))) = ascii "89") },
  { name := "handles_are_independent"
    run := fun fs => do
      let a ← fs.create "a"
      let b ← fs.create "b"
      discard <| call a.close
      discard <| call (b.write (ascii "still open"))
      discard <| call b.close
      requireContent fs "b" "still open" },
  { name := "open_handle_follows_rename"
    run := fun fs => do
      let f ← fs.create "a"
      discard <| call (f.write (ascii "data"))
      fs.rename "a" "b"
      discard <| call f.close
      requireContent fs "b" "data"
      expectMissing (fs.stat "a") },
  { name := "open_handle_after_remove"
    run := fun fs => do
      let f ← fs.create "a"
      discard <| call (f.write (ascii "data"))
      fs.remove "a"
      discard <| call f.close
      expectMissing (fs.stat "a") }]

/-- Metadata tells the name, the size and the kind. -/
def metadata : List Scenario := [
  { name := "stat_under_file"
    run := fun fs => do
      put fs "file" "x"
      expectNotDirectory (fs.stat "file/x") },
  { name := "stat"
    run := fun fs => do
      put fs "foo/bar" "123"
      let info ← fs.stat "foo/bar"
      require (info.name = "bar")
      require (info.size = 3)
      require (!info.isDirectory)
      require info.modified.isSome },
  { name := "stat_dir"
    run := fun fs => do
      put fs "foo/bar" "123"
      let info ← fs.stat "foo"
      require (info.name = "foo")
      require info.isDirectory },
  { name := "stat_non_existent", run := fun fs => expectMissing (fs.stat "non-existent") }]

/-- Renaming moves files and whole directories. -/
def relocation : List Scenario := [
  { name := "rename"
    run := fun fs => do
      put fs "foo" "foo"
      fs.rename "foo" "bar"
      expectMissing (fs.stat "foo")
      requireContent fs "bar" "foo" },
  { name := "rename_to_nested"
    run := fun fs => do
      put fs "foo" "foo"
      fs.rename "foo" "a/b/bar"
      requireContent fs "a/b/bar" "foo" },
  { name := "rename_dir"
    run := fun fs => do
      put fs "foo/bar/x" "x"
      fs.rename "foo" "baz"
      expectMissing (fs.stat "foo")
      requireContent fs "baz/bar/x" "x" },
  { name := "rename_dir_onto_non_empty_dir"
    run := fun fs => do
      put fs "a/x" "1"
      put fs "b/x" "2"
      expectRefusal (fs.rename "a" "b")
      requireContent fs "a/x" "1"
      requireContent fs "b/x" "2" },
  { name := "rename_dir_onto_empty_dir"
    run := fun fs => do
      put fs "a/x" "1"
      makeDirectory fs "b"
      fs.rename "a" "b"
      requireContent fs "b/x" "1" }]

/-- Removing takes away files and empty directories. -/
def removal : List Scenario := [
  { name := "remove"
    run := fun fs => do
      put fs "foo" "foo"
      fs.remove "foo"
      expectMissing (fs.stat "foo") },
  { name := "remove_non_existent", run := fun fs => expectMissing (fs.remove "non-existent") },
  { name := "remove_empty_dir"
    run := fun fs => do
      makeDirectory fs "empty"
      fs.remove "empty"
      expectMissing (fs.stat "empty") },
  { name := "remove_non_empty_dir"
    run := fun fs => do
      put fs "dir/file" "x"
      expectRefusal (fs.remove "dir")
      requireContent fs "dir/file" "x" }]

/-- Joining puts elements after one another and normalises. -/
def joining : List Scenario := [
  { name := "join"
    run := fun fs => do
      require (fs.join ["foo", "bar"] = "foo/bar")
      require (fs.join ["foo", "/bar"] = "foo/bar")
      require (fs.join ["foo", "bar", "..", "qux"] = "foo/qux") }]

/-- The scenarios on files. -/
def fileScenarios : List Scenario :=
  creation ++ opening ++ handles ++ metadata ++ relocation ++ removal ++ joining

end RootedFS.Conformance
