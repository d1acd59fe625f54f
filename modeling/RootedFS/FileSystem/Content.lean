import RootedFS.FileSystem.Symlink

/-!
# Whole files and whole trees

Operations that are built from those of any filesystem: writing and reading a file at once, and
removing an entry with everything below it.

## Main definitions

* `FileSystem.writeContent`, `FileSystem.readContent`
* `FileSystem.isSymlink`, `FileSystem.removeTree`
-/

namespace RootedFS.FileSystem

/-- Gives a file a content, whether or not it exists. -/
def writeContent (fs : FileSystem) (path : String) (data : Bytes) (perm : Int) : WorldM Unit := do
  let f ← fs.openFile path .overwriting perm
  f.closing do discard (f.write data)

/-- The content of a file. -/
def readContent (fs : FileSystem) (path : String) : WorldM Bytes := do
  let f ← fs.openRead path
  f.closing (f.read (some (-1)))

/-- Whether a symbolic link is at a path. -/
def isSymlink (fs : FileSystem) (path : String) : WorldM Bool :=
  if fs.offersSymlinks then
    tryCatch (do discard (fs.readlink path); return true) fun f =>
      if f.isFilesystemError || f.kind = .noSymlinks then return false else throw f
  else return false

/-- Removes the entry at a path and everything in up to `depth` levels of directories below it.
Nothing at the path is no failure, and symbolic links are removed but not followed. -/
def removeLevels (fs : FileSystem) : (depth : Nat) → (path : String) → WorldM Unit
  | 0, _ => throw .endless
  | n + 1, path => do
    let info? ← tryCatch (some <$> fs.stat path) fun f =>
      if f.kind = .missing then return none else throw f
    match info? with
    | none => if ← fs.isSymlink path then fs.remove path
    | some info =>
      if info.isDirectory then
        unless ← fs.isSymlink path do
          let infos ← fs.list path
          infos.forM fun i => removeLevels fs n (fs.join [path, i.name])
      fs.remove path

/-- Removes the entry at a path and everything below it. There are no more levels of directories
than there are entries: only a listing that leads back to its own directory goes beyond them. -/
def removeTree (fs : FileSystem) (path : String) : WorldM Unit := do
  fs.removeLevels ((← get).size + 1) path

end RootedFS.FileSystem
