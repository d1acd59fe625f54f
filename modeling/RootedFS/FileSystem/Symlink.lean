import RootedFS.FileSystem.Basic

/-!
# Symbolic links

Only some filesystems have symbolic links: those on the host, and one variant of those in memory;
the others do not know the operations at all. A view offers them always and fails where the
underlying filesystem has none.

An absolute target is a path of the filesystem that makes or reads the link. A view puts its base
before it when it makes the link, and tells it from the base again when it reads the link; what
lies outside the base then begins with `..`.

## Main definitions

* `FileSystem.offersSymlinks`
* `FileSystem.symlink`, `FileSystem.readlink`
* `FileSystem.rerooted base target`: an absolute target as a view with that base tells it
-/

namespace RootedFS.FileSystem

open World Host

/-- Whether the filesystem offers symbolic links. -/
def offersSymlinks : FileSystem → Bool
  | memory _ variant => variant = .linkTable
  | host _ | view .. => true

/-- Fails, with a notice, unless the filesystem under a view offers symbolic links. -/
def requireSymlinks (underlying : FileSystem) : WorldM Unit := do
  unless underlying.offersSymlinks do
    notify (.noSymlinks underlying.typeName)
    throw .symlinksUnsupported

/-- A path's text with exactly one slash at its front. -/
def fromTop (path : String) : String :=
  String.ofList ('/' :: path.toList.dropWhile (· == '/'))

/-- Makes a symbolic link at the path `link`. -/
def symlink : FileSystem → (target link : String) → WorldM Unit
  | memory store variant, target, link =>
    if variant = .linkTable then onStore store (Variant.symlink target link)
    else throw (.noOperation variant.typeName "symlink")
  | host root, target, link => onHost (Rooted.symlink root target link)
  | view underlying base, target, link => do
    underlying.requireSymlinks
    let inner :=
      if Path.isAbsolute target then fromTop (underlying.translate base target) else target
    underlying.symlink inner (underlying.translate base link)

/-- The way from the base of a view to an absolute target, as pieces. -/
def wayFrom (base target : String) : List String :=
  Key.route (Key.resolve base) (Key.resolve target)

/-- An absolute target as a view tells it: from its base. -/
def rerooted (base target : String) : String :=
  Key.toString (wayFrom base target)

/-- Whether an absolute target lies outside the base of a view. -/
def escapes (base target : String) : Bool :=
  (wayFrom base target).head? == some ".."

/-- The target of the symbolic link at a path. -/
def readlink : FileSystem → (link : String) → WorldM String
  | memory store variant, link =>
    if variant = .linkTable then onStore store (Variant.readlink link)
    else throw (.noOperation variant.typeName "readlink")
  | host root, link => do
    let target ← onHost (Rooted.readlink root link)
    if !Path.isAbsolute target then return target
    match Rooted.inside? root target with
    | some path => return path
    | none =>
      notify (.outsideRoot link (Key.toString root) target)
      return target
  | view underlying base, link => do
    underlying.requireSymlinks
    let target ← underlying.readlink (underlying.translate base link)
    if !Path.isAbsolute target then return target
    if escapes base target then notify (.outsideView link base target)
    return rerooted base target

end RootedFS.FileSystem
