import RootedFS.Host.Calls
import RootedFS.Host.Stream

/-!
# Directories of the host as filesystems

A directory of the host serves as the top of a filesystem: a path is normalised first, so that
`..` never leads above that directory, and the names that are left are walked from there. Symbolic
links on the host are followed wherever they lead.

The root is given as a text. It is resolved once: every symbolic link on its way is replaced by
what it leads to, as far as there is anything.

## Main definitions

* `Rooted.route root path`: the way on the host to what a path names under a root
* `Rooted.resolveRoot`, `Rooted.makeRoot`: finding and making a root
* `Rooted.openFile`, `Rooted.openTemp`, `Rooted.rename`, `Rooted.remove`,
  `Rooted.makeDirectories`, `Rooted.stat`, `Rooted.list`, `Rooted.symlink`, `Rooted.readlink`
* `Rooted.inside? root target`: the path under a root that an absolute target of a link names
-/

namespace RootedFS.Host.Rooted

/-- The way on the host to what a path names under a root. -/
def route (root : Key) (path : String) : List String :=
  root ++ Key.resolve path

/-- The pieces of a path put after those of another; a path that begins with a slash stands
alone. -/
def putAfter (base : List String) : List String → List String
  | "" :: piece :: rest => piece :: rest
  | l => base ++ l

/-! ## Making directories -/

/-- The permissions of directories that are made along the way. -/
def defaultPerm : Int := 0o777

/-- Makes a directory, unless its path leads to one already. -/
def ensureDirectory (route : List String) (perm : Int) : HostM Unit :=
  tryCatch (makeDirectory route perm) fun f => do
    unless f.isFilesystemError && leadsTo (← get).tree Node.isDirectory route do throw f

/-- Makes a directory and what is missing on the way to it; the way is read backwards. Something
on the way that leads nowhere is left for the next step to fail on. -/
def makeBackwards : (back : List String) → (perm : Int) → HostM Unit
  | [], perm => ensureDirectory [] perm
  | name :: back, perm => do
    unless leadsTo (← get).tree (fun _ => true) back.reverse do
      tryCatch (makeBackwards back defaultPerm) fun f =>
        if f.kind = .present then pure () else throw f
    ensureDirectory (name :: back).reverse perm

/-- Makes a directory and whatever is missing on the way to it. -/
def makeDirectoriesAt (route : List String) (perm : Int) : HostM Unit :=
  makeBackwards route.reverse perm

/-- Makes the directories on the way to an entry, the entry itself left out. -/
def makeParents (route : List String) : HostM Unit :=
  makeDirectoriesAt route.dropLast defaultPerm

/-! ## The root -/

/-- Walks along pieces from a directory and replaces symbolic links by where `follow` says that
they lead; names of what does not exist are kept. Where a link cannot be resolved, the failure
tells the pieces up to it and those that are left. -/
def resolvePieces (follow : Key → String → Except (List String) Key) (t : Tree Node) :
    (directory : Key) → (pieces : List String) → Except (List String) Key
  | k, [] => .ok k
  | k, piece :: rest =>
    if piece = "" ∨ piece = "." then resolvePieces follow t k rest
    else if piece = ".." then resolvePieces follow t k.parent rest
    else
      match t.get? (k ++ [piece]) with
      -- the rest of the way goes on from where the link leads
      | some (.link target) =>
        match follow (k ++ [piece]) target with
        | .ok l => resolvePieces follow t l rest
        | .error stuck => .error (putAfter stuck rest)
      | _ => resolvePieces follow t (k ++ [piece]) rest

/-- Where the target of the link at a key leads, while the links `active` are being resolved: a
link among them leads into a loop. At most `depth` links are resolved inside one another. -/
def followLink (t : Tree Node) : (depth : Nat) → (active : List Key) → (link : Key) →
    (target : String) → Except (List String) Key
  | 0, _, link, _ => .error link
  | n + 1, active, link, target =>
    if link ∈ active then .error link
    else
      resolvePieces (followLink t n (link :: active)) t
        (if Path.isAbsolute target then [] else link.parent) (Path.pieces target)

/-- The key that a path leads to, as far as its links lead anywhere. -/
def resolveKey (t : Tree Node) (path : String) : Key :=
  let names := (Path.pieces path).filter fun piece => piece ≠ "" ∧ piece ≠ "."
  match resolvePieces (followLink t (t.size + 1) []) t [] names with
  | .ok k => k
  | .error stuck => Path.normalize true stuck

/-- The key of a root, which must be given by an absolute path. -/
def resolveRoot (text : String) : HostM Key := do
  unless Path.isAbsolute text do throw (.relativeRoot text)
  if hasNull text then throw .nullInPath
  let t := (← get).tree
  let root := resolveKey t text
  match lookup .through t root with
  | .error .linkLoop => throw (.rootLoop (Key.toString root))
  | _ => return root

/-- Whether a path leads to an entry of some kind; a path that leads nowhere does not. -/
def isPresent (p : Node → Bool) (route : List String) : HostM Bool := do
  match lookup .through (← get).tree route with
  | .ok (_, node) => return p node
  | .error .nameTooLong => throw (.onPath .nameTooLong (Key.toString route))
  | .error _ => return false

/-- Makes a root and whatever is missing on the way to it; the way is read backwards. -/
def makeRootBackwards : (back : List String) → HostM Unit
  | [] => ensureDirectory [] defaultPerm
  | name :: back => do
    tryCatch (ensureDirectory (name :: back).reverse defaultPerm) fun f =>
      if f.kind = .missing then do
        makeRootBackwards back
        ensureDirectory (name :: back).reverse defaultPerm
      else throw f

/-- Makes a root and whatever is missing on the way to it. -/
def makeRoot (root : Key) : HostM Unit :=
  makeRootBackwards root.reverse

/-! ## Files -/

/-- Opens a file and returns the number of the new stream. The directories on the way to a file
that may have to be made are made first. -/
def openFile (root : Key) (path : String) (flags : OpenFlags) (perm : Int) : HostM Nat := do
  if flags.create then makeParents (route root path)
  let file ← openEntry (route root path) flags perm
  openStream flags file

/-- The way to a temporary file in a directory. The lead of its name may be a path of its own; an
absolute one is walked from the top of the host. -/
def tempRoute (directory : List String) (lead : String) (number : Int) : List String :=
  putAfter directory (Path.pieces (lead ++ toString number))

/-- The permissions of temporary files. -/
def tempPerm : Int := 0o600

/-- The flags that temporary files are opened with. -/
def tempFlags : OpenFlags := ⟨OpenFlags.fresh.bits + 0o400000⟩

/-- Creates a temporary file with a number in a directory, and returns the number of its stream
and its name. -/
def openTemp (root : Key) (directory lead : String) (number : Int) : HostM (Nat × String) := do
  let way := tempRoute (route root directory) lead number
  let file ← openEntry way tempFlags tempPerm
  let stream ← openStream tempFlags file
  return (stream, Path.join [directory, way.getLast?.getD ""])

/-- Moves an entry. -/
def rename (root : Key) (path target : String) : HostM Unit := do
  makeParents (route root target)
  Host.rename (route root path) (route root target)

/-- Removes a file, a symbolic link, or an empty directory. -/
def remove (root : Key) (path : String) : HostM Unit := do
  let status ← lstat (route root path)
  if Mode.isDirectory status.mode then removeDirectory (route root path)
  else unlink (route root path)

/-! ## Directories and metadata -/

/-- Makes a directory and whatever is missing on the way to it. -/
def makeDirectories (root : Key) (path : String) (perm : Int) : HostM Unit :=
  makeDirectoriesAt (route root path) perm

/-- The metadata that a status gives an entry, if its time is one that a calendar has. -/
def info (name : String) (s : Status) : Except Fault (FileInfo Status) := do
  let modified ← Instant.ofHost s.modified
  return { name, size := s.size, mode := s.mode, modified := some modified, payload := some s }

/-- The metadata of what a path leads to. -/
def stat (root : Key) (path : String) : HostM (FileInfo Status) := do
  let status ← Host.stat (route root path)
  MonadExcept.ofExcept (info (Key.resolve path).name status)

/-- The status of what an entry leads to, or of the entry itself if it is a link to nothing. -/
def entryStatus (route : List String) : HostM Status :=
  tryCatch (Host.stat route) fun f =>
    if f.kind = .missing then lstat route else throw f

/-- The metadata of a directory's entries, by name. -/
def list (root : Key) (path : String) : HostM (List (FileInfo Status)) := do
  let names ← scan (route root path)
  names.mapM fun name => do
    let status ← entryStatus (route root path ++ [name])
    MonadExcept.ofExcept (info name status)

/-! ## Symbolic links -/

/-- Makes a symbolic link. An absolute target is taken inside the root. -/
def symlink (root : Key) (target link : String) : HostM Unit := do
  makeParents (route root link)
  let text := if Path.isAbsolute target then Key.toString (route root target) else target
  Host.symlink text (route root link)

/-- The text of the target of a symbolic link. -/
def readlink (root : Key) (link : String) : HostM String :=
  Host.readlink (route root link)

/-- The path under a root that an absolute target names, if the target is the root or its text
goes on from there. -/
def inside? (root : Key) (target : String) : Option String :=
  let text := (Key.toString root).toList
  if target.toList = text then some "/"
  else
    (Path.dropLead? (text ++ ['/']) target.toList).map fun rest =>
      Path.join ["/", String.ofList ('/' :: rest)]

end RootedFS.Host.Rooted
