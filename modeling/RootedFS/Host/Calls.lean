import RootedFS.Host.Walk
import RootedFS.Number.Limits

/-!
# Calls to the host

The calls that a filesystem on the host is built from. Each takes the pieces of an absolute path
and, when it fails, names the path by those pieces. New directories and files get their
permissions less those that the host withholds from the group and from others. A file that is there
is opened only in ways that its permissions give the caller; the superuser needs none.

## Main definitions

* `Host.stat`, `Host.lstat`, `Host.scan`, `Host.readlink`
* `Host.makeDirectory`, `Host.removeDirectory`, `Host.unlink`, `Host.rename`, `Host.symlink`
* `Host.grants`: whether a file that is there may be opened
* `Host.openEntry`: the file that an opening call finds or makes
* `Host.writeContent`: a whole content for a file
-/

namespace RootedFS.Host

/-- The permissions that are left of `perm` among those in `mask`: writing is withheld from the
group and from others. -/
def withheld (mask : Nat) (perm : Int) : Nat :=
  (perm % 0o10000).toNat &&& (mask &&& 0o7755)

/-- The result of a step that concerns a path, or the refusal that names it. -/
def onRoute {α : Type} (route : List String) (r : Except Refusal α) : HostM α :=
  match r with
  | .ok a => pure a
  | .error why => throw (.forPath why (Key.toString route))

/-- The result of a step that concerns two paths, or the refusal that names them. -/
def onTexts {α : Type} (path path2 : String) (r : Except Refusal α) : HostM α :=
  match r with
  | .ok a => pure a
  | .error why => throw (.forPaths why path path2)

/-- Fails if a path holds a null character. -/
def requirePath (route : List String) : HostM Unit := do
  if hasNull (Key.toString route) then throw .nullInPath

/-- Fails unless a number fits where flags and permissions are kept. -/
def requireInt (n : Int) : HostM Unit :=
  unless fitsInt n do throw (.outOfRange .int)

/-- The status of the entry at the end of a path, symbolic links followed. -/
def stat (route : List String) : HostM Status := do
  let h ← get
  let found ← onRoute route (lookup .through h.tree route)
  return h.status found.1 found.2

/-- The status of the entry at the end of a path itself. -/
def lstat (route : List String) : HostM Status := do
  let h ← get
  let found ← onRoute route (lookup .upTo h.tree route)
  return h.status found.1 found.2

/-- Whether a path leads to an entry, symbolic links followed. -/
def leadsTo (t : Tree Node) (p : Node → Bool) (route : List String) : Bool :=
  match lookup .through t route with
  | .ok (_, node) => p node
  | .error _ => false

/-- The names in a directory, in order of code points. -/
def scan (route : List String) : HostM (List String) := do
  let h ← get
  match ← onRoute route (lookup .through h.tree route) with
  | (k, .directory _) => return h.tree.children k
  | _ => throw (.onPath .notDirectory (Key.toString route))

/-- The text of the target of a symbolic link. -/
def readlink (route : List String) : HostM String := do
  match ← onRoute route (lookup .upTo (← get).tree route) with
  | (_, .link target) => return target
  | _ => throw (.onPath .invalid (Key.toString route))

/-- Makes a directory. -/
def makeDirectory (route : List String) (perm : Int) : HostM Unit := do
  requirePath route
  requireInt perm
  match ← onRoute route (walk .upTo (← get).tree route) with
  | .entry .. => throw (.onPath .present (Key.toString route))
  | .absent k name _ =>
    modifyTree (·.insert (k ++ [name]) (.directory (withheld 0o1777 perm)))

/-- Why the entry at a key cannot be removed as a directory. -/
def removalRefusal? (t : Tree Node) (k : Key) (node : Node) : Option Refusal :=
  if !node.isDirectory then some .notDirectory
  else if k = [] then some .busy
  else if (t.children k).isEmpty then none
  else some .notEmpty

/-- Removes an empty directory. -/
def removeDirectory (route : List String) : HostM Unit := do
  let t := (← get).tree
  let (k, node) ← onRoute route (lookup .upTo t route)
  match removalRefusal? t k node with
  | some why => throw (.onPath why (Key.toString route))
  | none => modifyTree (·.erase k)

/-- Removes a file or a symbolic link. -/
def unlink (route : List String) : HostM Unit := do
  let (k, node) ← onRoute route (lookup .upTo (← get).tree route)
  if node.isDirectory then throw (.onPath .isDirectory (Key.toString route))
  modifyTree (·.erase k)

/-- Fails unless the pieces before the last lead to a directory. -/
def requireParent (t : Tree Node) (route : List String) : Except Refusal Unit := do
  match pathRefusal? (Key.toString route) with
  | some why => throw why
  | none =>
    match ← lookup .through t route.dropLast with
    | (_, .directory _) => return ()
    | _ => throw .notDirectory

/-- The place of an entry that a renaming call would move, and its new place. -/
def renamePlan (t : Tree Node) (route target : List String) : Except Refusal (Key × Key) := do
  if hasNull (Key.toString route) || hasNull (Key.toString target) then throw .embeddedNull
  -- the ways to both ends are walked before either end is looked at
  requireParent t route
  requireParent t target
  match ← walk .upTo t route with
  | .absent .. => throw .missing
  | .entry src node =>
    let dst ← (fun
      | .entry k _ => k
      | .absent k name _ => k ++ [name]) <$> walk .upTo t target
    if src = [] ∨ dst = [] then throw .busy
    else if src = dst then return (src, dst)
    else if Key.within src dst then
      throw .invalid
    else if Key.within dst src then throw .notEmpty
    else
      match node.isDirectory, t.get? dst with
      | _, none => return (src, dst)
      | true, some (.directory _) =>
        if (t.children dst).isEmpty then return (src, dst) else throw .notEmpty
      | true, some _ => throw .notDirectory
      | false, some (.directory _) => throw .isDirectory
      | false, some _ => return (src, dst)

/-- Gives an entry and all below it a new place, where it replaces an entry of its kind. -/
def rename (route target : List String) : HostM Unit := do
  let plan := renamePlan (← get).tree route target
  let (src, dst) ← onTexts (Key.toString route) (Key.toString target) plan
  unless src = dst do modifyTree (·.move src dst)

/-- Makes a symbolic link. -/
def symlink (target : String) (route : List String) : HostM Unit := do
  let outcome (t : Tree Node) : Except Refusal Key := do
    if hasNull target || hasNull (Key.toString route) then throw .embeddedNull
    if target = "" then throw .missing
    if maxPath ≤ target.utf8ByteSize then throw .nameTooLong
    match ← walk .upTo t route with
    | .entry .. => throw .present
    -- a slash after the name asks for a directory, which a link is not
    | .absent _ _ true => throw .missing
    | .absent k name false => return k ++ [name]
  let k ← onTexts target (Key.toString route) (outcome (← get).tree)
  modifyTree (·.insert k (.link target))

/-- The number of a new file. -/
def newFile (perm : Int) : HostM Nat :=
  modifyGet fun h =>
    (h.files.length, { h with files := h.files ++ [.owned [] (withheld 0o7777 perm)] })

/-- Gives a file a new content. -/
def changeFile (number : Nat) (content : Bytes) : HostM Unit :=
  modify fun h => { h with files := h.files.set number ((h.file number).change content) }

/-- What an opening call does at the end of its path. -/
inductive Opening where
  | directory
  /-- It opens a file, and empties it first if it is told to. -/
  | file (number : Nat)
  | make (k : Key)
  | makeNameless
  /-- It marks an entry other than a directory. -/
  | mark
deriving DecidableEq, Repr

/-- What a call does that only marks the entry at the end of its path. -/
def marking (t : Tree Node) (route : List String) (flags : OpenFlags) : Except Refusal Opening := do
  match ← lookup ⟨!flags.noFollow, false⟩ t route with
  | (_, .directory _) => return .directory
  | _ => if flags.directory then throw .notDirectory else return .mark

/-- What a call does that makes a file without a name in the directory at the end of its path. -/
def makingNameless (t : Tree Node) (route : List String) (flags : OpenFlags) :
    Except Refusal Opening := do
  if !flags.directory || !flags.writable then throw .invalid
  match ← lookup ⟨!flags.noFollow, false⟩ t route with
  | (_, .directory _) => return .makeNameless
  | _ => throw .notDirectory

/-- What an opening call does that gives access to the file at the end of its path. -/
def accessing (t : Tree Node) (route : List String) (flags : OpenFlags) :
    Except Refusal Opening := do
  let exclusive := flags.create && flags.exclusive
  let manner : Manner := ⟨!(exclusive || flags.noFollow), flags.create⟩
  match ← walk manner t route with
  | .entry _ (.directory _) =>
    if exclusive then throw .present
    else if flags.create || flags.writable || flags.truncate then throw .isDirectory
    else return .directory
  | .entry _ (.link _) =>
    if exclusive then throw .present
    else if flags.directory then throw .notDirectory
    else throw .linkLoop
  | .entry _ (.file number) =>
    if exclusive then throw .present
    else if flags.directory then throw .notDirectory
    else return .file number
  | .absent k name _ =>
    if flags.create then return .make (k ++ [name]) else throw .missing

/-- What an opening call does, or why it is refused. -/
def opening (t : Tree Node) (route : List String) (flags : OpenFlags) : Except Refusal Opening := do
  if flags.pathOnly then marking t route flags
  else if flags.create && flags.directory then throw .invalid
  else if flags.nameless then makingNameless t route flags
  else accessing t route flags

/-- Whether the caller may open a file with some flags: the access bits ask for rights, and emptying
the file is writing it. -/
def grants (h : Host) (number : Nat) (flags : OpenFlags) : Bool :=
  let r := h.file number
  let reads := flags.readable || flags.readWrite
  let writes := flags.writable || flags.truncate
  (!reads || h.permits r .read) && (!writes || h.permits r .write)

/-- The number of the file that an opening call leads to; a call that only marks its path leads to
none. A directory cannot be read, and the refusal to read it names no path. -/
def openEntry (route : List String) (flags : OpenFlags) (perm : Int) : HostM (Option Nat) := do
  requirePath route
  requireInt flags.bits
  requireInt perm
  let h ← get
  match ← onRoute route (opening h.tree route flags) with
  | .directory => throw (.unnamed .isDirectory)
  | .file number =>
    unless h.grants number flags do throw (.onPath .forbidden (Key.toString route))
    if flags.truncate then changeFile number []
    return number
  | .make k =>
    let number ← newFile perm
    modifyTree (·.insert k (.file number))
    return number
  | .makeNameless => newFile perm
  | .mark => return none

/-- Gives the file at a path a content, whether or not it exists. -/
def writeContent (route : List String) (content : Bytes) : HostM Unit := do
  if let some number ← openEntry route .overwriting 0o666 then
    unless content = [] do changeFile number content

end RootedFS.Host
