import RootedFS.FileSystem.Basic
import RootedFS.Literal

/-!
# Configurations

A configuration says which filesystem to open, and from which of its paths to see it. It is made
from named settings, which are checked, or handed in as it is.

## Main definitions

* `Config`, `Config.describe`
* `Config.ofSettings`: the configuration that settings ask for
* `Config.openFrom`: a filesystem seen from a base
* `Config.openFileSystem`: the filesystem that a configuration describes
-/

namespace RootedFS

/-- Which filesystem to open. -/
inductive Config where
  | memory (base : Literal)
  | host (root base : Literal)
  | other (value : Literal)

namespace Config

/-- The name of the kind of filesystem that a configuration asks for. -/
def kind : Config → String
  | memory _ => "memory"
  | host .. => "os"
  | other value => value.display

/-- The path from which the filesystem is seen. -/
def base : Config → Literal
  | memory base => base
  | host _ base => base
  | other _ => .none

/-- A description of a configuration. -/
def describe : Config → String
  | memory base => "MemoryFSConfig(type='memory', base=" ++ base.describe ++ ")"
  | host root base =>
    "OSFSConfig(type='os', root=" ++ root.describe ++ ", base=" ++ base.describe ++ ")"
  | other value => value.describe

/-- The value of a setting, or what stands for it if it is not given. -/
def setting (settings : List (String × Literal)) (name : String) (default : Literal) : Literal :=
  (settings.lookup name).getD default

/-- The names of the settings other than those in `known`, in the order given. -/
def unknown (settings : List (String × Literal)) (known : List String) : List String :=
  (settings.map (·.1)).filter fun name => !known.contains name

/-- The configuration that settings ask for. The setting `type` names the kind of filesystem; one
in memory, which is the usual one, knows the setting `base` besides, and one on the host knows
`root` too and must have it. -/
def ofSettings (settings : List (String × Literal)) : Except Fault Config := do
  let base := setting settings "base" .none
  match setting settings "type" (.text "memory") with
  | .text "memory" =>
    let rest := unknown settings ["type", "base"]
    unless rest = [] do throw (.unexpectedSettings "memory" rest)
    return .memory base
  | .text "os" =>
    let root := setting settings "root" (.text "")
    let rest := unknown settings ["type", "base", "root"]
    unless rest = [] do throw (.unexpectedSettings "os" rest)
    if root.isEmpty then throw .rootRequired
    return .host root base
  | kind => throw (.unknownKind kind.display)

/-- The filesystem of the directory of the host that a literal names. -/
def openRoot (root : Literal) : WorldM FileSystem :=
  match root with
  | .text path => FileSystem.openHost path
  | _ => throw (.rootType root.typeName)

/-- A filesystem seen from a base: as it is if the base is empty. The base is the second element,
after the filesystem's own, of the path that the view is rooted at. -/
def openFrom (fs : FileSystem) (base : Literal) : WorldM FileSystem :=
  match base with
  | .text path => return if path = "" then fs else fs.viewFrom path
  | _ => if base.isEmpty then return fs else throw (.elementType 1 base.typeName)

/-- The filesystem that a configuration describes, seen from its base. -/
def openFileSystem (c : Config) : WorldM FileSystem := do
  let fs ←
    match c with
    | memory _ => FileSystem.newMemory .plain
    | host root _ => openRoot root
    | other value => throw (.unknownConfiguration value.describe)
  openFrom fs c.base

end Config

end RootedFS
