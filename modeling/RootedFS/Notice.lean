import RootedFS.Text.Quoted

/-!
# Notices

Besides its answer a call may report something that the caller could want to know. A notice is
told by a level and by the part of the library that gives it, and it never changes the answer.

## Main definitions

* `Notice`, `Notice.level`, `Notice.channel`, `Notice.message`
-/

namespace RootedFS

/-- How much a notice matters. -/
inductive Level where
  /-- Of interest when something is looked into. -/
  | debug
  /-- Something is likely to be wrong. -/
  | warning
deriving DecidableEq, Repr

/-- The part of the library that gives a notice. -/
inductive Channel where
  | view
  | host
deriving DecidableEq, Repr

/-- What is reported besides an answer. -/
inductive Notice where
  /-- A view was asked for a symbolic link, which its underlying filesystem does not have. -/
  | noSymlinks (typeName : String)
  /-- The target of a link lies outside the base of the view that reports it. -/
  | outsideView (link base target : String)
  /-- The root of a filesystem on the host is missing and is about to be made. -/
  | creatingRoot (root : String)
  /-- The target of a link lies outside the root of the filesystem on the host. -/
  | outsideRoot (link root target : String)
deriving DecidableEq, Repr

namespace Notice

/-- How much a notice matters. -/
def level : Notice → Level
  | outsideView .. => .warning
  | _ => .debug

/-- The part of the library that gives a notice. -/
def channel : Notice → Channel
  | noSymlinks _ | outsideView .. => .view
  | creatingRoot _ | outsideRoot .. => .host

/-- The text of a notice. -/
def message : Notice → String
  | noSymlinks typeName => typeName ++ " has no symlink capability"
  | outsideView link base target =>
    "symlink " ++ Text.quote link ++ " points outside " ++ Text.quote base ++ ": "
      ++ Text.quote target
  | creatingRoot root => "creating root directory " ++ root
  | outsideRoot link root target =>
    "symlink " ++ Text.quote link ++ " points outside root " ++ root ++ ": " ++ Text.quote target

end Notice

end RootedFS
