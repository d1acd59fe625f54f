import RootedFS.Path.Pieces

/-!
# Lexical paths

What a path means is read off its text alone: whether it starts at the top, and the names that
are left when its pieces are read from left to right, where an empty piece and `.` say nothing
and `..` takes back the name before it. At the top of an absolute path there is nothing to take
back and `..` is dropped; a relative path keeps it as a leading `..`.

Joining concatenates and then normalises, so an absolute element in the middle of a join does not
discard what came before it.

## Main definitions

* `Path`: the lexical meaning of a path
* `Path.ofString`, `Path.toString`: reading a path, and writing its normal form
* `Path.clean`: the normal form of a path's text
* `Path.join`: the normal form of several paths put after one another
* `Path.baseName`: the last piece of a path
* `Path.stripLead`: a name without a leading run of whole pieces
-/

namespace RootedFS

/-- The lexical meaning of a path. -/
structure Path where
  absolute : Bool
  /-- The names from the start of the path down; a relative path may begin with `..` pieces. -/
  segments : List String
deriving DecidableEq, Repr

namespace Path

/-- Reads one more piece after the names `stack`, which are kept last first. -/
def step (absolute : Bool) (stack : List String) (piece : String) : List String :=
  if piece = "" ∨ piece = "." then stack
  else if piece = ".." then
    match stack with
    -- nothing to take back: the top has no parent, and a relative path leads up
    | [] => if absolute then [] else [".."]
    | top :: below => if top = ".." then ".." :: top :: below else below
  else piece :: stack

/-- The names that are left when pieces are read from left to right. -/
def normalize (absolute : Bool) (l : List String) : List String :=
  (l.foldl (step absolute) []).reverse

/-- A path is absolute when its text begins with a slash. -/
def isAbsolute (s : String) : Bool :=
  s.toList.head? == some '/'

/-- The lexical meaning of a path's text. -/
def ofString (s : String) : Path where
  absolute := isAbsolute s
  segments := normalize (isAbsolute s) (pieces s)

/-- The text of a path: names between single slashes, and `.` for the empty relative path. -/
protected def toString (p : Path) : String :=
  if p.absolute then String.ofList ('/' :: (glue p.segments).toList)
  else if p.segments = [] then "."
  else glue p.segments

/-- The normal form of a path's text. -/
def clean (s : String) : String :=
  (ofString s).toString

/-- The normal form of the nonempty elements put after one another; empty if there are none. -/
def join (elements : List String) : String :=
  match elements.filter (· ≠ "") with
  | [] => ""
  | parts => clean (glue parts)

/-- The last piece of a path, trailing slashes aside: `.` for the empty text, and `/` for a text
made of slashes alone. -/
def baseName (s : String) : String :=
  if s = "" then "."
  else
    match s.toList.reverse.dropWhile (· == '/') with
    | [] => "/"
    | backward => String.ofList (backward.takeWhile (· != '/')).reverse

/-- The rest of `l` after the characters `lead`, if it begins with them. -/
def dropLead? : (lead l : List Char) → Option (List Char)
  | [], l => some l
  | _ :: _, [] => none
  | c :: lead, d :: l => if c = d then dropLead? lead l else none

/-- The name without `lead` where `lead` is a run of whole pieces at its front, and the name
itself otherwise: text that merely resembles `lead` is never touched. -/
def stripLead (name lead : String) : String :=
  if lead = "" then name
  else if name = lead then ""
  else
    -- a lead that ends with a slash is a run of whole pieces as it stands
    let head := if lead.toList.getLast? = some '/' then lead.toList else lead.toList ++ ['/']
    match dropLead? head name.toList with
    | some rest => String.ofList rest
    | none => name

end Path

end RootedFS
