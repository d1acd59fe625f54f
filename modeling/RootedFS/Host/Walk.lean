import RootedFS.Host.Tree

/-!
# Walking paths on the host

A path is walked piece by piece from a directory: an empty piece and `.` stay, `..` goes up, and a
name goes to the entry of that name. A symbolic link on the way is replaced by the pieces of its
target; one at the end of the path is replaced only where the walk is told to follow it, or where
more pieces come after it. At most forty links are followed.

A slash after the last name asks for a directory. A walk on behalf of a call that may make a file
is refused there, whatever the name leads to. A text that is too long is refused before it is
walked, and so is one that holds a null character, which no path does.

## Main definitions

* `Host.Found`: where a walk ends
* `Host.Manner`: how a walk treats the end of its path
* `Host.pathRefusal?`: why a text is not walked at all
* `Host.walk manner t route`: the end of the walk along the pieces `route` from the top
* `Host.lookup manner t route`: the entry at that end
-/

namespace RootedFS.Host

/-- The longest name of an entry, in bytes. -/
def maxName : Nat := 255

/-- The length that paths and targets of links stay below, in bytes. -/
def maxPath : Nat := 4096

/-- The number of links that one walk may follow. -/
def maxLinks : Nat := 40

/-- Where a walk ends. -/
inductive Found where
  | entry (k : Key) (node : Node)
  /-- In a directory that lacks the last name; a slash after that name asks for a directory. -/
  | absent (directory : Key) (name : String) (asDirectory : Bool)
deriving DecidableEq, Repr

/-- How a walk treats the end of its path. -/
structure Manner where
  /-- A symbolic link at the end is followed. -/
  follow : Bool
  /-- The walk is on behalf of a call that may make a file. -/
  forFile : Bool := false
deriving DecidableEq, Repr

/-- A walk that follows a link at the end. -/
def Manner.through : Manner := { follow := true }

/-- A walk that stops at a link at the end. -/
def Manner.upTo : Manner := { follow := false }

/-- How far a walk gets before it meets a link that it follows. -/
inductive Leg where
  | done (found : Found)
  | failed (why : Refusal)
  /-- To a link: the walk goes on from a directory along more pieces. -/
  | link (directory : Key) (route : List String)
deriving DecidableEq, Repr

/-- Whether pieces ask for nothing but that the entry before them is a directory. -/
def onlySlashes (route : List String) : Bool :=
  route.all (· = "")

/-- Walks along pieces from a directory up to the first link that is followed. -/
def leg (m : Manner) (t : Tree Node) : (directory : Key) → (route : List String) → Leg
  | k, [] =>
    match t.get? k with
    | some node => .done (.entry k node)
    | none => .failed .missing
  | k, piece :: rest =>
    if piece = "" ∨ piece = "." then leg m t k rest
    else if piece = ".." then leg m t k.parent rest
    -- a slash at the end asks for a directory, and this call may make none
    else if m.forFile ∧ rest ≠ [] ∧ onlySlashes rest then .failed .isDirectory
    else if maxName < piece.utf8ByteSize then .failed .nameTooLong
    else
      match t.get? (k ++ [piece]) with
      | none =>
        -- only the last name may be missing
        if onlySlashes rest then .done (.absent k piece (rest ≠ [])) else .failed .missing
      | some (.directory _) => leg m t (k ++ [piece]) rest
      | some (.file number) =>
        if rest = [] then .done (.entry (k ++ [piece]) (.file number))
        else .failed .notDirectory
      | some (.link target) =>
        if rest = [] ∧ ¬ m.follow then .done (.entry (k ++ [piece]) (.link target))
        else .link (if Path.isAbsolute target then [] else k) (Path.pieces target ++ rest)

/-- Walks along pieces from a directory, following up to `links` symbolic links. -/
def walkFrom (m : Manner) (t : Tree Node) :
    (links : Nat) → (directory : Key) → (route : List String) → Except Refusal Found
  | links, k, route =>
    match leg m t k route with
    | .done found => .ok found
    | .failed why => .error why
    | .link k route =>
      match links with
      | 0 => .error .linkLoop
      | n + 1 => walkFrom m t n k route

/-- Whether a text holds a null character. -/
def hasNull (text : String) : Bool :=
  text.toList.contains '\x00'

/-- Why a text is refused as a path before anything is walked. -/
def pathRefusal? (text : String) : Option Refusal :=
  if hasNull text then some .embeddedNull
  else if maxPath ≤ text.utf8ByteSize then some .nameTooLong
  else none

/-- Walks along pieces from the top. -/
def walk (m : Manner) (t : Tree Node) (route : List String) : Except Refusal Found :=
  match pathRefusal? (Key.toString route) with
  | some why => .error why
  | none => walkFrom m t maxLinks [] route

/-- The entry at the end of a path. -/
def lookup (m : Manner) (t : Tree Node) (route : List String) : Except Refusal (Key × Node) :=
  match walk m t route with
  | .ok (.entry k node) => .ok (k, node)
  | .ok (.absent ..) => .error .missing
  | .error why => .error why

end RootedFS.Host
