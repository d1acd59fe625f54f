import RootedFS.Path.Basic

/-!
# Keys

A key is the list of names that leads from the top of a tree to one of its entries. Every path
text names a key: the path is taken from the top, so `x`, `/x` and `/../x` name the same key.

## Main definitions

* `Key`, `Key.resolve`, `Key.toString`
* `Key.below? base k`: the way from `base` down to `k`, if `k` is `base` or lies below it
* `Path.relativeTo base target`: the relative path from one path to another
-/

namespace RootedFS

/-- The names that lead from the top of a tree to an entry. -/
abbrev Key := List String

namespace Key

/-- The key that a path text names when it is taken from the top. -/
def resolve (s : String) : Key :=
  Path.normalize true (Path.pieces s)

/-- The absolute path text of a key. -/
protected def toString (k : Key) : String :=
  String.ofList ('/' :: (Path.glue k).toList)

/-- The key of the directory that holds the entry at `k`; the top is its own parent. -/
def parent (k : Key) : Key :=
  k.dropLast

/-- The last name of a key, and `/` for the top. -/
def name (k : Key) : String :=
  k.getLast?.getD "/"

/-- The names that lead from `base` to `k`, if `k` is `base` or lies below it. -/
def below? : (base k : Key) → Option Key
  | [], k => some k
  | _ :: _, [] => none
  | a :: base, b :: k => if a = b then below? base k else none

theorem below?_eq_some_iff {base k rest : Key} : below? base k = some rest ↔ k = base ++ rest := by
  induction base generalizing k with
  | nil => simp [below?]
  | cons a base ih =>
    cases k with
    | nil => simp [below?]
    | cons b k =>
      by_cases h : a = b
      · simp [below?, h, ih]
      · simp [below?, h, Ne.symm h]

@[simp] theorem below?_append (base rest : Key) : below? base (base ++ rest) = some rest :=
  below?_eq_some_iff.2 rfl

/-- Whether `k` is `base` or lies below it. -/
def within (base k : Key) : Bool :=
  (below? base k).isSome

/-- The keys from the one below `top` down to `top` followed by the names of the list. -/
def chain (top : Key) : List String → List Key
  | [] => []
  | a :: l => (top ++ [a]) :: chain (top ++ [a]) l

/-- The keys of the entries that lead to `k`, `k` included and the top left out. -/
def steps (k : Key) : List Key :=
  chain [] k

/-- The names that two keys begin with alike. -/
def common : (k l : Key) → Key
  | a :: k, b :: l => if a = b then a :: common k l else []
  | _, _ => []

/-- The way from one key to another: up to what they share, then down. -/
def route (base target : Key) : List String :=
  let shared := (common base target).length
  List.replicate (base.length - shared) ".." ++ target.drop shared

end Key

namespace Path

/-- The path of `target` relative to `base`, both taken from the top; `.` when they name the same
key. It begins with `..` pieces when `target` lies outside `base`. -/
def relativeTo (base target : String) : String :=
  match Key.route (Key.resolve base) (Key.resolve target) with
  | [] => "."
  | l => glue l

end Path

end RootedFS
