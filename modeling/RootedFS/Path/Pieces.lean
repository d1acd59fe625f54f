/-!
# Pieces of a path

A path is text whose pieces stand between slashes. `pieces` cuts it there, keeping the empty
pieces that leading, trailing and doubled slashes leave, and `glue` puts a slash between pieces.

## Main definitions

* `Path.pieces s`: the pieces of `s`, empty ones included
* `Path.glue l`: the pieces `l` with one slash between neighbours

## Main results

* `Path.glue_pieces`, `Path.pieces_glue`: cutting and glueing undo each other
-/

namespace RootedFS.Path

/-- The runs of characters between slashes, empty ones included. -/
def splitSlash : List Char → List (List Char)
  | [] => [[]]
  | c :: cs =>
    if c = '/' then [] :: splitSlash cs
    else
      match splitSlash cs with
      | [] => [[c]]
      | run :: runs => (c :: run) :: runs

/-- The runs of characters joined by single slashes. -/
def joinSlash : List (List Char) → List Char
  | [] => []
  | [run] => run
  | run :: runs => run ++ '/' :: joinSlash runs

/-- The pieces of a path between its slashes, empty ones included. -/
def pieces (s : String) : List String :=
  (splitSlash s.toList).map String.ofList

/-- The pieces joined by single slashes. -/
def glue (l : List String) : String :=
  String.ofList (joinSlash (l.map String.toList))

/-! ## Cutting and glueing -/

theorem splitSlash_ne_nil (l : List Char) : splitSlash l ≠ [] := by
  fun_cases splitSlash l <;> simp

@[simp] theorem joinSlash_cons_cons (run next : List Char) (runs : List (List Char)) :
    joinSlash (run :: next :: runs) = run ++ '/' :: joinSlash (next :: runs) := rfl

@[simp] theorem joinSlash_splitSlash (l : List Char) : joinSlash (splitSlash l) = l := by
  induction l with
  | nil => rfl
  | cons c l ih =>
    rw [splitSlash]
    obtain ⟨run, runs, h⟩ := List.exists_cons_of_ne_nil (splitSlash_ne_nil l)
    by_cases hc : c = '/'
    · rw [if_pos hc, h, joinSlash_cons_cons, ← h, ih, hc]
      rfl
    · rw [if_neg hc, h]
      rw [h] at ih
      cases runs with
      | nil => simpa [joinSlash] using ih
      | cons next runs => simpa using ih

/-- A run without slashes before a slash is the first one that is cut off. -/
theorem splitSlash_append (run l : List Char) (h : '/' ∉ run) :
    splitSlash (run ++ '/' :: l) = run :: splitSlash l := by
  induction run with
  | nil => simp [splitSlash]
  | cons c run ih =>
    rw [List.mem_cons, not_or] at h
    rw [List.cons_append, splitSlash, if_neg (Ne.symm h.1), ih h.2]

/-- Text without slashes is a single run. -/
theorem splitSlash_of_not_mem (run : List Char) (h : '/' ∉ run) : splitSlash run = [run] := by
  induction run with
  | nil => rfl
  | cons c run ih =>
    rw [List.mem_cons, not_or] at h
    rw [splitSlash, if_neg (Ne.symm h.1), ih h.2]

theorem splitSlash_joinSlash (l : List (List Char)) (h : l ≠ []) (hl : ∀ run ∈ l, '/' ∉ run) :
    splitSlash (joinSlash l) = l := by
  induction l with
  | nil => exact absurd rfl h
  | cons run l ih =>
    cases l with
    | nil => exact splitSlash_of_not_mem run (hl run List.mem_cons_self)
    | cons next l =>
      rw [joinSlash_cons_cons, splitSlash_append _ _ (hl run List.mem_cons_self),
        ih (by simp) fun r hr => hl r (List.mem_cons_of_mem _ hr)]

theorem not_mem_of_mem_splitSlash (l : List Char) : ∀ run ∈ splitSlash l, '/' ∉ run := by
  induction l with
  | nil => simp [splitSlash]
  | cons c l ih =>
    obtain ⟨run, runs, h⟩ := List.exists_cons_of_ne_nil (splitSlash_ne_nil l)
    rw [splitSlash]
    rw [h] at ih ⊢
    by_cases hc : c = '/'
    · simpa [if_pos hc] using ih
    · rw [if_neg hc]
      intro r hr
      rcases List.mem_cons.1 hr with rfl | hr
      · simpa [Ne.symm hc] using ih run List.mem_cons_self
      · exact ih r (List.mem_cons_of_mem _ hr)

/-- Glueing the pieces of a path gives the path back. -/
@[simp] theorem glue_pieces (s : String) : glue (pieces s) = s := by
  simp [glue, pieces, Function.comp_def]

/-- Glued pieces without slashes are the pieces of the result. -/
theorem pieces_glue (l : List String) (h : l ≠ []) (hl : ∀ piece ∈ l, '/' ∉ piece.toList) :
    pieces (glue l) = l := by
  rw [pieces, glue, String.toList_ofList,
    splitSlash_joinSlash _ (by simpa using h) (by simpa using hl)]
  simp [Function.comp_def]

end RootedFS.Path
