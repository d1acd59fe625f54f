import RootedFS.Proofs.Path.Strip

/-!
# Joins of joins

The first elements of a join may be joined before: what they lead to is read on from there. Later
elements may be joined before only if none of them climbs. By itself a path that climbs above the
place that it is taken from loses its steps up where it is absolute, and has nothing to take back
where it is not, while behind other elements it takes back what they lead to.

## Main results

* `Path.join_join_append`: the first elements joined before
* `Path.climbs_join_of_forall`: elements that do not climb make a path that does not climb
* `Path.join_cons_join`: later elements joined before
* `Path.join_grouping`: joins grouped to the left, and to the right
-/

namespace RootedFS.Path

variable {s t : String} {l l' : List String}

theorem join_cons_empty (l : List String) : join ("" :: l) = join l := by
  simp [join]

/-- What is read after pieces depends only on what they leave. -/
theorem normalize_append_congr {absolute : Bool} (h : normalize absolute l = normalize absolute l')
    (rest : List String) : normalize absolute (l ++ rest) = normalize absolute (l' ++ rest) := by
  have hstack : l.foldl (step absolute) [] = l'.foldl (step absolute) [] :=
    List.reverse_inj.1 h
  rw [normalize, normalize, List.foldl_append, List.foldl_append, hstack]

/-! ## The first elements -/

/-- The first elements of a join may be joined before. -/
theorem join_join_append (xs ys : List String) : join (join xs :: ys) = join (xs ++ ys) := by
  -- by induction up to the first element that is not empty, which tells where the join starts
  induction xs with
  | nil => exact join_cons_empty ys
  | cons x xs ih =>
    by_cases hx : x = ""
    · rw [hx, join_cons_empty, ih, List.cons_append, join_cons_empty]
    · obtain ⟨habs, hsegments⟩ := Path.mk.inj (ofString_join_cons hx xs)
      rw [habs] at hsegments
      rw [List.cons_append, join_cons (join_cons_ne_empty hx xs), habs,
        normalize_append_congr hsegments, join_cons hx, List.flatMap_append, List.append_assoc]

/-! ## Later elements -/

/-- Elements that do not climb lead down by their names, one after the other. -/
theorem foldl_step_flatMap_of_not_climbs (h : ∀ x ∈ l, climbs x = false) (absolute : Bool)
    (stack : List String) :
    (l.flatMap pieces).foldl (step absolute) stack = (l.flatMap Key.resolve).reverse ++ stack := by
  induction l generalizing stack with
  | nil => rfl
  | cons x l ih =>
    rw [List.flatMap_cons, List.foldl_append, foldl_step_of_not_climbs (h x List.mem_cons_self),
      ih fun y hy => h y (List.mem_cons_of_mem x hy), List.flatMap_cons, List.reverse_append,
      List.append_assoc]

/-- Elements that do not climb make a path that does not climb. -/
theorem climbs_join_of_forall (h : ∀ x ∈ l, climbs x = false) : climbs (join l) = false := by
  have hnames : ∀ a ∈ l.flatMap Key.resolve, IsName a := by
    intro a ha
    obtain ⟨x, -, hx⟩ := List.mem_flatMap.1 ha
    exact isName_resolve x a hx
  have hpieces : normalize false (l.flatMap pieces) = l.flatMap Key.resolve := by
    rw [normalize, foldl_step_flatMap_of_not_climbs h, List.append_nil, List.reverse_reverse]
  unfold join
  split
  · rfl
  · rename_i parts hne
    apply climbs_clean
    rw [climbs_eq, pieces_glue_eq_flatMap hne, normalize, foldl_step_flatMap_filter, ← normalize,
      hpieces, beq_eq_false_iff_ne]
    exact fun hhead => (hnames _ (List.mem_of_mem_head? hhead)).ne_dots rfl

/-- Paths that do not climb make a path that does not climb. -/
theorem climbs_join_of_not_climbs (hs : climbs s = false) (ht : climbs t = false) :
    climbs (join [s, t]) = false :=
  climbs_join_of_forall (by simp [hs, ht])

/-- Elements that do not climb may be joined before they are joined to another. -/
theorem join_cons_join (x : String) (h : ∀ y ∈ l, climbs y = false) :
    join [x, join l] = join (x :: l) := by
  by_cases hx : x = ""
  · have hself := join_join_append l []
    rw [List.append_nil] at hself
    rw [hx, join_cons_empty, join_cons_empty, hself]
  · have hkey : Key.resolve (join l) = l.flatMap Key.resolve := by
      rw [resolve_join, normalize, foldl_step_flatMap_of_not_climbs h, List.append_nil,
        List.reverse_reverse]
    rw [join_pair hx, join_cons hx, normalize, normalize, List.foldl_append, List.foldl_append,
      foldl_step_of_not_climbs (climbs_join_of_forall h), hkey, foldl_step_flatMap_of_not_climbs h]

/-! ## Groups -/

/-- Joins may be grouped to the left, whatever the elements are, and to the right if the later ones
do not climb. -/
theorem join_grouping :
    (∀ xs ys, join (join xs :: ys) = join (xs ++ ys)) ∧
      ∀ a b c, climbs b = false → climbs c = false →
        join [a, join [b, c]] = join [join [a, b], c] := by
  refine ⟨join_join_append, fun a b c hb hc => ?_⟩
  have hleft : join [join [a, b], c] = join [a, b, c] := join_join_append [a, b] [c]
  rw [hleft, join_cons_join a (by simp [hb, hc])]

/-- An absolute element in the middle that goes up and down, and a last one that comes back to where
it starts. -/
theorem join_grouping_down :
    (climbs "/x/../y/" = false ∧ climbs "z/.." = false) ∧
      join ["../a", join ["/x/../y/", "z/.."]] = join [join ["../a", "/x/../y/"], "z/.."] :=
  ⟨by decide, join_grouping.2 "../a" "/x/../y/" "z/.." (by decide) (by decide)⟩

/-- Grouped to the right, an absolute element that climbs does not take back what is before it. -/
example : join ["a", join ["/..", "b"]] = "a/b" ∧ join [join ["a", "/.."], "b"] = "b" := by decide

end RootedFS.Path
