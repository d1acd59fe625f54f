import RootedFS.Proofs.Host.Listing
import RootedFS.Proofs.Host.Walk
import RootedFS.Proofs.Memory.Prune

/-!
# Walks in thinned trees

When entries are taken out of a tree, a walk ends where it did before, or it finds nothing: no path
comes to lead anywhere else. So a path that leads somewhere or to nothing goes on doing so. What is
left stands in directories, if all that is below an entry is taken out with it.

## Main results

* `Host.lookup_thinned`: in a thinned tree, a path leads where it did before or to nothing
* `Host.Planted.without`: a planted tree stays so without some of its branches
* `Host.Planted.length_lt_size`: no key is longer than there are entries
-/

namespace RootedFS

namespace Host

variable {t t' : Tree Node} {m : Manner} {k : Key} {route : List String} {gone : Key → Bool}

/-- A leg that finds nothing. -/
def Leg.FindsNothing : Leg → Prop
  | .failed why => why = .missing
  | .done (.absent ..) => True
  | _ => False

theorem extends_without (t : Tree Node) (gone : Key → Bool) : Extends (t.without gone) t := by
  intro j node hj
  rw [Tree.get?_without] at hj
  split at hj
  · cases hj
  · exact hj

/-- In a thinned tree a leg gets as far as before, or finds nothing. -/
theorem leg_thinned (h : Extends t' t) (k : Key) (route : List String) :
    leg m t' k route = leg m t k route ∨ (leg m t' k route).FindsNothing := by
  fun_induction leg m t' k route with
  | case1 k node hget =>
    left
    rw [leg, h _ _ hget]
  | case2 | case8 => exact .inr rfl
  | case3 k piece rest hskip ih =>
    have hleg : leg m t k (piece :: rest) = leg m t k rest := by rw [leg, if_pos hskip]
    rwa [hleg]
  | case4 k rest hskip ih =>
    have hleg : leg m t k (".." :: rest) = leg m t k.parent rest := by
      rw [leg, if_neg hskip, if_pos rfl]
    rwa [hleg]
  | case5 k piece rest hskip hup hfile =>
    left
    rw [leg, if_neg hskip, if_neg hup, if_pos hfile]
  | case6 k piece rest hskip hup hfile hlong =>
    left
    rw [leg, if_neg hskip, if_neg hup, if_neg hfile, if_pos hlong]
  | case7 => exact .inr trivial
  | case9 k piece rest hskip hup hfile hlong perm hget ih =>
    have hleg : leg m t k (piece :: rest) = leg m t (k ++ [piece]) rest := by
      rw [leg_entry hskip hup hfile hlong, h _ _ hget]
    rwa [hleg]
  | case10 k piece hskip hup hlong number hget hfile =>
    left
    rw [leg_entry hskip hup hfile hlong, h _ _ hget]
    rfl
  | case11 k piece rest hskip hup hfile hlong number hget hend =>
    left
    rw [leg_entry hskip hup hfile hlong, h _ _ hget]
    exact (if_neg hend).symm
  | case12 k piece rest hskip hup hfile hlong target hget hend =>
    left
    rw [leg_entry hskip hup hfile hlong, h _ _ hget]
    exact (if_pos hend).symm
  | case13 k piece rest hskip hup hfile hlong target hget hend =>
    left
    rw [leg_entry hskip hup hfile hlong, h _ _ hget]
    exact (if_neg hend).symm

/-- In a thinned tree a walk ends as before, or finds nothing. -/
theorem walkFrom_thinned (h : Extends t' t) (n : Nat) (k : Key) (route : List String) :
    walkFrom m t' n k route = walkFrom m t n k route ∨
      walkFrom m t' n k route = .error .missing ∨
      ∃ l a asDirectory, walkFrom m t' n k route = .ok (.absent l a asDirectory) := by
  fun_induction walkFrom m t' n k route with
  | case1 n k route found hleg =>
    rcases leg_thinned (m := m) h k route with heq | hlost
    · left
      rw [walkFrom, ← heq, hleg]
    · rw [hleg] at hlost
      cases found with
      | entry l node => exact hlost.elim
      | absent l a asDirectory => exact .inr (.inr ⟨l, a, asDirectory, rfl⟩)
  | case2 n k route why hleg =>
    rcases leg_thinned (m := m) h k route with heq | hlost
    · left
      rw [walkFrom, ← heq, hleg]
    · rw [hleg] at hlost
      exact .inr (.inl (congrArg Except.error hlost))
  | case3 k route k₁ route₁ hleg =>
    rcases leg_thinned (m := m) h k route with heq | hlost
    · left
      rw [walkFrom, ← heq, hleg]
    · rw [hleg] at hlost
      exact hlost.elim
  | case4 k route k₁ route₁ hleg n ih =>
    rcases leg_thinned (m := m) h k route with heq | hlost
    · have hwalk : walkFrom m t (n + 1) k route = walkFrom m t n k₁ route₁ := by
        rw [walkFrom, ← heq, hleg]
      rwa [hwalk]
    · rw [hleg] at hlost
      exact hlost.elim

/-- In a thinned tree a path leads where it did before, or to nothing. -/
theorem lookup_thinned (h : Extends t' t) (route : List String) :
    lookup m t' route = lookup m t route ∨ lookup m t' route = .error .missing := by
  have hwalk : walk m t' route = walk m t route ∨ walk m t' route = .error .missing ∨
      ∃ l a asDirectory, walk m t' route = .ok (.absent l a asDirectory) := by
    cases htext : pathRefusal? (Key.toString route) with
    | some why =>
      rw [walk_eq_error htext, walk_eq_error htext]
      exact .inl rfl
    | none =>
      rw [walk_eq htext, walk_eq htext]
      exact walkFrom_thinned h maxLinks [] route
  rw [lookup, lookup]
  rcases hwalk with heq | hlost | ⟨l, a, asDirectory, hlost⟩
  · rw [heq]
    exact .inl rfl
  · rw [hlost]
    exact .inr rfl
  · rw [hlost]
    exact .inr rfl

theorem Resolves.thinned (hres : Resolves t route) (h : Extends t' t) : Resolves t' route := by
  intro why hlost
  rcases lookup_thinned (m := .through) h route with heq | hmissing
  · exact hres why (heq ▸ hlost)
  · rw [hmissing] at hlost
    cases hlost
    rfl

/-- Entries may be taken out with all that is below them. -/
theorem Planted.without (ht : Planted t) (hbelow : ∀ k a, gone k = true → gone (k ++ [a]) = true) :
    Planted (t.without gone) where
  names := by
    intro k hk
    obtain ⟨node, hget⟩ := Option.isSome_iff_exists.1 hk
    exact ht.names k (Option.isSome_of_eq_some (extends_without t gone k node hget))
  standing := by
    intro k a hka
    rw [Tree.get?_without] at hka
    split at hka
    · cases hka
    · rename_i hkeep
      rw [Tree.get?_without, if_neg fun hgone => hkeep (hbelow k a hgone)]
      exact ht.standing k a hka

/-- No key is longer than there are entries. -/
theorem Planted.length_lt_size (ht : Planted t) (hk : (t.get? k).isSome = true) :
    k.length < t.size := by
  have hprefix : ∀ j, j <+: k → j ∈ t.keys := by
    rintro j ⟨rest, rfl⟩
    exact Tree.mem_keys.2 (ht.isSome_of_append hk)
  have hlength := Key.length_lt_of_prefixes hprefix
  rwa [Tree.keys, List.length_map] at hlength

end Host

end RootedFS
