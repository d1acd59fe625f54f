import Mathlib.Data.List.Perm.Subperm
import RootedFS.Proofs.Memory.Outcome

/-!
# Free names are found

Creating a temporary file tries numbers until one gives a free name. Different numbers give
different names, and only files are in the way: among more numbers than there are files, one is
free. The number of attempts is enough for that, and so plays no part in what is found.

## Main results

* `exists_searchFrom`: a free number is found
* `search_unique`: it is the same one whatever the number of attempts
-/

namespace RootedFS.Memory

open Tree

/-- A number that is found is found with any other number of attempts that is enough. -/
theorem search_unique {taken : Int → Bool} {m n : Nat} {s s₁ s₂ : Supply} {x y : Int}
    (hm : search taken m s = (some x, s₁)) (hn : search taken n s = (some y, s₂)) :
    x = y ∧ s₁ = s₂ := by
  induction m generalizing n s with
  | zero => simp [search] at hm
  | succ m ih =>
    cases n with
    | zero => simp [search] at hn
    | succ n =>
      rw [search] at hm hn
      split at hm
      · rename_i ht
        rw [if_pos ht] at hn
        exact ih hm hn
      · rename_i ht
        rw [if_neg ht] at hn
        simp only [Prod.mk.injEq, Option.some.injEq] at hm hn
        exact ⟨hm.1.symm.trans hn.1, hm.2.symm.trans hn.2⟩

/-- A number that is found is free. -/
theorem not_taken_of_search {taken : Int → Bool} {n : Nat} {s s' : Supply} {x : Int}
    (h : search taken n s = (some x, s')) : taken x = false := by
  induction n generalizing s with
  | zero => simp [search] at h
  | succ n ih =>
    rw [search] at h
    split at h
    · exact ih h
    · rename_i ht
      obtain ⟨hx, -⟩ := Prod.mk.inj h
      rwa [Option.some.inj hx, Bool.not_eq_true] at ht

/-- When no number is free, those that follow the listed ones are all taken. -/
theorem taken_of_search_none {taken : Int → Bool} {n i : Nat} {s s' : Supply}
    (h : search taken n s = (none, s')) (hi : i + s.listed.length < n) :
    taken ((s.next + i : Nat) : Int) = true := by
  -- by induction on the attempts, from any supply: a listed number is used up, and after these the
  -- numbers are counted on
  induction n generalizing s i with
  | zero => omega
  | succ n ih =>
    unfold search at h
    split at h
    · rename_i ht
      obtain ⟨listed, next⟩ := s
      cases listed with
      | cons x rest =>
        rw [List.length_cons, ← Nat.add_assoc] at hi
        exact ih (s := ⟨rest, next⟩) h (Nat.lt_of_succ_lt_succ hi)
      | nil =>
        cases i with
        | zero => exact ht
        | succ i =>
          have hnext := ih (s := ⟨[], next + 1⟩) (i := i) h (by simpa using hi)
          rwa [Nat.add_right_comm] at hnext
    · cases h

/-- Different numbers give different candidates. -/
theorem resolve_candidate_injective {directory lead : String} (hlead : '/' ∉ lead.toList)
    {m n : Nat}
    (h : Key.resolve (candidate directory lead m) = Key.resolve (candidate directory lead n)) :
    m = n := by
  have htext : ∀ i : Nat, (toString (i : Int)).toList = Nat.toDigits 10 i := by
    intro i
    rw [Int.toString_eq_repr, Int.repr_eq_if, if_pos (Int.natCast_nonneg i), Int.toNat_natCast,
      Nat.toList_repr]
  rw [resolve_candidate hlead, resolve_candidate hlead, List.append_right_inj, List.cons.injEq] at h
  have hlist := congrArg String.toList h.1
  rw [String.toList_append, String.toList_append, List.append_right_inj, htext, htext] at hlist
  rw [← @Nat.ofDigitChars_ten_toDigits m, hlist, Nat.ofDigitChars_ten_toDigits]

/-- A number that gives a free name is found. -/
theorem exists_searchFrom (d : Disk) (directory : String) {lead : String}
    (hlead : '/' ∉ lead.toList) : ∃ n s, searchFrom d directory lead = (some n, s) := by
  cases hsearch : searchFrom d directory lead with
  | mk found s =>
    cases found with
    | some n => exact ⟨n, s, rfl⟩
    | none =>
      -- the numbers after the listed ones give more different names than there are files
      let key (i : Nat) : Key :=
        Key.resolve (candidate directory lead ((d.supply.next + i : Nat) : Int))
      let keys := (List.range (d.store.files.keys.length + 1)).map key
      have hnodup : keys.Nodup := by
        apply List.nodup_range.map
        intro i j hij
        have hnumber := resolve_candidate_injective hlead hij
        omega
      have hsubset : keys ⊆ d.store.files.keys := by
        intro k hk
        obtain ⟨i, hi, rfl⟩ := List.mem_map.1 hk
        have hlt := List.mem_range.1 hi
        refine mem_keys.2 (taken_of_search_none hsearch ?_)
        rw [attempts, Store.size, Disk.addDirectories_files, Disk.addDirectories_supply]
        rw [Tree.keys, List.length_map] at hlt
        rw [Tree.size]
        omega
      have hlength := (List.subperm_of_subset hnodup hsubset).length_le
      simp only [keys, List.length_map, List.length_range] at hlength
      omega

end RootedFS.Memory
