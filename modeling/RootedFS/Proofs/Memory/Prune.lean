import Mathlib.Data.List.Perm.Subperm
import RootedFS.Proofs.Memory.Sound

/-!
# Stores without some of their entries

When the entries at and below a key go, the handles on the files among them lose their files, and
all else stays. Taking away a file is of this kind, and so is taking away a directory once all that
is in it has gone child by child.

## Main definitions

* `Store.without`: a store without the entries at some keys
* `Store.prune`: a store without the entries at and below a key
* `Store.hollow`: a store without the entries below a key, which have gone child by child

## Main results

* `Store.get?_tree_without`: the entries that are left
* `Store.Sound.prune`: the store stays sound
* `Store.Sound.prune_of_isFile`, `Store.Sound.prune_of_isDirectory`: the steps that prune a store
* `Store.Sound.length_lt_size`: no key is longer than there are entries
-/

namespace RootedFS

/-- The keys that a key begins with are different, and one more than its names. -/
theorem Key.length_lt_of_prefixes {k : Key} {l : List Key} (h : ∀ j, j <+: k → j ∈ l) :
    k.length < l.length := by
  have hnodup : ((List.range (k.length + 1)).map k.take).Nodup := by
    refine List.nodup_range.map_on fun i hi j hj hij => ?_
    have hlength := congrArg List.length hij
    rw [List.mem_range] at hi hj
    rw [List.length_take, List.length_take] at hlength
    omega
  have hsubset : (List.range (k.length + 1)).map k.take ⊆ l := by
    intro j hj
    obtain ⟨i, -, rfl⟩ := List.mem_map.1 hj
    exact h _ (k.take_prefix i)
  have hlength := (List.subperm_of_subset hnodup hsubset).length_le
  rw [List.length_map, List.length_range] at hlength
  exact hlength

/-! ## Trees -/

namespace Tree

variable {α : Type}

/-- The tree without the entries at some keys. -/
def without (gone : Key → Bool) (t : Tree α) : Tree α :=
  ⟨t.entries.filter fun e => !gone e.1⟩

variable {t : Tree α} {gone gone' : Key → Bool}

theorem keys_without : (t.without gone).keys = t.keys.filter fun k => !gone k := by
  rw [keys, keys, without, List.filter_map]
  rfl

@[simp] theorem get?_without (t : Tree α) (gone : Key → Bool) (k : Key) :
    (t.without gone).get? k = if gone k then none else t.get? k := by
  rw [get?, without, lookup_filter t.entries (!gone ·) k]
  cases gone k <;> rfl

/-- It only matters which of the keys with entries are taken out. -/
theorem without_congr (h : ∀ k ∈ t.keys, gone k = gone' k) : t.without gone = t.without gone' :=
  congrArg mk (List.filter_congr fun e he => by rw [h e.1 (List.mem_map_of_mem he)])

theorem without_without (t : Tree α) (gone gone' : Key → Bool) :
    (t.without gone).without gone' = t.without fun k => gone k || gone' k := by
  simp [without, List.filter_filter, Bool.and_comm]

theorem without_eq_self (h : ∀ k ∈ t.keys, gone k = false) : t.without gone = t := by
  have hnone : t.without gone = t.without fun _ => false := without_congr h
  rw [hnone]
  simp [without]

end Tree

namespace Memory

open Tree

/-! ## Handles -/

namespace Handle

/-- The handle after the files at some keys have gone; a closed handle no longer knows. -/
def lose (gone : Key → Bool) (h : Handle) : Handle :=
  if !h.closed && h.key.any gone then { h with key := none } else h

variable {gone gone' : Key → Bool}

/-- It only matters whether the file of an open handle goes. -/
theorem lose_congr {h : Handle} (hk : h.closed = false → ∀ k, h.key = some k → gone k = gone' k) :
    h.lose gone = h.lose gone' := by
  rw [lose, lose]
  cases ho : h.closed with
  | true => rfl
  | false =>
    cases hkey : h.key with
    | none => rfl
    | some k => rw [Option.any_some, Option.any_some, hk ho k hkey]

theorem lose_eq_self {h : Handle} (hk : h.closed = false → ∀ k, h.key = some k → gone k = false) :
    h.lose gone = h := by
  have hnone : h.lose gone = h.lose fun _ => false := lose_congr hk
  rw [hnone, lose]
  cases h.key <;> simp

theorem lose_lose (h : Handle) (gone gone' : Key → Bool) :
    (h.lose gone).lose gone' = h.lose fun k => gone k || gone' k := by
  cases ho : h.closed with
  | true => simp [lose, ho]
  | false =>
    cases hk : h.key with
    | none => simp [lose, ho, hk]
    | some k => cases hg : gone k <;> simp [lose, ho, hk, hg]

theorem lose_beq (h : Handle) (k : Key) : h.lose (· == k) = h.detach k := by
  rw [lose, detach]
  cases h.key <;> simp

/-- A handle that is still on a file was on it before, and the file has not gone. -/
theorem key_lose {h : Handle} {k : Key} (ho : (h.lose gone).closed = false)
    (hk : (h.lose gone).key = some k) : h.closed = false ∧ h.key = some k ∧ gone k = false := by
  unfold lose at ho hk
  split at hk
  · cases hk
  · rename_i hkeep
    rw [if_neg hkeep] at ho
    refine ⟨ho, hk, ?_⟩
    simpa [ho, hk] using hkeep

end Handle

/-! ## Stores -/

/-- The store without the entries at some keys; the handles on the files among them lose them. -/
def Store.without (gone : Key → Bool) (s : Store) : Store :=
  { s with
    files := s.files.without gone
    directories := s.directories.without gone
    stamps := s.stamps.without gone
    handles := s.handles.map (Handle.lose gone) }

/-- The store without the entries at and below a key. -/
def Store.prune (k : Key) (s : Store) : Store :=
  s.without (Key.within k)

/-- The store after the children of a directory have gone one after another, each with all that is
below it. -/
def Store.hollow (k : Key) (s : Store) : Store :=
  (s.children k).foldl (fun s a => s.prune (k ++ [a])) s

namespace Store

variable {s : Store} {j k : Key} {gone gone' : Key → Bool}

@[simp] theorem hasFile_without (s : Store) (gone : Key → Bool) (k : Key) :
    (s.without gone).hasFile k = (!gone k && s.hasFile k) := by
  rw [hasFile, hasFile, without, get?_without]
  cases gone k <;> rfl

@[simp] theorem hasDirectory_without (s : Store) (gone : Key → Bool) (k : Key) :
    (s.without gone).hasDirectory k = (!gone k && s.hasDirectory k) := by
  rw [hasDirectory, hasDirectory, without, get?_without]
  cases gone k <;> rfl

/-- The entries that are not taken out are left. -/
theorem get?_tree_without (s : Store) (gone : Key → Bool) (k : Key) :
    (s.without gone).tree.get? k = if gone k then none else s.tree.get? k := by
  cases hg : gone k with
  | true => exact get?_tree_of_no_stamp (by simp [without, hg])
  | false =>
    exact get?_tree_congr (by simp [without, hg]) (by simp [without, hg]) (by simp [without, hg])

theorem without_without (s : Store) (gone gone' : Key → Bool) :
    (s.without gone).without gone' = s.without fun k => gone k || gone' k := by
  simp [without, Tree.without_without, Handle.lose_lose]

/-- What is at and below children that go one after another is gone. -/
theorem foldl_prune (s : Store) (k : Key) (names : List String) :
    names.foldl (fun s a => s.prune (k ++ [a])) s =
      s.without fun j => names.any fun a => Key.within (k ++ [a]) j := by
  induction names generalizing s with
  | nil =>
    have hhandles : Handle.lose (fun _ => false) = id := funext fun h =>
      Handle.lose_eq_self fun _ _ _ => rfl
    simp [without, Tree.without, hhandles]
  | cons a names ih =>
    rw [List.foldl_cons, ih, prune, without_without]
    simp

/-- Entries that are not at or below these children are left. -/
theorem get?_foldl_prune {names : List String} (h : ∀ a ∈ names, Key.within (k ++ [a]) j = false) :
    (names.foldl (fun s a => s.prune (k ++ [a])) s).tree.get? j = s.tree.get? j := by
  rw [foldl_prune, get?_tree_without, if_neg]
  rw [List.any_eq_true]
  rintro ⟨a, ha, hwithin⟩
  rw [h a ha] at hwithin
  cases hwithin

theorem InStep.without (h : s.InStep) (gone : Key → Bool) : (s.without gone).InStep where
  nodup_files := by
    rw [Store.without, keys_without]
    exact h.nodup_files.filter _
  nodup_directories := by
    rw [Store.without, keys_without]
    exact h.nodup_directories.filter _
  nodup_stamps := by
    rw [Store.without, keys_without]
    exact h.nodup_stamps.filter _
  disjoint := by
    intro k hk
    rw [hasFile_without, Bool.and_eq_true] at hk
    rw [hasDirectory_without, h.disjoint k hk.2, Bool.and_false]
  stamped := by
    intro k
    have hk := h.stamped k
    rw [hasFile_without, hasDirectory_without, ← Bool.and_or_distrib_left, ← hk, Store.without,
      get?_without]
    cases gone k <;> rfl

namespace Sound

variable (hs : s.Sound)
include hs

/-- It only matters which entries are taken out. -/
theorem without_congr (h : ∀ k, (s.tree.get? k).isSome = true → gone k = gone' k) :
    s.without gone = s.without gone' := by
  have hentry : ∀ k, s.hasFile k = true ∨ s.hasDirectory k = true → gone k = gone' k := by
    intro k hk
    refine h k ?_
    rwa [hs.inStep.isSome_get?_tree, Bool.or_eq_true]
  have hfiles : s.files.without gone = s.files.without gone' :=
    Tree.without_congr fun k hk => hentry k (.inl (mem_keys.1 hk))
  have hdirectories : s.directories.without gone = s.directories.without gone' :=
    Tree.without_congr fun k hk => hentry k (.inr (mem_keys.1 hk))
  have hstamps : s.stamps.without gone = s.stamps.without gone' :=
    Tree.without_congr fun k hk => hentry k (by
      rw [mem_keys, hs.inStep.stamped, Bool.or_eq_true] at hk
      exact hk)
  have hhandles : s.handles.map (Handle.lose gone) = s.handles.map (Handle.lose gone') :=
    List.map_congr_left fun g hg => Handle.lose_congr fun ho k hk =>
      h k (hs.attached g hg ho k hk).isSome
  rw [Store.without, Store.without, hfiles, hdirectories, hstamps, hhandles]

/-- Entries other than the top may be taken out with all that is below them. -/
theorem without (hroot : gone [] = false)
    (hbelow : ∀ k a, gone k = true → gone (k ++ [a]) = true) : (s.without gone).Sound where
  inStep := hs.inStep.without gone
  tree := by
    refine hs.tree.without gone hroot (fun k a hk hka => ?_) (get?_tree_without s gone)
    rw [hbelow k a hk] at hka
    cases hka
  attached := by
    intro h hh ho k hk
    obtain ⟨g, hg, rfl⟩ := List.mem_map.1 hh
    obtain ⟨hopen, hkey, hkeep⟩ := Handle.key_lose ho hk
    have hget := get?_tree_without s gone k
    rw [hkeep, if_neg Bool.false_ne_true] at hget
    exact (IsFile.congr hget).2 (hs.attached g hg hopen k hkey)

/-- A store stays sound without what is at and below a key. -/
theorem prune (hk : k ≠ []) : (s.prune k).Sound := by
  apply hs.without (Key.within_nil hk)
  intro j a hj
  exact Key.within_append_of_within hj [a]

theorem foldl_prune (k : Key) (names : List String) :
    (names.foldl (fun s a => s.prune (k ++ [a])) s).Sound := by
  induction names generalizing s with
  | nil => exact hs
  | cons a names ih => exact ih (hs.prune (by simp))

/-- Taking away a file leaves a store without its entry. -/
theorem without_of_isFile (hk : s.tree.IsFile k) :
    ({ s.eraseFile k with handles := s.handles.map (Handle.detach k) } : Store) =
      s.without (· == k) := by
  have hdirectories : s.directories.without (· == k) = s.directories := by
    apply Tree.without_eq_self
    intro j hj
    rw [beq_eq_false_iff_ne]
    rintro rfl
    exact hk.not_isDirectory (hs.inStep.isDirectory_tree.2 (mem_keys.1 hj))
  have hhandles : Handle.lose (· == k) = Handle.detach k := funext fun h => Handle.lose_beq h k
  rw [Store.without, hdirectories, hhandles]
  rfl

/-- Taking away a directory leaves a store without its entry. -/
theorem without_of_isDirectory (hk : s.tree.IsDirectory k) :
    s.eraseDirectory k = s.without (· == k) := by
  have hfiles : s.files.without (· == k) = s.files := by
    apply Tree.without_eq_self
    intro j hj
    rw [beq_eq_false_iff_ne]
    rintro rfl
    exact hk.not_isFile (hs.inStep.isFile_tree.2 (mem_keys.1 hj))
  have hkeep : ∀ h ∈ s.handles, h.lose (· == k) = h := by
    intro h hh
    apply Handle.lose_eq_self
    intro ho j hj
    rw [beq_eq_false_iff_ne]
    rintro rfl
    exact hk.not_isFile (hs.attached h hh ho j hj)
  have hhandles : s.handles.map (Handle.lose (· == k)) = s.handles :=
    (List.map_congr_left hkeep).trans (List.map_id _)
  rw [Store.without, hfiles, hhandles]
  rfl

/-- Taking away a file prunes the store. -/
theorem prune_of_isFile (hk : s.tree.IsFile k) :
    ({ s.eraseFile k with handles := s.handles.map (Handle.detach k) } : Store) = s.prune k := by
  rw [hs.without_of_isFile hk]
  apply hs.without_congr
  intro j hj
  cases hwithin : Key.within k j with
  | false => exact beq_eq_false_iff_ne.2 (Key.ne_of_within_eq_false hwithin).symm
  | true =>
    obtain ⟨rest, rfl⟩ := Key.within_iff.1 hwithin
    by_contra hne
    have hrest : rest ≠ [] := by
      rintro rfl
      simp at hne
    rw [hs.tree.get?_append_eq_none hk.not_isDirectory hrest] at hj
    cases hj

/-- When all children have gone, what was below the directory has gone. -/
theorem hollow_eq (k : Key) : s.hollow k = s.without fun j => Key.within k j && j != k := by
  rw [Store.hollow, Store.foldl_prune]
  apply hs.without_congr
  intro j hj
  rw [Bool.eq_iff_iff, List.any_eq_true, Bool.and_eq_true, bne_iff_ne, Key.within_iff]
  constructor
  · rintro ⟨a, -, hwithin⟩
    obtain ⟨rest, rfl⟩ := Key.within_iff.1 hwithin
    exact ⟨⟨a :: rest, by simp⟩, by simp⟩
  · rintro ⟨⟨rest, rfl⟩, hne⟩
    -- whatever is below the directory is at or below one of its children
    obtain ⟨a, rest, rfl⟩ := List.exists_cons_of_ne_nil fun hnil : rest = [] => hne (by simp [hnil])
    exact ⟨a, hs.inStep.mem_children.2 ⟨rest, hj⟩, Key.within_iff.2 ⟨rest, by simp⟩⟩

theorem hollow (k : Key) : (s.hollow k).Sound :=
  hs.foldl_prune k _

theorem isDirectory_hollow (hk : s.tree.IsDirectory k) : (s.hollow k).tree.IsDirectory k := by
  rw [hs.hollow_eq]
  exact (IsDirectory.congr (by simp [get?_tree_without])).2 hk

theorem children_hollow (k : Key) : (s.hollow k).children k = [] := by
  rw [(hs.hollow k).inStep.children_eq_nil_iff]
  intro rest hrest
  rw [hs.hollow_eq, get?_tree_without, if_pos]
  simpa using hrest

/-- Taking away a directory once its children have gone prunes the store. -/
theorem prune_of_isDirectory (hk : s.tree.IsDirectory k) :
    (s.hollow k).eraseDirectory k = s.prune k := by
  have hwithin : (fun j => (Key.within k j && j != k) || j == k) = Key.within k := by
    funext j
    by_cases hj : j = k
    · simp [hj]
    · rw [bne, beq_false_of_ne hj]
      simp
  rw [(hs.hollow k).without_of_isDirectory (hs.isDirectory_hollow hk), hs.hollow_eq,
    without_without, hwithin, Store.prune]

/-- What leads to an entry are entries, so no key is longer than there are entries. -/
theorem length_lt_size (hk : (s.tree.get? k).isSome = true) : k.length < s.size := by
  have hprefix : ∀ j, j <+: k → j ∈ s.files.keys ++ s.directories.keys := by
    intro j hj
    have hsome : (s.tree.get? j).isSome = true := by
      by_cases hne : j = k
      · rwa [hne]
      · exact (hs.tree.isDirectory_of_prefix hj hne hk).isSome
    rw [hs.inStep.isSome_get?_tree, Bool.or_eq_true] at hsome
    rw [List.mem_append, mem_keys, mem_keys]
    exact hsome
  have hlength := Key.length_lt_of_prefixes hprefix
  rw [List.length_append, Tree.keys, Tree.keys, List.length_map, List.length_map] at hlength
  exact hlength

end Sound

end Store

end Memory

end RootedFS
