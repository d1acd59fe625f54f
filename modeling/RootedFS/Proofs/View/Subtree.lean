import Mathlib.Data.List.Sort
import RootedFS.Proofs.Memory.Outcome

/-!
# Trees below a key

What is found at and below a directory of one tree may be what is found in another tree, from its
top on. Files and directories then stand in the same places of both, calls find the same in their
way, and changes that are the same in both keep it so. The ticks at which entries were changed are
left aside.

## Main definitions

* `Entry.timeless`: an entry without the tick of its last change
* `Tree.Subtree`: what is at and below a key of one tree is another tree

## Main results

* `Subtree.isFile`, `Subtree.isDirectory`, `Subtree.get?_eq_none_iff`: the same is found in both
* `Subtree.addDirectories`, `Subtree.putFile`, `Subtree.moved`, ...: changes that keep it so
* `Subtree.children`: directories list the same names
-/

namespace RootedFS

open Memory Tree

namespace Key

variable {base j k : Key}

theorem append_mem_steps_append (hj : j ≠ []) : base ++ j ∈ steps (base ++ k) ↔ j ∈ steps k := by
  rw [mem_steps, mem_steps, List.prefix_append_right_inj]
  exact and_congr_left' (iff_of_true (by simp [hj]) hj)

theorem append_mem_steps (hj : j ∈ steps k) : base ++ j ∈ steps (base ++ k) :=
  (append_mem_steps_append (mem_steps.1 hj).1).2 hj

end Key

/-- An entry without the tick of its last change. -/
def Memory.Entry.timeless : Entry → Entry
  | .file content mode _ => .file content mode 0
  | .directory mode _ => .directory mode 0

namespace Tree

/-! ## Entries that are the same but for ticks -/

section

variable {k k' : Key} {t t' : Tree Entry}
  (h : (t.get? k).map Entry.timeless = (t'.get? k').map Entry.timeless)
include h

theorem get?_eq_none_congr : t.get? k = none ↔ t'.get? k' = none := by
  rw [← Option.map_eq_none_iff (f := Entry.timeless), h, Option.map_eq_none_iff]

theorem isSome_congr : (t.get? k).isSome = true ↔ (t'.get? k').isSome = true := by
  rw [← Option.ne_none_iff_isSome, ← Option.ne_none_iff_isSome, ne_eq, ne_eq,
    get?_eq_none_congr h]

/-- A file of the other tree is a file of the one. -/
theorem get?_of_file_congr {content : Bytes} {mode modified : Nat}
    (hk : t'.get? k' = some (.file content mode modified)) :
    ∃ modified, t.get? k = some (.file content mode modified) := by
  rw [hk] at h
  obtain ⟨e, he, hfile⟩ := Option.map_eq_some_iff.1 h
  cases e with
  | file content' mode' modified' =>
    obtain ⟨rfl, rfl, -⟩ := Entry.file.inj hfile
    exact ⟨modified', he⟩
  | directory mode' modified' => cases hfile

theorem isFile_congr : t.IsFile k ↔ t'.IsFile k' := by
  constructor
  · rintro ⟨content, mode, modified, hk⟩
    obtain ⟨modified', hk'⟩ := get?_of_file_congr h.symm hk
    exact isFile_of_get? hk'
  · rintro ⟨content, mode, modified, hk⟩
    obtain ⟨modified', hk'⟩ := get?_of_file_congr h hk
    exact isFile_of_get? hk'

theorem isDirectory_congr : t.IsDirectory k ↔ t'.IsDirectory k' := by
  constructor
  · intro hk
    apply (isFile_or_isDirectory ((isSome_congr h).1 hk.isSome)).resolve_left
    intro hf
    exact ((isFile_congr h).2 hf).not_isDirectory hk
  · intro hk
    apply (isFile_or_isDirectory ((isSome_congr h).2 hk.isSome)).resolve_left
    intro hf
    exact ((isFile_congr h).1 hf).not_isDirectory hk

end

/-! ## Subtrees -/

/-- What is at and below a key of one tree is another tree. The key and the top of the other are
directories, with modes of their own. -/
structure Subtree (base : Key) (p q : Nat) (t t' : Tree Entry) : Prop where
  self : ∃ now, t.get? base = some (.directory p now)
  top : ∃ now, t'.get? [] = some (.directory q now)
  below : ∀ k, k ≠ [] →
    (t.get? (base ++ k)).map Entry.timeless = (t'.get? k).map Entry.timeless

namespace Subtree

variable {base k j : Key} {p q : Nat} {t t' : Tree Entry}

section

variable (h : Subtree base p q t t')
include h

theorem get?_eq_none_iff : t.get? (base ++ k) = none ↔ t'.get? k = none := by
  by_cases hk : k = []
  · subst hk
    obtain ⟨now, hself⟩ := h.self
    obtain ⟨now', htop⟩ := h.top
    simp [hself, htop]
  · exact get?_eq_none_congr (h.below k hk)

/-- A file of the other tree is found below the key. -/
theorem get?_of_file {content : Bytes} {mode modified : Nat}
    (hk : t'.get? k = some (.file content mode modified)) :
    ∃ modified, t.get? (base ++ k) = some (.file content mode modified) := by
  have hne : k ≠ [] := by
    rintro rfl
    obtain ⟨now, htop⟩ := h.top
    rw [htop] at hk
    cases hk
  exact get?_of_file_congr (h.below k hne) hk

theorem isDirectory : t.IsDirectory (base ++ k) ↔ t'.IsDirectory k := by
  by_cases hk : k = []
  · subst hk
    rw [List.append_nil]
    exact iff_of_true ⟨_, h.self⟩ ⟨_, h.top⟩
  · exact isDirectory_congr (h.below k hk)

theorem isFile : t.IsFile (base ++ k) ↔ t'.IsFile k := by
  by_cases hk : k = []
  · subst hk
    rw [List.append_nil]
    exact iff_of_false (IsDirectory.not_isFile ⟨_, h.self⟩) (IsDirectory.not_isFile ⟨_, h.top⟩)
  · exact isFile_congr (h.below k hk)

theorem isSome : (t.get? (base ++ k)).isSome = true ↔ (t'.get? k).isSome = true := by
  rw [← Option.ne_none_iff_isSome, ← Option.ne_none_iff_isSome, ne_eq, ne_eq, h.get?_eq_none_iff]

/-- No file is in the way below the key when none is in the way from the top. -/
theorem not_isFile_of_mem_steps (ht : t.Sound) (hfree : ∀ j ∈ k.steps, ¬t'.IsFile j)
    (hj : j ∈ (base ++ k).steps) : ¬t.IsFile j := by
  obtain ⟨hne, hpre⟩ := Key.mem_steps.1 hj
  have hself : t.IsDirectory base := ⟨_, h.self⟩
  rcases List.prefix_or_prefix_of_prefix hpre (List.prefix_append base k) with hj | hj
  · by_cases heq : j = base
    · exact heq ▸ hself.not_isFile
    · exact (ht.isDirectory_of_prefix hj heq hself.isSome).not_isFile
  · obtain ⟨rest, rfl⟩ := hj
    rw [h.isFile]
    by_cases hrest : rest = []
    · subst hrest
      exact IsDirectory.not_isFile ⟨_, h.top⟩
    · exact hfree rest ((Key.append_mem_steps_append hrest).1 hj)

end

/-! ## Changes that are the same in both trees -/

/-- An entry below the key and the same entry of the other tree have changed in the same way. -/
theorem update {t₁ t₁' : Tree Entry} {e e' : Option Entry} (h : Subtree base p q t t')
    (hk : k ≠ []) (hget : ∀ j, t₁.get? j = if j = base ++ k then e else t.get? j)
    (hget' : ∀ j, t₁'.get? j = if j = k then e' else t'.get? j)
    (he : e.map Entry.timeless = e'.map Entry.timeless) : Subtree base p q t₁ t₁' where
  self := by
    obtain ⟨now, hself⟩ := h.self
    exact ⟨now, by rw [hget, if_neg (by simp [hk]), hself]⟩
  top := by
    obtain ⟨now, htop⟩ := h.top
    exact ⟨now, by rw [hget', if_neg (Ne.symm hk), htop]⟩
  below j hj := by
    rw [hget, hget']
    by_cases hjk : j = k
    · rw [if_pos (by rw [hjk]), if_pos hjk, he]
    · rw [if_neg (by simpa using hjk), if_neg hjk, h.below j hj]

section

variable {d d' : Disk}

/-- The directories on the way to a key have been made in both. -/
theorem addDirectories (h : Subtree base p q d.store.tree d'.store.tree) (hs : d.store.InStep)
    (hs' : d'.store.InStep) (perm : Int) (k : Key) :
    Subtree base p q (d.addDirectories perm (base ++ k).steps).store.tree
      (d'.addDirectories perm k.steps).store.tree where
  self := by
    obtain ⟨now, hself⟩ := h.self
    exact ⟨now, by rw [Disk.get?_addDirectories_of_isSome perm hs (by rw [hself]; rfl), hself]⟩
  top := by
    obtain ⟨now, htop⟩ := h.top
    exact ⟨now, by rw [Disk.get?_addDirectories_of_isSome perm hs' (by rw [htop]; rfl), htop]⟩
  below j hj := by
    have hmem : base ++ j ∈ (base ++ k).steps ↔ j ∈ k.steps := Key.append_mem_steps_append hj
    by_cases hnone : d'.store.tree.get? j = none
    · have hnone' := h.get?_eq_none_iff.2 hnone
      by_cases hsteps : j ∈ k.steps
      · obtain ⟨now, hnow⟩ := Disk.get?_addDirectories_of_mem perm hs (hmem.2 hsteps) hnone'
        obtain ⟨now', hnow'⟩ := Disk.get?_addDirectories_of_mem perm hs' hsteps hnone
        rw [hnow, hnow']
        rfl
      · rw [Disk.get?_addDirectories_of_not_mem perm hs (mt hmem.1 hsteps),
          Disk.get?_addDirectories_of_not_mem perm hs' hsteps, h.below j hj]
    · rw [← ne_eq, Option.ne_none_iff_isSome] at hnone
      rw [Disk.get?_addDirectories_of_isSome perm hs (h.isSome.2 hnone),
        Disk.get?_addDirectories_of_isSome perm hs' hnone, h.below j hj]

/-- The directories on the way to the parent of a key below the top have been made in both. -/
theorem addDirectories_parent (h : Subtree base p q d.store.tree d'.store.tree)
    (hs : d.store.InStep) (hs' : d'.store.InStep) (perm : Int) (hk : k ≠ []) :
    Subtree base p q (d.addDirectories perm (base ++ k).parent.steps).store.tree
      (d'.addDirectories perm k.parent.steps).store.tree := by
  rw [Key.parent_append hk]
  exact h.addDirectories hs hs' perm k.parent

/-- A file has been put in the same place of both. -/
theorem putFile (h : Subtree base p q d.store.tree d'.store.tree) (hk : k ≠ [])
    (content : Bytes) (mode : Nat) :
    Subtree base p q (d.putFile (base ++ k) content mode).store.tree
      (d'.putFile k content mode).store.tree :=
  h.update hk (Disk.get?_putFile d (base ++ k) · content mode)
    (Disk.get?_putFile d' k · content mode) rfl

/-- What is at and below one key has been moved to another in both. -/
theorem moved {s s₁ s' s₁' : Store} {src dst : Key} (h : Subtree base p q s.tree s'.tree)
    (hsrc : src ≠ []) (hdst : dst ≠ []) (hm : Store.Moved s s₁ (base ++ src) (base ++ dst))
    (hm' : Store.Moved s' s₁' src dst) : Subtree base p q s₁.tree s₁'.tree where
  self := by
    obtain ⟨now, hself⟩ := h.self
    refine ⟨now, ?_⟩
    have hout : ∀ l : Key, l ≠ [] → Key.within (base ++ l) base = false := by
      intro l hl
      have happend : Key.within (base ++ l) (base ++ []) = Key.within l [] :=
        Key.within_append_append
      rw [List.append_nil] at happend
      rw [happend, Key.within_nil hl]
    rw [hm.other base (hout dst hdst), hout src hsrc, if_neg (by simp), hself]
  top := by
    obtain ⟨now, htop⟩ := h.top
    refine ⟨now, ?_⟩
    rw [hm'.other [] (Key.within_nil hdst), Key.within_nil hsrc, if_neg (by simp), htop]
  below j hj := by
    cases hin : Key.within dst j with
    | true =>
      obtain ⟨rest, rfl⟩ := Key.within_iff.1 hin
      rw [← List.append_assoc, hm.target, hm'.target, List.append_assoc,
        h.below (src ++ rest) (by simp [hsrc])]
    | false =>
      rw [hm.other (base ++ j) (by rw [Key.within_append_append, hin]), hm'.other j hin,
        Key.within_append_append]
      split
      · rfl
      · exact h.below j hj

end

/-! ## Listings -/

/-- A directory below the key lists the same names as that of the other tree. -/
theorem children {s s' : Store} (h : Subtree base p q s.tree s'.tree) (hs : s.InStep)
    (hs' : s'.InStep) (k : Key) : s.children (base ++ k) = s'.children k := by
  -- both listings are in order, and a name is in them when something is below it
  refine List.Pairwise.eq_of_mem_iff (pairwise_foldr_insertName _) (pairwise_foldr_insertName _) ?_
  intro a
  rw [hs.mem_children, hs'.mem_children]
  simp only [List.append_assoc, h.isSome]

end Subtree

end Tree

end RootedFS
