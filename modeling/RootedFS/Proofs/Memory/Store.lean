import RootedFS.Memory.Store
import RootedFS.Proofs.Tree.Sound

/-!
# Files, directories and stamps in step

The contents of the files, the directories, and what is noted of the entries are kept apart. While
they are in step, each key has a content, a directory or nothing, and a stamp exactly when it has
one of the two; then the store is told by its tree, and every change of the three is told by what it
does to the tree.

## Main definitions

* `Store.InStep`: no key is a file and a directory, and exactly the files and directories have
  stamps

## Main results

* `Store.InStep.isFile_tree`, `Store.InStep.isDirectory_tree`: the tree tells where files and
  directories are
* `Store.get?_tree_putFile`, `Store.get?_tree_eraseFile`, ...: the entries after a change
* `Store.InStep.putFile`, `Store.InStep.eraseFile`, ...: the changes that keep a store in step
* `Store.InStep.mem_children`: the children of a key, read off the tree
-/

namespace RootedFS.Memory.Store

open Tree

/-- The files, the directories and the stamps of a store fit together. -/
structure InStep (s : Store) : Prop where
  nodup_files : s.files.keys.Nodup
  nodup_directories : s.directories.keys.Nodup
  nodup_stamps : s.stamps.keys.Nodup
  /-- No file is a directory. -/
  disjoint : ∀ k, s.hasFile k = true → s.hasDirectory k = false
  /-- Files and directories have stamps, and nothing else has. -/
  stamped : ∀ k, (s.stamps.get? k).isSome = (s.hasFile k || s.hasDirectory k)

variable {s : Store} {j k : Key}

/-! ## The tree of a store -/

/-- What is found among entries that are noted, each under its key. -/
theorem lookup_filterMap_stamp {α β γ : Type} (l : List (Key × α)) (stamp : Key → Option β)
    (f : α → β → γ) (k : Key) :
    (l.filterMap fun (i, a) => (stamp i).map fun b => (i, f a b)).lookup k =
      (l.lookup k).bind fun a => (stamp k).map (f a) := by
  -- without a stamp all entries at a key drop out, so that none is found in the place of the first
  induction l with
  | nil => rfl
  | cons e l ih =>
    obtain ⟨i, a⟩ := e
    rw [lookup_cons_eq_ite, List.filterMap_cons]
    by_cases hki : k = i
    · subst hki
      cases hb : stamp k with
      | none =>
        rw [hb] at ih
        simpa [hb] using ih
      | some b => simp [hb]
    · cases hb : stamp i with
      | none => simpa [hb, hki] using ih
      | some b => simpa [hb, hki, lookup_cons_eq_ite] using ih

/-- The tree has a file where there is a content and a stamp, and else a directory where there is
one with a stamp. -/
theorem get?_tree (s : Store) (k : Key) :
    s.tree.get? k =
      ((s.files.get? k).bind fun content =>
        (s.stamps.get? k).map fun stamp => .file content stamp.mode stamp.modified).or
      ((s.directories.get? k).bind fun _ =>
        (s.stamps.get? k).map fun stamp => .directory stamp.mode stamp.modified) := by
  rw [get?, tree, List.lookup_append]
  exact congrArg₂ Option.or
    (lookup_filterMap_stamp s.files.entries s.stamps.get?
      (fun content stamp => Entry.file content stamp.mode stamp.modified) k)
    (lookup_filterMap_stamp s.directories.entries s.stamps.get?
      (fun _ stamp => Entry.directory stamp.mode stamp.modified) k)

theorem get?_tree_of_file {content : Bytes} {stamp : Stamp} (hf : s.files.get? k = some content)
    (hs : s.stamps.get? k = some stamp) :
    s.tree.get? k = some (.file content stamp.mode stamp.modified) := by
  rw [get?_tree, hf, hs]
  rfl

theorem get?_tree_of_directory {stamp : Stamp} (hf : s.hasFile k = false)
    (hd : s.hasDirectory k = true) (hs : s.stamps.get? k = some stamp) :
    s.tree.get? k = some (.directory stamp.mode stamp.modified) := by
  rw [hasFile, Option.isSome_eq_false_iff, Option.isNone_iff_eq_none] at hf
  obtain ⟨u, hd⟩ := Option.isSome_iff_exists.1 hd
  rw [get?_tree, hf, hd, hs]
  rfl

theorem get?_tree_of_no_stamp (h : s.stamps.get? k = none) : s.tree.get? k = none := by
  rw [get?_tree, h]
  cases s.files.get? k <;> cases s.directories.get? k <;> rfl

/-- Where contents, directories and stamps are the same, the tree is the same. -/
theorem get?_tree_congr {s' : Store} (hf : s'.files.get? j = s.files.get? j)
    (hd : s'.directories.get? j = s.directories.get? j)
    (hs : s'.stamps.get? j = s.stamps.get? j) : s'.tree.get? j = s.tree.get? j := by
  rw [get?_tree, get?_tree, hf, hd, hs]

/-- Each child is named once. -/
theorem nodup_children (s : Store) (k : Key) : (s.children k).Nodup :=
  (pairwise_foldr_insertName _).imp Std.ne_of_lt

namespace InStep

variable (h : s.InStep)
include h

/-- What is found at a file. -/
theorem file_of_hasFile (hf : s.hasFile k = true) :
    ∃ content stamp, s.files.get? k = some content ∧ s.stamps.get? k = some stamp ∧
      s.tree.get? k = some (.file content stamp.mode stamp.modified) := by
  obtain ⟨content, hcontent⟩ := Option.isSome_iff_exists.1 hf
  have hstamp := h.stamped k
  rw [hf, Bool.true_or] at hstamp
  obtain ⟨stamp, hstamp⟩ := Option.isSome_iff_exists.1 hstamp
  exact ⟨content, stamp, hcontent, hstamp, get?_tree_of_file hcontent hstamp⟩

/-- What is found at a directory. -/
theorem directory_of_hasDirectory (hd : s.hasDirectory k = true) :
    ∃ stamp, s.stamps.get? k = some stamp ∧
      s.tree.get? k = some (.directory stamp.mode stamp.modified) := by
  have hf : s.hasFile k = false := by
    by_contra hf
    rw [Bool.not_eq_false] at hf
    rw [h.disjoint k hf] at hd
    cases hd
  have hstamp := h.stamped k
  rw [hd, Bool.or_true] at hstamp
  obtain ⟨stamp, hstamp⟩ := Option.isSome_iff_exists.1 hstamp
  exact ⟨stamp, hstamp, get?_tree_of_directory hf hd hstamp⟩

theorem isFile_tree : s.tree.IsFile k ↔ s.hasFile k = true := by
  constructor
  · rintro ⟨content, mode, modified, hget⟩
    by_contra hf
    rw [Bool.not_eq_true] at hf
    cases hs : s.stamps.get? k with
    | none =>
      rw [get?_tree_of_no_stamp hs] at hget
      cases hget
    | some stamp =>
      have hd : s.hasDirectory k = true := by
        have hstamp := h.stamped k
        rw [hs, hf] at hstamp
        exact hstamp.symm
      rw [get?_tree_of_directory hf hd hs] at hget
      cases hget
  · intro hf
    obtain ⟨content, stamp, -, -, hget⟩ := h.file_of_hasFile hf
    exact ⟨content, _, _, hget⟩

theorem isDirectory_tree : s.tree.IsDirectory k ↔ s.hasDirectory k = true := by
  constructor
  · intro hd
    have hf : s.hasFile k = false := by
      rw [← Bool.not_eq_true, ← h.isFile_tree]
      exact hd.not_isFile
    have hstamp := h.stamped k
    rw [hf, Bool.false_or] at hstamp
    rw [← hstamp]
    cases hs : s.stamps.get? k with
    | none =>
      have hsome := hd.isSome
      rw [get?_tree_of_no_stamp hs] at hsome
      cases hsome
    | some stamp => rfl
  · intro hd
    obtain ⟨stamp, -, hget⟩ := h.directory_of_hasDirectory hd
    exact ⟨_, _, hget⟩

theorem hasFile_of_isDirectory (hd : s.tree.IsDirectory k) : s.hasFile k = false := by
  rw [← Bool.not_eq_true, ← h.isFile_tree]
  exact hd.not_isFile

theorem hasDirectory_of_not_isDirectory (hd : ¬s.tree.IsDirectory k) :
    s.hasDirectory k = false := by
  rwa [h.isDirectory_tree, Bool.not_eq_true] at hd

/-- Nothing is found in the tree where there is neither a file nor a directory. -/
theorem get?_tree_eq_none_iff :
    s.tree.get? k = none ↔ s.hasFile k = false ∧ s.hasDirectory k = false := by
  constructor
  · intro hnone
    rw [← Bool.not_eq_true, ← Bool.not_eq_true, ← h.isFile_tree, ← h.isDirectory_tree]
    exact ⟨not_isFile_of_none hnone, not_isDirectory_of_none hnone⟩
  · rintro ⟨hf, hd⟩
    have hstamp := h.stamped k
    rw [hf, hd] at hstamp
    refine get?_tree_of_no_stamp ?_
    rwa [Bool.or_false, Option.isSome_eq_false_iff, Option.isNone_iff_eq_none] at hstamp

/-- What is found at a file of the tree is its content and its stamp. -/
theorem get?_of_file {content : Bytes} {mode modified : Nat}
    (hget : s.tree.get? k = some (.file content mode modified)) :
    s.files.get? k = some content ∧ s.stamps.get? k = some ⟨mode, modified⟩ := by
  have hf := h.isFile_tree.1 (isFile_of_get? hget)
  obtain ⟨content', stamp, hcontent, hstamp, hget'⟩ := h.file_of_hasFile hf
  rw [hget] at hget'
  cases hget'
  exact ⟨hcontent, hstamp⟩

/-- What is found at an entry of the tree has its stamp. -/
theorem get?_stamps {e : Entry} (hget : s.tree.get? k = some e) :
    s.stamps.get? k = some ⟨e.mode, e.modified⟩ := by
  cases e with
  | file content mode modified => exact (h.get?_of_file hget).2
  | directory mode modified =>
    obtain ⟨stamp, hstamp, hget'⟩ :=
      h.directory_of_hasDirectory (h.isDirectory_tree.1 (isDirectory_of_get? hget))
    rw [hget] at hget'
    cases hget'
    exact hstamp

/-- Something is found in the tree where there is a file or a directory. -/
theorem isSome_get?_tree : (s.tree.get? k).isSome = (s.hasFile k || s.hasDirectory k) := by
  rw [Bool.eq_iff_iff, Bool.or_eq_true, ← h.isFile_tree, ← h.isDirectory_tree]
  exact ⟨isFile_or_isDirectory, fun hk => hk.elim IsFile.isSome IsDirectory.isSome⟩

/-- A child is a name by which some entry goes on from the key of the directory. -/
theorem mem_children {name : String} :
    name ∈ s.children k ↔ ∃ rest, (s.tree.get? (k ++ name :: rest)).isSome = true := by
  rw [children, mem_foldr_insertName, List.mem_append, mem_namesBelow, mem_namesBelow,
    ← exists_or]
  apply exists_congr
  intro rest
  rw [mem_keys, mem_keys, h.isSome_get?_tree, Bool.or_eq_true]
  rfl

/-- A key has no children when nothing is found below it. -/
theorem children_eq_nil_iff :
    s.children k = [] ↔ ∀ rest, rest ≠ [] → s.tree.get? (k ++ rest) = none := by
  rw [List.eq_nil_iff_forall_not_mem]
  constructor
  · intro hnil rest hrest
    obtain ⟨name, rest, rfl⟩ := List.exists_cons_of_ne_nil hrest
    have hname := hnil name
    rw [h.mem_children, not_exists] at hname
    simpa using hname rest
  · intro hnone name hname
    obtain ⟨rest, hrest⟩ := h.mem_children.1 hname
    rw [hnone (name :: rest) (by simp)] at hrest
    cases hrest

end InStep

/-! ## The tree after a change -/

theorem get?_tree_putFile (s : Store) (k j : Key) (content : Bytes) (stamp : Stamp) :
    (s.putFile k content stamp).tree.get? j =
      if j = k then some (.file content stamp.mode stamp.modified) else s.tree.get? j := by
  by_cases hj : j = k
  · subst hj
    rw [if_pos rfl]
    exact get?_tree_of_file (by simp [putFile]) (by simp [putFile])
  · rw [if_neg hj]
    exact get?_tree_congr (by simp [putFile, hj]) rfl (by simp [putFile, hj])

theorem get?_tree_putDirectory {s : Store} {k : Key} (hf : s.hasFile k = false) (j : Key)
    (stamp : Stamp) :
    (s.putDirectory k stamp).tree.get? j =
      if j = k then some (.directory stamp.mode stamp.modified) else s.tree.get? j := by
  by_cases hj : j = k
  · subst hj
    rw [if_pos rfl]
    exact get?_tree_of_directory hf (by simp [putDirectory, hasDirectory]) (by simp [putDirectory])
  · rw [if_neg hj]
    exact get?_tree_congr rfl (by simp [putDirectory, hj]) (by simp [putDirectory, hj])

theorem get?_tree_eraseFile (s : Store) (k j : Key) :
    (s.eraseFile k).tree.get? j = if j = k then none else s.tree.get? j := by
  by_cases hj : j = k
  · subst hj
    rw [if_pos rfl]
    exact get?_tree_of_no_stamp (by simp [eraseFile])
  · rw [if_neg hj]
    exact get?_tree_congr (by simp [eraseFile, hj]) rfl (by simp [eraseFile, hj])

theorem get?_tree_eraseDirectory (s : Store) (k j : Key) :
    (s.eraseDirectory k).tree.get? j = if j = k then none else s.tree.get? j := by
  by_cases hj : j = k
  · subst hj
    rw [if_pos rfl]
    exact get?_tree_of_no_stamp (by simp [eraseDirectory])
  · rw [if_neg hj]
    exact get?_tree_congr rfl (by simp [eraseDirectory, hj]) (by simp [eraseDirectory, hj])

/-! ## Changes that keep a store in step -/

namespace InStep

/-- Handles play no part. -/
theorem withHandles (h : s.InStep) (l : List Handle) : ({ s with handles := l } : Store).InStep :=
  ⟨h.nodup_files, h.nodup_directories, h.nodup_stamps, h.disjoint, h.stamped⟩

/-- A file may be put where there is no directory. -/
theorem putFile (h : s.InStep) (hd : s.hasDirectory k = false) (content : Bytes) (stamp : Stamp) :
    (s.putFile k content stamp).InStep where
  nodup_files := nodup_keys_insert h.nodup_files k content
  nodup_directories := h.nodup_directories
  nodup_stamps := nodup_keys_insert h.nodup_stamps k stamp
  disjoint := by
    intro j hj
    by_cases hjk : j = k
    · rw [hjk]
      exact hd
    · exact h.disjoint j (by simpa [hasFile, Store.putFile, hjk] using hj)
  stamped := by
    intro j
    have hj := h.stamped j
    by_cases hjk : j = k
    · simp [hasFile, Store.putFile, hjk]
    · simpa [hasFile, hasDirectory, Store.putFile, hjk] using hj

/-- A directory may be put where there is no file. -/
theorem putDirectory (h : s.InStep) (hf : s.hasFile k = false) (stamp : Stamp) :
    (s.putDirectory k stamp).InStep where
  nodup_files := h.nodup_files
  nodup_directories := nodup_keys_insert h.nodup_directories k ()
  nodup_stamps := nodup_keys_insert h.nodup_stamps k stamp
  disjoint := by
    intro j hj
    by_cases hjk : j = k
    · subst hjk
      have hnone : s.hasFile j = true := hj
      rw [hf] at hnone
      cases hnone
    · have hd := h.disjoint j hj
      simpa [hasDirectory, Store.putDirectory, hjk] using hd
  stamped := by
    intro j
    have hj := h.stamped j
    by_cases hjk : j = k
    · simp [hasDirectory, Store.putDirectory, hjk]
    · simpa [hasFile, hasDirectory, Store.putDirectory, hjk] using hj

/-- A file may be removed. -/
theorem eraseFile (h : s.InStep) (hf : s.hasFile k = true) : (s.eraseFile k).InStep where
  nodup_files := nodup_keys_erase h.nodup_files k
  nodup_directories := h.nodup_directories
  nodup_stamps := nodup_keys_erase h.nodup_stamps k
  disjoint := by
    intro j hj
    by_cases hjk : j = k
    · simp [hasFile, Store.eraseFile, hjk] at hj
    · exact h.disjoint j (by simpa [hasFile, Store.eraseFile, hjk] using hj)
  stamped := by
    intro j
    have hj := h.stamped j
    by_cases hjk : j = k
    · subst hjk
      have hd := h.disjoint j hf
      simpa [hasFile, hasDirectory, Store.eraseFile] using hd
    · simpa [hasFile, hasDirectory, Store.eraseFile, hjk] using hj

/-- A directory may be removed. -/
theorem eraseDirectory (h : s.InStep) (hf : s.hasFile k = false) :
    (s.eraseDirectory k).InStep where
  nodup_files := h.nodup_files
  nodup_directories := nodup_keys_erase h.nodup_directories k
  nodup_stamps := nodup_keys_erase h.nodup_stamps k
  disjoint := by
    intro j hj
    by_cases hjk : j = k
    · simp [hasDirectory, Store.eraseDirectory, hjk]
    · have hd := h.disjoint j hj
      simpa [hasDirectory, Store.eraseDirectory, hjk] using hd
  stamped := by
    intro j
    have hj := h.stamped j
    by_cases hjk : j = k
    · subst hjk
      simpa [hasFile, hasDirectory, Store.eraseDirectory] using hf
    · simpa [hasFile, hasDirectory, Store.eraseDirectory, hjk] using hj

end InStep

end RootedFS.Memory.Store
