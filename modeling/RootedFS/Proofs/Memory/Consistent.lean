import RootedFS.Proofs.Memory.Sound

/-!
# The containers of a store

Files, directories and stamps are kept under absolute paths. Told by the texts of these paths alone,
the containers and the handles of a store fit together whatever calls have been made.

## Main definitions

* `Path.IsAncestor`: one absolute path leads to another
* `Store.filePaths`, `Store.directoryPaths`, `Store.stampPaths`: the paths under which a store keeps
  what it keeps
* `Store.Consistent`: the containers and the handles fit together

## Main results

* `Reachable.containers_consistent`: they do, and no call fails because something is missing
-/

namespace RootedFS

/-- One absolute path leads to another: the other goes on from it after a slash, and all but the
top go on from the top. -/
def Path.IsAncestor (a p : String) : Prop :=
  (a = "/" ∧ p ≠ "/") ∨
    ∃ rest, a ≠ "" ∧ p.toList = a.toList ++ '/' :: rest

/-- The bits of a mode that tell the kind. -/
def Mode.kind (mode : Nat) : Nat :=
  mode &&& 0o170000

@[simp] theorem Key.toString_nil : Key.toString [] = "/" := rfl

/-- What leads to the path of a key is the path of a key that it begins with. -/
theorem Path.exists_of_isAncestor {a : String} {k : Key} (hk : ∀ b ∈ k, IsName b)
    (h : IsAncestor a (Key.toString k)) :
    ∃ j rest, rest ≠ [] ∧ k = j ++ rest ∧ a = Key.toString j := by
  rcases h with ⟨rfl, hne⟩ | ⟨rest, ha, hp⟩
  · exact ⟨[], k, fun hnil => hne (by rw [hnil, Key.toString_nil]), rfl, rfl⟩
  · have hpieces : pieces (Key.toString k) = pieces a ++ pieces (String.ofList rest) := by
      simp [pieces, hp, splitSlash_append_slash]
    have hrest : pieces (String.ofList rest) ≠ [] := by
      simp [pieces, splitSlash_ne_nil]
    obtain ⟨first, j, hfirst⟩ := List.exists_cons_of_ne_nil (l := pieces a)
      (by simp [pieces, splitSlash_ne_nil])
    have hk' : pieces (Key.toString k) = "" :: pieces (glue k) := by
      rw [Key.toString, pieces_slash, String.ofList_toList]
    rw [hk', hfirst, List.cons_append, List.cons_eq_cons] at hpieces
    obtain ⟨rfl, hpieces⟩ := hpieces
    have hglue : a = glue ("" :: j) := by rw [← hfirst, glue_pieces]
    cases j with
    | nil => exact absurd (hglue.trans (glue_singleton "")) ha
    | cons b j =>
      refine ⟨b :: j, _, hrest, ?_, ?_⟩
      · cases k with
        | nil =>
          have hlen := congrArg List.length hpieces
          have hpos := List.length_pos_of_ne_nil hrest
          rw [List.length_append, List.length_cons] at hlen
          change 1 = _ at hlen
          omega
        | cons c k => rw [← hpieces, pieces_glue_names (by simp) hk]
      · rw [hglue, glue_cons_cons]
        rfl

theorem Mode.kind_regular {perm : Nat} (h : perm < 0o1000) :
    Mode.kind (Mode.regular + perm) = Mode.regular := by
  revert perm
  decide +kernel

theorem Mode.kind_directory {perm : Nat} (h : perm < 0o1000) :
    Mode.kind (Mode.directory + perm) = Mode.directory := by
  revert perm
  decide +kernel

namespace Memory

open Tree

namespace Store

/-- The paths of the files. -/
def filePaths (s : Store) : List String :=
  s.files.keys.map Key.toString

/-- The paths of the directories. -/
def directoryPaths (s : Store) : List String :=
  s.directories.keys.map Key.toString

/-- The paths of which something is noted. -/
def stampPaths (s : Store) : List String :=
  s.stamps.keys.map Key.toString

/-- The containers and the handles of a store fit together. -/
structure Consistent (s : Store) : Prop where
  /-- Files and directories are kept under canonical paths. -/
  canonical : ∀ p ∈ s.filePaths ++ s.directoryPaths, Path.Canonical p
  /-- Each path is there once, and no file is a directory. -/
  nodup : (s.filePaths ++ s.directoryPaths).Nodup
  /-- The top is a directory. -/
  top : "/" ∈ s.directoryPaths
  /-- What leads to a file or a directory is a directory. -/
  ancestors : ∀ p ∈ s.filePaths ++ s.directoryPaths, ∀ a, Path.IsAncestor a p →
    a ∈ s.directoryPaths
  /-- Stamps are there once. -/
  nodup_stamps : s.stampPaths.Nodup
  /-- Files and directories have stamps, and nothing else has. -/
  stamped : ∀ p, p ∈ s.stampPaths ↔ p ∈ s.filePaths ++ s.directoryPaths
  /-- The stamps of the files, and only these, tell a regular file. -/
  regular : ∀ k stamp, s.stamps.get? k = some stamp →
    (Mode.kind stamp.mode = Mode.regular ↔ k.toString ∈ s.filePaths)
  /-- The stamps of the directories, and only these, tell a directory. -/
  directory : ∀ k stamp, s.stamps.get? k = some stamp →
    (Mode.kind stamp.mode = Mode.directory ↔ k.toString ∈ s.directoryPaths)
  /-- A handle that has not been closed has lost its file, or is on one of the files. -/
  attached : ∀ h ∈ s.handles, h.closed = false → ∀ k, h.key = some k → k.toString ∈ s.filePaths

end Store

section

variable {s : Store} {k : Key}

namespace Store.Sound

variable (hs : s.Sound)
include hs

theorem mem_files : k ∈ s.files.keys ↔ s.tree.IsFile k := by
  rw [mem_keys, hs.inStep.isFile_tree]
  rfl

theorem mem_directories : k ∈ s.directories.keys ↔ s.tree.IsDirectory k := by
  rw [mem_keys, hs.inStep.isDirectory_tree]
  rfl

theorem mem_files_append_directories :
    k ∈ s.files.keys ++ s.directories.keys ↔ (s.tree.get? k).isSome = true := by
  rw [List.mem_append, hs.mem_files, hs.mem_directories]
  exact ⟨fun h => h.elim IsFile.isSome IsDirectory.isSome, isFile_or_isDirectory⟩

theorem mem_stamps : k ∈ s.stamps.keys ↔ k ∈ s.files.keys ++ s.directories.keys := by
  rw [mem_keys, hs.inStep.stamped, Bool.or_eq_true, List.mem_append, mem_keys, mem_keys]
  rfl

theorem isName_of_mem (hk : k ∈ s.files.keys ++ s.directories.keys) : ∀ a ∈ k, Path.IsName a :=
  hs.tree.names k (hs.mem_files_append_directories.1 hk)

theorem nodup_files_append_directories : (s.files.keys ++ s.directories.keys).Nodup :=
  List.Nodup.append hs.inStep.nodup_files hs.inStep.nodup_directories fun _ hf hd =>
    (hs.mem_files.1 hf).not_isDirectory (hs.mem_directories.1 hd)

/-- A path of a list of keys of names is the text of a key only if the key is there. -/
theorem toString_mem {l : List Key} (hl : l ⊆ s.files.keys ++ s.directories.keys)
    (hk : k ∈ s.files.keys ++ s.directories.keys) : k.toString ∈ l.map Key.toString ↔ k ∈ l := by
  rw [List.mem_map]
  constructor
  · rintro ⟨j, hj, heq⟩
    exact Path.toString_injective (hs.isName_of_mem (hl hj)) (hs.isName_of_mem hk) heq ▸ hj
  · exact fun h => ⟨k, h, rfl⟩

theorem nodup_map_toString {l : List Key} (hl : l ⊆ s.files.keys ++ s.directories.keys)
    (h : l.Nodup) : (l.map Key.toString).Nodup :=
  List.Nodup.map_on (fun _ hj _ hk => Path.toString_injective (hs.isName_of_mem (hl hj))
    (hs.isName_of_mem (hl hk))) h

/-- What is noted of a file or a directory tells which of them it is. -/
theorem kind_stamp {stamp : Stamp} (h : s.stamps.get? k = some stamp) :
    (k ∈ s.files.keys ∧ k ∉ s.directories.keys ∧ Mode.kind stamp.mode = Mode.regular) ∨
      (k ∉ s.files.keys ∧ k ∈ s.directories.keys ∧ Mode.kind stamp.mode = Mode.directory) := by
  have hk : k ∈ s.files.keys ++ s.directories.keys := hs.mem_stamps.1 (mem_keys.2 (by rw [h]; rfl))
  rw [hs.mem_files, hs.mem_directories]
  obtain ⟨e, he⟩ := Option.isSome_iff_exists.1 (hs.mem_files_append_directories.1 hk)
  have hmode : stamp.mode = e.mode := by
    have hstamps := hs.inStep.get?_stamps he
    rw [h] at hstamps
    exact congrArg Stamp.mode (Option.some.inj hstamps)
  cases e with
  | file content mode modified =>
    obtain ⟨perm, hperm, hregular⟩ := hs.tree.typed k _ he
    refine .inl ⟨isFile_of_get? he, (isFile_of_get? he).not_isDirectory, ?_⟩
    rw [hmode, Entry.mode, hregular, Mode.kind_regular hperm]
  | directory mode modified =>
    obtain ⟨perm, hperm, hdirectory⟩ := hs.tree.typed k _ he
    refine .inr ⟨(isDirectory_of_get? he).not_isFile, isDirectory_of_get? he, ?_⟩
    rw [hmode, Entry.mode, hdirectory, Mode.kind_directory hperm]

/-- The containers and the handles of a sound store fit together. -/
theorem consistent : s.Consistent := by
  have hpaths : s.filePaths ++ s.directoryPaths =
      (s.files.keys ++ s.directories.keys).map Key.toString := List.map_append.symm
  have hfiles : s.files.keys ⊆ s.files.keys ++ s.directories.keys := List.subset_append_left _ _
  have hdirs : s.directories.keys ⊆ s.files.keys ++ s.directories.keys :=
    List.subset_append_right _ _
  have hdirectory : ∀ {j}, s.tree.IsDirectory j → j.toString ∈ s.directoryPaths := by
    intro j hj
    exact List.mem_map_of_mem (hs.mem_directories.2 hj)
  constructor
  case canonical =>
    rw [hpaths]
    intro p hp
    obtain ⟨k, hk, rfl⟩ := List.mem_map.1 hp
    exact Path.canonical_toString (hs.isName_of_mem hk)
  case nodup =>
    rw [hpaths]
    exact hs.nodup_map_toString (List.Subset.refl _) hs.nodup_files_append_directories
  case top => exact hdirectory hs.tree.root
  case ancestors =>
    rw [hpaths]
    intro p hp a ha
    obtain ⟨k, hk, rfl⟩ := List.mem_map.1 hp
    obtain ⟨j, rest, hrest, rfl, rfl⟩ := Path.exists_of_isAncestor (hs.isName_of_mem hk) ha
    exact hdirectory
      (hs.tree.isDirectory_of_append hrest (hs.mem_files_append_directories.1 hk))
  case nodup_stamps =>
    exact hs.nodup_map_toString (fun _ => hs.mem_stamps.1) hs.inStep.nodup_stamps
  case stamped =>
    intro p
    rw [hpaths, stampPaths, List.mem_map, List.mem_map]
    simp only [hs.mem_stamps]
  case regular =>
    intro k stamp h
    have hk := hs.mem_stamps.1 (mem_keys.2 (by rw [h]; rfl))
    rw [filePaths, hs.toString_mem hfiles hk]
    rcases hs.kind_stamp h with ⟨hf, -, hkind⟩ | ⟨hf, -, hkind⟩
    · simp [hf, hkind]
    · simp [hf, hkind, Mode.regular, Mode.directory]
  case directory =>
    intro k stamp h
    have hk := hs.mem_stamps.1 (mem_keys.2 (by rw [h]; rfl))
    rw [directoryPaths, hs.toString_mem hdirs hk]
    rcases hs.kind_stamp h with ⟨-, hd, hkind⟩ | ⟨-, hd, hkind⟩
    · simp [hd, hkind, Mode.regular, Mode.directory]
    · simp [hd, hkind]
  case attached =>
    intro h hh ho k hk
    exact List.mem_map_of_mem (hs.mem_files.2 (hs.attached h hh ho k hk))

end Store.Sound

end

/-- Whatever calls have been made on a store and its handles, the containers and the handles fit
together, and no call fails because something is missing that has to be there. -/
theorem Reachable.containers_consistent {s : Store} (h : Reachable s) :
    s.Consistent ∧ ∀ clock supply (e : Event) f d',
      e.run.run ⟨s, clock, supply⟩ = .error f d' → ∀ path, f ≠ .noEntry path :=
  ⟨h.sound.consistent, fun _ _ _ _ _ hrun path hf => Event.not_noEntry h.sound hrun ⟨path, hf⟩⟩

/-- A file with an open handle has been moved along with its directory. -/
theorem Reachable.containers_consistent_moved :
    let s₁ := (after (Event.call (.create "a/f")).run ⟨.empty 0, 0, {}⟩).store
    let s₂ := (after (Event.call (.rename "/a/" "b/../c")).run ⟨s₁, 0, {}⟩).store
    (s₂.filePaths = ["/c/f"] ∧ s₂.directoryPaths = ["/c", "/"]) ∧ s₂.Consistent ∧
      ∀ clock supply (e : Event) f d', e.run.run ⟨s₂, clock, supply⟩ = .error f d' →
        ∀ path, f ≠ .noEntry path :=
  ⟨by decide, Reachable.containers_consistent (.step (.step (.new 0) 0 {} _) 0 {} _)⟩

end Memory

end RootedFS
