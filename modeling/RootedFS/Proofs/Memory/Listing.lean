import Mathlib.Data.List.Sort
import RootedFS.Proofs.Contents
import RootedFS.Proofs.Memory.Consistent

/-!
# Listings in memory

A directory is listed with one entry for each file and each directory directly below it, in the
order of the names, and each entry tells what asking for that path tells. Names are told from the
keys that begin with that of the directory, so that it takes a sound tree for no other names to be
listed: deeper keys give no names but those of directories that are there themselves, and a key
whose text merely begins with that of the directory gives none.

## Main definitions

* `Listing`: what the listing of a directory tells

## Main results

* `Reachable.list_listing`: on every store that calls lead to, a directory is listed like this
* `list_congr`: nothing else has a part in a listing
-/

namespace RootedFS

/-- Metadata with the mode of a file or of a directory tell which of them the entry is. -/
theorem EntryInfo.checkDirectory_of_kind {σ : Type} {i : EntryInfo σ} {kind perm : Nat}
    (hkind : kind ≤ Mode.regular) (hperm : perm < 0o1000) (hmode : i.mode = (kind + perm : Nat)) :
    i.checkDirectory = .ok i.isDirectory := by
  have hcheck : Mode.check i.mode = .ok () := by
    rw [hmode, Mode.check, if_neg (by omega), if_neg, if_neg]
    · rfl
    all_goals
      rw [Mode.regular] at hkind
      omega
  rw [checkDirectory, hcheck]
  rfl

namespace Memory

open Tree

variable {σ : Type} {s s' : Store} {d e : Disk} {k : Key} {path : String}

/-! ## Metadata of several entries -/

/-- A listing has one entry for each name that has one. -/
theorem forall₂_infos {t : Tree Entry} {names : List String}
    (h : ∀ a ∈ names, (t.get? (k ++ [a])).isSome = true) :
    List.Forall₂ (fun a i => ∃ e, t.get? (k ++ [a]) = some e ∧ i = e.info (k ++ [a])) names
      (infos (σ := σ) t k names) := by
  induction names with
  | nil => exact .nil
  | cons a names ih =>
    obtain ⟨e, he⟩ := Option.isSome_iff_exists.1 (h a List.mem_cons_self)
    rw [infos, List.filterMap_cons, he]
    exact .cons ⟨e, he, rfl⟩ (ih fun b hb => h b (List.mem_cons_of_mem a hb))

/-- The names in a listing are those of the entries. -/
theorem names_infos {t : Tree Entry} {names : List String}
    (h : ∀ a ∈ names, (t.get? (k ++ [a])).isSome = true) :
    (infos (σ := σ) t k names).map FileInfo.name = names := by
  refine List.forall₂_eq_eq_eq ▸ List.forall₂_map_left_iff.2 ((forall₂_infos h).flip.imp ?_)
  rintro i a ⟨e, -, rfl⟩
  simp [Entry.info, Key.name]

/-- What is told of a name is told of the entry that has it. -/
theorem exists_of_mem_infos {t : Tree Entry} {names : List String} {i : FileInfo σ}
    (h : i ∈ infos t k names) :
    ∃ e, t.get? (k ++ [i.name]) = some e ∧ i = e.info (k ++ [i.name]) := by
  obtain ⟨a, -, hmap⟩ := List.mem_filterMap.1 h
  obtain ⟨e, hget, rfl⟩ := Option.map_eq_some_iff.1 hmap
  have hname : (e.info (σ := σ) (k ++ [a])).name = a := by simp [Entry.info, Key.name]
  rw [hname]
  exact ⟨e, hget, rfl⟩

/-! ## Children -/

/-- On a sound store a child is the name of an entry directly below. -/
theorem Store.Sound.mem_children_iff (hs : s.Sound) {a : String} :
    a ∈ s.children k ↔ (s.tree.get? (k ++ [a])).isSome = true :=
  ⟨isSome_of_mem_children hs, fun h => hs.inStep.mem_children.2 ⟨[], h⟩⟩

/-- The children are told by what is directly below. -/
theorem children_congr (hs : s.Sound) (hs' : s'.Sound)
    (h : ∀ a, s.tree.get? (k ++ [a]) = s'.tree.get? (k ++ [a])) :
    s.children k = s'.children k := by
  refine List.Pairwise.eq_of_mem_iff (pairwise_foldr_insertName _) (pairwise_foldr_insertName _) ?_
  intro a
  rw [hs.mem_children_iff, hs'.mem_children_iff, h]

theorem run_list_of_isDirectory (hs : d.store.Sound)
    (h : d.store.tree.IsDirectory (Key.resolve path)) :
    (list path).run d = .ok (infos (σ := σ) d.store.tree (Key.resolve path)
      (d.store.children (Key.resolve path))) d :=
  (ListOutcome.directory h).run hs

/-- A listing is told by what is directly below the directory: what is deeper in the tree, what is
elsewhere, the handles, the clock and the supply have no part in it. -/
theorem list_congr {l : List (FileInfo σ)} (hs : d.store.Sound) (hs' : e.store.Sound)
    (hdir : d.store.tree.IsDirectory (Key.resolve path))
    (hdir' : e.store.tree.IsDirectory (Key.resolve path))
    (h : ∀ a, e.store.tree.get? (Key.resolve path ++ [a]) =
      d.store.tree.get? (Key.resolve path ++ [a]))
    (hl : (list path).run d = .ok l d) : (list path).run e = .ok l e := by
  rw [run_list_of_isDirectory hs hdir] at hl
  cases hl
  rw [run_list_of_isDirectory hs' hdir', children_congr hs' hs h]
  simp only [infos, h]

/-! ## What a listing tells -/

/-- What the listing of a directory tells. -/
structure Listing (d : Disk) (path : String) (l : List (FileInfo σ)) : Prop where
  /-- The names are in order of code points, and each is there once. -/
  ordered : (l.map FileInfo.name).Pairwise (· < ·)
  /-- They are those of the files and the directories directly below. -/
  names : ∀ a, a ∈ l.map FileInfo.name ↔
    d.store.hasFile (Key.resolve path ++ [a]) = true ∨
      d.store.hasDirectory (Key.resolve path ++ [a]) = true
  /-- By the texts of the paths, a name is listed if something is kept under its path. -/
  paths : ∀ a, Path.IsName a → (a ∈ l.map FileInfo.name ↔
    (Key.resolve path ++ [a]).toString ∈ d.store.filePaths ++ d.store.directoryPaths)
  /-- An entry is what asking for its path comes to. -/
  stat : ∀ i ∈ l, (stat (Path.join [path, i.name])).run d = .ok i d
  /-- An entry tells whether a directory is there. -/
  directory : ∀ i ∈ l, (EntryInfo.plain i).checkDirectory =
    .ok (d.store.hasDirectory (Key.resolve path ++ [i.name]))
  /-- The size of a file is the length of its content. -/
  fileSize : ∀ i ∈ l, ∀ content, d.store.files.get? (Key.resolve path ++ [i.name]) = some content →
    i.size = content.length
  /-- The size of a directory is zero. -/
  directorySize : ∀ i ∈ l, d.store.hasDirectory (Key.resolve path ++ [i.name]) = true → i.size = 0

theorem checkDirectory_info {e : Entry} (hs : d.store.Sound) (hget : d.store.tree.get? k = some e) :
    (EntryInfo.plain (e.info (σ := σ) k)).checkDirectory = .ok (d.store.hasDirectory k) := by
  cases e with
  | file content mode modified =>
    obtain ⟨perm, hperm, rfl⟩ := hs.tree.typed k _ hget
    have hkind : Mode.isDirectory ((Mode.regular + perm : Nat) : Int) = false :=
      Mode.isDirectory_regular (by omega)
    rw [EntryInfo.checkDirectory_of_kind le_rfl hperm rfl,
      hs.inStep.disjoint k (hs.inStep.isFile_tree.1 (isFile_of_get? hget))]
    exact congrArg Except.ok hkind
  | directory mode modified =>
    obtain ⟨perm, hperm, rfl⟩ := hs.tree.typed k _ hget
    have hkind : Mode.isDirectory ((Mode.directory + perm : Nat) : Int) = true :=
      Mode.isDirectory_directory (by omega)
    rw [EntryInfo.checkDirectory_of_kind (by decide) hperm rfl,
      hs.inStep.isDirectory_tree.1 (isDirectory_of_get? hget)]
    exact congrArg Except.ok hkind

theorem listing_infos (hs : d.store.Sound) : Listing (σ := σ) d path
    (infos d.store.tree (Key.resolve path) (d.store.children (Key.resolve path))) := by
  have hnames := names_infos (σ := σ) fun a ha =>
    isSome_of_mem_children (k := Key.resolve path) hs ha
  have hsome : ∀ a, a ∈ (infos (σ := σ) d.store.tree (Key.resolve path)
      (d.store.children (Key.resolve path))).map FileInfo.name ↔
        (d.store.tree.get? (Key.resolve path ++ [a])).isSome = true := by
    intro a
    rw [hnames, hs.mem_children_iff]
  constructor
  case ordered =>
    rw [hnames]
    exact pairwise_foldr_insertName _
  case names =>
    intro a
    rw [hsome, hs.inStep.isSome_get?_tree, Bool.or_eq_true]
  case paths =>
    intro a ha
    have hkey : ∀ b ∈ Key.resolve path ++ [a], Path.IsName b :=
      Path.isName_concat (Path.isName_resolve path) ha
    rw [hsome, ← hs.mem_files_append_directories, Store.filePaths, Store.directoryPaths,
      ← List.map_append, List.mem_map]
    constructor
    · exact fun h => ⟨_, h, rfl⟩
    · rintro ⟨j, hj, htext⟩
      exact Path.toString_injective (hs.isName_of_mem hj) hkey htext ▸ hj
  case stat =>
    intro i hi
    obtain ⟨e, hget, hinfo⟩ := exists_of_mem_infos hi
    have hname : Path.IsName i.name :=
      hs.tree.names _ (Option.isSome_of_eq_some hget) i.name (by simp)
    have hkey := Path.resolve_join_name path hname
    rw [← hkey] at hget hinfo
    rw [(StatOutcome.present hget).run hs, ← hinfo]
  case directory =>
    intro i hi
    obtain ⟨e, hget, hinfo⟩ := exists_of_mem_infos hi
    have hcheck := checkDirectory_info (σ := σ) hs hget
    rwa [← hinfo] at hcheck
  case fileSize =>
    intro i hi content hcontent
    obtain ⟨e, hget, hinfo⟩ := exists_of_mem_infos hi
    have hfile := hs.inStep.isFile_tree.2 (by rw [Store.hasFile, hcontent]; rfl)
    obtain ⟨content', mode, modified, hget'⟩ := hfile
    rw [hget] at hget'
    cases hget'
    rw [(hs.inStep.get?_of_file hget).1] at hcontent
    cases hcontent
    rw [hinfo]
    rfl
  case directorySize =>
    intro i hi hdir
    obtain ⟨e, hget, hinfo⟩ := exists_of_mem_infos hi
    obtain ⟨mode, modified, hget'⟩ := hs.inStep.isDirectory_tree.2 hdir
    rw [hget] at hget'
    cases hget'
    rw [hinfo]
    rfl

/-- Whatever calls have been made before, a directory is listed with just what is directly below
it, each entry as asking for it tells it. On any other store that has the same directly below the
directory the listing is the same. -/
theorem Reachable.list_listing (hs : Reachable s) (hdir : s.hasDirectory (Key.resolve path) = true)
    (clock : Nat) (supply : Supply) :
    ∃ l : List (FileInfo σ), (list path).run ⟨s, clock, supply⟩ = .ok l ⟨s, clock, supply⟩ ∧
      Listing ⟨s, clock, supply⟩ path l ∧
      ∀ s', Reachable s' → s'.hasDirectory (Key.resolve path) = true →
        (∀ a, s'.tree.get? (Key.resolve path ++ [a]) = s.tree.get? (Key.resolve path ++ [a])) →
        ∀ clock' supply', (list path).run ⟨s', clock', supply'⟩ = .ok l ⟨s', clock', supply'⟩ := by
  have htree := hs.sound.inStep.isDirectory_tree.2 hdir
  have hrun := run_list_of_isDirectory (d := ⟨s, clock, supply⟩) (σ := σ) hs.sound htree
  refine ⟨_, hrun, listing_infos (d := ⟨s, clock, supply⟩) hs.sound, ?_⟩
  intro s' hs' hdir' h clock' supply'
  have htree' := hs'.sound.inStep.isDirectory_tree.2 hdir'
  exact list_congr (d := ⟨s, clock, supply⟩) (e := ⟨s', clock', supply'⟩) hs.sound hs'.sound htree
    htree' h hrun

/-- Beside the directory is a file whose path begins with the text of the directory's, and one of
its entries is a directory that was made on the way to a deeper file. -/
theorem Reachable.list_listing_beside :
    let s₁ := (after (Event.call (.create "a/x/y")).run ⟨.empty 0, 0, {}⟩).store
    let s := (after (Event.call (.create "ab")).run ⟨s₁, 0, {}⟩).store
    (Reachable s ∧ s.hasDirectory (Key.resolve "ab/../a/.") = true) ∧
      ∃ l : List (FileInfo Unit), (list "ab/../a/.").run ⟨s, 5, {}⟩ = .ok l ⟨s, 5, {}⟩ ∧
        Listing ⟨s, 5, {}⟩ "ab/../a/." l ∧
        ∀ s', Reachable s' → s'.hasDirectory (Key.resolve "ab/../a/.") = true →
          (∀ a, s'.tree.get? (Key.resolve "ab/../a/." ++ [a]) =
            s.tree.get? (Key.resolve "ab/../a/." ++ [a])) →
          ∀ clock' supply',
            (list "ab/../a/.").run ⟨s', clock', supply'⟩ = .ok l ⟨s', clock', supply'⟩ := by
  intro s₁ s
  have hs : Reachable s := .step (.step (.new 0) 0 {} _) 0 {} _
  have hdir : s.hasDirectory (Key.resolve "ab/../a/.") = true := by decide
  exact ⟨⟨hs, hdir⟩, hs.list_listing hdir 5 {}⟩

end Memory

end RootedFS
