import RootedFS.Conformance.Directories
import RootedFS.Conformance.Files
import RootedFS.Proofs.Conformance.Check

/-!
# Scenarios carry over

What passes on one filesystem in memory, in a store just made, passes on every other that is abreast
of it. A scenario that first makes something runs on both in parallel. A scenario that makes nothing
passes on every one of them: it finds that nothing is there, or asks for nothing but names.

## Main definitions

* `Scenario.CarriesOver`: a scenario that passes on the one passes on the other

## Main results

* `carriesOver_creation`, `carriesOver_relocation`, `carriesOver_treeRemoval`, ...: the scenarios of
  the suite do, group by group
-/

namespace RootedFS.Conformance

open FileSystem

/-- What passes on a store just made passes on every filesystem that is abreast, on a store just
made. -/
def Scenario.CarriesOver (s : Scenario) : Prop :=
  ∀ (m m' : Nat) (base : Key) (fs fs' : FileSystem), Abreast m m' base fs fs' →
    ∀ (w w' : World) (now now' : Nat), w.stores[m]? = some (.empty now) →
      w'.stores[m']? = some (.empty now') → (∃ v', (s.run fs').run w' = .ok () v') →
        ∃ v, (s.run fs).run w = .ok () v

namespace Scenario.CarriesOver

variable {s : Scenario}

/-- A scenario that runs in parallel carries over. -/
theorem of_starts (h : ∀ {m m' : Nat} {base : Key} {fs fs' : FileSystem},
    Abreast m m' base fs fs' → Starts m m' base (fun _ _ => True) (s.run fs) (s.run fs')) :
    s.CarriesOver := by
  rintro m m' base fs fs' hfs w w' now now' hm hm' ⟨v', hpass⟩
  have hend := (h hfs).ends hfs.isName_base hm hm'
  rw [hpass] at hend
  generalize (s.run fs).run w = r at hend ⊢
  cases hend with
  | ok ha hv => exact ⟨_, rfl⟩

/-- A scenario that passes wherever nothing has been made carries over. -/
theorem of_passes (h : ∀ {m : Nat} {fs : FileSystem} {w : World} {now : Nat}, Seat m fs →
    w.stores[m]? = some (.empty now) → ∃ v, (s.run fs).run w = .ok () v) : s.CarriesOver :=
  fun _ _ _ _ _ hfs _ _ _ _ hm _ _ => h hfs.seat hm

end Scenario.CarriesOver

section

variable {m m' : Nat} {base : Key} {fs fs' : FileSystem} {path text : String}
  (h : Abreast m m' base fs fs')
include h

theorem starts_createNamed (hpath : Path.LeadsBelow path) :
    Starts m m' base (fun _ _ => True) (createNamed fs path) (createNamed fs' path) :=
  (starts_openFile h hpath rfl).bind fun f f' hf =>
    (parallel_require (by rw [hf.name])).bind fun _ _ _ => concur_close hf

end

/-! ## Scenarios on files -/

theorem carriesOver_creation : ∀ s ∈ creation, s.CarriesOver := by
  simp only [creation, List.forall_mem_cons]
  refine ⟨.of_starts fun h => ?create, .of_starts fun h => ?create_depth,
    .of_starts fun h => ?create_depth_absolute, .of_starts fun h => ?create_and_read,
    .of_starts fun h => ?create_overwrite, .of_starts fun h => ?create_with_existing_dir,
    List.forall_mem_nil _⟩
  case create => exact starts_createNamed h (by decide)
  case create_depth => exact starts_createNamed h (by decide)
  case create_depth_absolute =>
    refine (starts_createNamed h (by decide)).bind fun _ _ _ => ?_
    exact (parallel_call (h.stat (by decide))).bind fun _ _ hi => parallel_require (by rw [hi.name])
  case create_and_read =>
    refine (starts_openFile h (by decide) rfl).bind fun f f' hf => ?_
    refine (concur_withFile hf ?_).bind fun _ _ _ => ?_
    · exact parallel_requireAnswer (hf.write _)
    refine (parallel_openFile h (by decide)).bind fun g g' hg => concur_withFile hg ?_
    refine (parallel_require (by rw [hg.name])).bind fun _ _ _ => ?_
    exact parallel_requireAnswer (hg.read _)
  case create_overwrite =>
    refine (starts_put h (by decide)).bind fun _ _ _ => ?_
    exact (parallel_openFile h (by decide)).bind fun f f' hf => concur_writeThrough h (by decide) hf
  case create_with_existing_dir =>
    refine (starts_makeDirectory h (by decide)).bind fun _ _ _ => ?_
    exact parallel_expectFault sorts_isFilesystemError (h.openFile (by decide) _ _)

theorem carriesOver_opening : ∀ s ∈ opening, s.CarriesOver := by
  simp only [opening, List.forall_mem_cons]
  refine ⟨.of_passes fun h hm => ?open_not_exists,
    .of_starts fun h => ?open_read_only_rejects_write,
    .of_starts fun h => ?open_file_write_only_rejects_read, .of_starts fun h => ?open_file_append,
    .of_starts fun h => ?open_file_truncate, .of_starts fun h => ?open_file_exclusive,
    .of_starts fun h => ?open_file_read_write, .of_starts fun h => ?open_under_file,
    List.forall_mem_nil _⟩
  case open_not_exists => exact ⟨_, run_expectMissing (h.run_openRead_of_new hm (by decide))⟩
  case open_read_only_rejects_write =>
    refine (starts_put h (by decide)).bind fun _ _ _ => ?_
    refine (parallel_openFile h (by decide)).bind fun f f' hf => concur_withFile hf ?_
    exact parallel_expectFault (sorts_kind _) (hf.write _)
  case open_file_write_only_rejects_read =>
    refine (starts_openFile h (by decide) rfl).bind fun f f' hf => concur_withFile hf ?_
    exact parallel_expectFault (sorts_kind _) (hf.read _)
  case open_file_append =>
    refine (starts_put h (by decide)).bind fun _ _ _ => ?_
    exact (parallel_openFile h (by decide)).bind fun f f' hf => concur_writeThrough h (by decide) hf
  case open_file_truncate =>
    refine (starts_put h (by decide)).bind fun _ _ _ => ?_
    exact (parallel_openFile h (by decide)).bind fun f f' hf => concur_writeThrough h (by decide) hf
  case open_file_exclusive =>
    refine (starts_put h (by decide)).bind fun _ _ _ => ?_
    exact parallel_expectFault (sorts_kind _) (h.openFile (by decide) _ _)
  case open_file_read_write =>
    refine (starts_put h (by decide)).bind fun _ _ _ => ?_
    refine (parallel_openFile h (by decide)).bind fun f f' hf => ?_
    refine (concur_withFile hf ?_).bind fun _ _ _ => concur_requireContent h (by decide)
    refine (parallel_require (by rw [hf.name])).bind fun _ _ _ => ?_
    refine (concur_write hf _).bind fun _ _ _ => ?_
    refine (parallel_call (hf.seek _ _)).discard.bind fun _ _ _ => ?_
    exact parallel_requireAnswer (hf.read _)
  case open_under_file =>
    refine (starts_put h (by decide)).bind fun _ _ _ => ?_
    exact parallel_expectFault (sorts_kind _) (h.openFile (by decide) _ _)

theorem carriesOver_handles : ∀ s ∈ handles, s.CarriesOver := by
  simp only [handles, List.forall_mem_cons]
  refine ⟨.of_starts fun h => ?seek_and_read, .of_starts fun h => ?handles_are_independent,
    .of_starts fun h => ?open_handle_follows_rename,
    .of_starts fun h => ?open_handle_after_remove, List.forall_mem_nil _⟩
  case seek_and_read =>
    refine (starts_put h (by decide)).bind fun _ _ _ => ?_
    refine (parallel_openFile h (by decide)).bind fun f f' hf => concur_withFile hf ?_
    refine (parallel_call (hf.seek _ _)).bind fun _ _ ha => ?_
    refine (parallel_require (by rw [ha])).bind fun _ _ _ => ?_
    refine (parallel_call (hf.read _)).bind fun _ _ ha => ?_
    refine (parallel_require (by rw [ha])).bind fun _ _ _ => ?_
    refine (parallel_call hf.tell).bind fun _ _ ha => ?_
    refine (parallel_require (by rw [ha])).bind fun _ _ _ => ?_
    refine (parallel_call (hf.seek _ _)).discard.bind fun _ _ _ => ?_
    exact parallel_requireAnswer (hf.read _)
  case handles_are_independent =>
    refine (starts_openFile h (by decide) rfl).bind fun f f' hf => ?_
    refine (parallel_openFile h (by decide)).bind fun g g' hg => ?_
    refine (concur_close hf).bind fun _ _ _ => ?_
    refine (concur_write hg _).bind fun _ _ _ => ?_
    exact (concur_close hg).bind fun _ _ _ => concur_requireContent h (by decide)
  case open_handle_follows_rename =>
    refine (starts_openFile h (by decide) rfl).bind fun f f' hf => ?_
    refine (concur_write hf _).bind fun _ _ _ => ?_
    refine (parallel_call (h.rename (by decide) (by decide))).bind fun _ _ _ => ?_
    refine (concur_close hf).bind fun _ _ _ => ?_
    refine (concur_requireContent h (by decide)).bind fun _ _ _ => ?_
    exact concur_expectMissing_stat h (by decide)
  case open_handle_after_remove =>
    refine (starts_openFile h (by decide) rfl).bind fun f f' hf => ?_
    refine (concur_write hf _).bind fun _ _ _ => ?_
    refine (parallel_call (h.remove (by decide))).bind fun _ _ _ => ?_
    exact (concur_close hf).bind fun _ _ _ => concur_expectMissing_stat h (by decide)

theorem carriesOver_metadata : ∀ s ∈ metadata, s.CarriesOver := by
  simp only [metadata, List.forall_mem_cons]
  refine ⟨.of_starts fun h => ?stat_under_file, .of_starts fun h => ?stat,
    .of_starts fun h => ?stat_dir, .of_passes fun h hm => ?stat_non_existent,
    List.forall_mem_nil _⟩
  case stat_under_file =>
    refine (starts_put h (by decide)).bind fun _ _ _ => ?_
    exact parallel_expectFault (sorts_kind _) (h.stat (by decide))
  case stat =>
    refine (starts_put h (by decide)).bind fun _ _ _ => ?_
    refine (parallel_call (h.stat (by decide))).bind fun _ _ hi => ?_
    refine (parallel_require (by rw [hi.name])).bind fun _ _ _ => ?_
    refine (parallel_require (by rw [hi.size])).bind fun _ _ _ => ?_
    refine (parallel_require (by rw [hi.isDirectory])).bind fun _ _ _ => ?_
    exact parallel_require hi.dated
  case stat_dir =>
    refine (starts_put h (by decide)).bind fun _ _ _ => ?_
    refine (parallel_call (h.stat (by decide))).bind fun _ _ hi => ?_
    exact (parallel_require (by rw [hi.name])).bind fun _ _ _ => parallel_require hi.isDirectory
  case stat_non_existent => exact ⟨_, run_expectMissing (h.run_stat_of_new hm (by decide))⟩

theorem carriesOver_relocation : ∀ s ∈ relocation, s.CarriesOver := by
  simp only [relocation, List.forall_mem_cons]
  refine ⟨.of_starts fun h => ?rename, .of_starts fun h => ?rename_to_nested,
    .of_starts fun h => ?rename_dir, .of_starts fun h => ?rename_dir_onto_non_empty_dir,
    .of_starts fun h => ?rename_dir_onto_empty_dir, List.forall_mem_nil _⟩
  case rename =>
    refine (starts_put h (by decide)).bind fun _ _ _ => ?_
    refine (parallel_call (h.rename (by decide) (by decide))).bind fun _ _ _ => ?_
    refine (concur_expectMissing_stat h (by decide)).bind fun _ _ _ => ?_
    exact concur_requireContent h (by decide)
  case rename_to_nested =>
    refine (starts_put h (by decide)).bind fun _ _ _ => ?_
    refine (parallel_call (h.rename (by decide) (by decide))).bind fun _ _ _ => ?_
    exact concur_requireContent h (by decide)
  case rename_dir =>
    refine (starts_put h (by decide)).bind fun _ _ _ => ?_
    refine (parallel_call (h.rename (by decide) (by decide))).bind fun _ _ _ => ?_
    refine (concur_expectMissing_stat h (by decide)).bind fun _ _ _ => ?_
    exact concur_requireContent h (by decide)
  case rename_dir_onto_non_empty_dir =>
    refine (starts_put h (by decide)).bind fun _ _ _ => ?_
    refine (concur_put h (by decide)).bind fun _ _ _ => ?_
    refine (parallel_expectFault sorts_isFilesystemError
      (h.rename (by decide) (by decide))).bind fun _ _ _ => ?_
    refine (concur_requireContent h (by decide)).bind fun _ _ _ => ?_
    exact concur_requireContent h (by decide)
  case rename_dir_onto_empty_dir =>
    refine (starts_put h (by decide)).bind fun _ _ _ => ?_
    refine (concur_makeDirectory h (by decide)).bind fun _ _ _ => ?_
    refine (parallel_call (h.rename (by decide) (by decide))).bind fun _ _ _ => ?_
    exact concur_requireContent h (by decide)

theorem carriesOver_removal : ∀ s ∈ removal, s.CarriesOver := by
  simp only [removal, List.forall_mem_cons]
  refine ⟨.of_starts fun h => ?remove, .of_passes fun h hm => ?remove_non_existent,
    .of_starts fun h => ?remove_empty_dir, .of_starts fun h => ?remove_non_empty_dir,
    List.forall_mem_nil _⟩
  case remove =>
    refine (starts_put h (by decide)).bind fun _ _ _ => ?_
    refine (parallel_call (h.remove (by decide))).bind fun _ _ _ => ?_
    exact concur_expectMissing_stat h (by decide)
  case remove_non_existent => exact ⟨_, run_expectMissing (h.run_remove_of_new hm (by decide))⟩
  case remove_empty_dir =>
    refine (starts_makeDirectory h (by decide)).bind fun _ _ _ => ?_
    refine (parallel_call (h.remove (by decide))).bind fun _ _ _ => ?_
    exact concur_expectMissing_stat h (by decide)
  case remove_non_empty_dir =>
    refine (starts_put h (by decide)).bind fun _ _ _ => ?_
    refine (parallel_expectFault sorts_isFilesystemError (h.remove (by decide))).bind ?_
    exact fun _ _ _ => concur_requireContent h (by decide)

theorem carriesOver_joining : ∀ s ∈ joining, s.CarriesOver := by
  have hplain : Path.join ["foo", "bar"] = "foo/bar" := by decide
  have hslash : Path.join ["foo", "/bar"] = "foo/bar" := by decide
  have hup : Path.join ["foo", "bar", "..", "qux"] = "foo/qux" := by decide
  simp only [joining, List.forall_mem_cons]
  refine ⟨.of_passes fun {m fs w now} h hm => ?join, List.forall_mem_nil _⟩
  case join =>
    refine ⟨w, ?_⟩
    simp only [h.join_eq, hplain, hslash, hup, decide_true]
    rfl

/-! ## Scenarios on directories -/

theorem carriesOver_makingDirectories : ∀ s ∈ makingDirectories, s.CarriesOver := by
  simp only [makingDirectories, List.forall_mem_cons]
  refine ⟨.of_starts fun h => ?mkdir_all, .of_starts fun h => ?mkdir_all_nested,
    .of_starts fun h => ?mkdir_all_idempotent, .of_starts fun h => ?mkdir_all_over_file,
    List.forall_mem_nil _⟩
  case mkdir_all =>
    refine (starts_makeDirectory h (by decide)).bind fun _ _ _ => ?_
    exact concur_requireDirectory h (by decide)
  case mkdir_all_nested =>
    refine (starts_makeDirectory h (by decide)).bind fun _ _ _ => ?_
    refine (concur_requireDirectory h (by decide)).bind fun _ _ _ => ?_
    refine (concur_requireDirectory h (by decide)).bind fun _ _ _ => ?_
    exact concur_requireDirectory h (by decide)
  case mkdir_all_idempotent =>
    refine (starts_makeDirectory h (by decide)).bind fun _ _ _ => ?_
    refine (concur_makeDirectory h (by decide)).bind fun _ _ _ => ?_
    exact concur_requireDirectory h (by decide)
  case mkdir_all_over_file =>
    refine (starts_put h (by decide)).bind fun _ _ _ => ?_
    exact parallel_expectFault sorts_isFilesystemError (h.makeDirectories (by decide) _)

/-- Listings that are alike tell the same of their entries. -/
theorem map_eq_of_alike {γ : Type} {f : EntryInfo Host.Status → γ}
    {l l' : List (EntryInfo Host.Status)} (hf : ∀ i i', i.Alike i' → f i = f i')
    (h : List.Forall₂ EntryInfo.Alike l l') : l.map f = l'.map f := by
  have hmap : List.Forall₂ Eq (l.map f) (l'.map f) :=
    List.forall₂_map_left_iff.2 (List.forall₂_map_right_iff.2 (h.imp hf))
  rwa [List.forall₂_eq_eq_eq] at hmap

section

variable {m m' : Nat} {base : Key} {fs fs' : FileSystem} {path : String}
  (h : Abreast m m' base fs fs')
include h

/-- Empty files may be written one after another. -/
theorem starts_puts {names : List String} (hne : names ≠ [])
    (hnames : ∀ name ∈ names, Path.LeadsBelow name) :
    Starts m m' base (fun _ _ => True) (names.forM fun name => put fs name "")
      (names.forM fun name => put fs' name "") := by
  obtain ⟨name, rest, rfl⟩ := List.exists_cons_of_ne_nil hne
  rw [List.forall_mem_cons] at hnames
  exact (starts_put h hnames.1).bind fun _ _ _ =>
    .forM fun other hother => concur_put h (hnames.2 other hother)

theorem starts_putListed :
    Starts m m' base (fun _ _ => True) (putListed fs) (putListed fs') :=
  starts_puts h (by decide) (by decide)

theorem starts_removeWhole (hpath : Path.LeadsBelow path) :
    Starts m m' base (fun _ _ => True) (removeWhole path fs) (removeWhole path fs') := by
  refine (starts_puts h (by decide) (by decide)).bind fun _ _ _ => ?_
  refine (parallel_call (h.removeTree hpath)).bind fun _ _ _ => .forM fun name hname => ?_
  -- all files that were written are looked for
  have hnames : ∀ name ∈ treeFiles, Path.LeadsBelow name := by decide
  exact concur_expectMissing_stat h (hnames name hname)

end

theorem carriesOver_listing : ∀ s ∈ listing, s.CarriesOver := by
  simp only [listing, List.forall_mem_cons]
  refine ⟨.of_starts fun h => ?read_dir, .of_starts fun h => ?read_dir_entries,
    .of_starts fun h => ?read_dir_empty, .of_passes fun h hm => ?read_dir_non_existent,
    List.forall_mem_nil _⟩
  case read_dir =>
    refine (starts_putListed h).bind fun _ _ _ => ?_
    refine (parallel_call (h.list (by decide))).bind fun _ _ hl => ?_
    refine (parallel_require (by rw [hl.length_eq])).bind fun _ _ _ => ?_
    refine (parallel_call (h.list (by decide))).bind fun _ _ hl => ?_
    refine (parallel_require (by rw [hl.length_eq])).bind fun _ _ _ => ?_
    refine (parallel_call ((h.viewFrom (by decide)).list (by decide))).bind fun _ _ hl => ?_
    exact parallel_require (by rw [hl.length_eq])
  case read_dir_entries =>
    refine (starts_put h (by decide)).bind fun _ _ _ => ?_
    refine (concur_put h (by decide)).bind fun _ _ _ => ?_
    refine (parallel_call (h.list (by decide))).bind fun _ _ hl => ?_
    have hsizes := map_eq_of_alike (fun _ _ hi => hi.size) hl
    refine (parallel_require ?_).bind fun _ _ _ => (parallel_require ?_).bind fun _ _ _ =>
      parallel_require ?_
    · rw [map_eq_of_alike (fun _ _ hi => hi.name) hl]
    · rw [map_eq_of_alike (fun _ _ hi => hi.isDirectory) hl]
    · rw [← List.head?_map, hsizes, List.head?_map]
  case read_dir_empty =>
    refine (starts_makeDirectory h (by decide)).bind fun _ _ _ => ?_
    exact (parallel_call (h.list (by decide))).bind fun _ _ hl =>
      parallel_require (by cases hl <;> rfl)
  case read_dir_non_existent => exact ⟨_, run_expectMissing (h.run_list_of_new hm (by decide))⟩

theorem carriesOver_viewing : ∀ s ∈ viewing, s.CarriesOver := by
  simp only [viewing, List.forall_mem_cons]
  refine ⟨.of_starts fun h => ?dir_stat, .of_starts fun h => ?create_in_dir,
    .of_starts fun h => ?dir_nested, .of_passes fun {m fs w now} h hm => ?base,
    List.forall_mem_nil _⟩
  case dir_stat =>
    refine (starts_putListed h).bind fun _ _ _ => ?_
    refine (concur_expectMissing_stat h (by decide)).bind fun _ _ _ => ?_
    refine (parallel_call (h.stat (by decide))).bind fun _ _ hi => ?_
    refine (parallel_require (by rw [hi.name])).bind fun _ _ _ => ?_
    refine (parallel_require hi.isDirectory).bind fun _ _ _ => ?_
    refine .forM fun path hpath => ?_
    have hpaths : ∀ path ∈ ["baz", "/baz"], Path.LeadsBelow path := by decide
    refine (parallel_call ((h.viewFrom (by decide)).stat (hpaths path hpath))).bind fun _ _ hi => ?_
    refine (parallel_require (by rw [hi.name])).bind fun _ _ _ => ?_
    exact parallel_require (by rw [hi.isDirectory])
  case create_in_dir =>
    refine (starts_openFile (h.viewFrom (by decide)) (by decide) rfl).bind fun f f' hf => ?_
    refine (concur_close hf).bind fun _ _ _ => ?_
    refine (parallel_require (by rw [hf.name])).bind fun _ _ _ => ?_
    refine (parallel_openFile h (by decide)).bind fun g g' hg => ?_
    refine (parallel_require ?_).bind fun _ _ _ => concur_close hg
    rw [hg.name, h.seat.join_eq, h.seat'.join_eq]
  case dir_nested =>
    have houter : Path.climbs "a" = false := by decide
    have hinner : Path.climbs "b" = false := by decide
    have hview := (h.viewFrom houter).viewFrom hinner
    refine (starts_openFile hview (by decide) rfl).bind fun f f' hf => ?_
    exact concur_writeThrough h (by decide) hf
  case base =>
    have hbase : fs.base ≠ "" := by
      cases h with
      | memory =>
        change "/" ≠ ""
        decide
      | view hb =>
        rintro rfl
        cases hb
    exact ⟨w, run_require (decide_eq_true hbase) w⟩

theorem carriesOver_treeRemoval : ∀ s ∈ treeRemoval, s.CarriesOver := by
  simp only [treeRemoval, List.forall_mem_cons]
  refine ⟨.of_passes fun {m fs w now} h hm => ?remove_all_non_existent,
    .of_starts fun h => ?remove_all_empty_dir, .of_starts fun h => ?remove_all_foo,
    .of_starts fun h => ?remove_all_up, List.forall_mem_nil _⟩
  case remove_all_non_existent =>
    have hpath : Path.LeadsBelow "non-existent" := by decide
    obtain ⟨v, hv⟩ := h.exists_run_removeTree_of_new hm hpath
    exact ⟨v, run_call_ok hv⟩
  case remove_all_empty_dir =>
    refine (starts_makeDirectory h (by decide)).bind fun _ _ _ => ?_
    refine (parallel_call (h.removeTree (by decide))).bind fun _ _ _ => ?_
    exact concur_expectMissing_stat h (by decide)
  case remove_all_foo => exact starts_removeWhole h (by decide)
  case remove_all_up => exact starts_removeWhole h (by decide)

end RootedFS.Conformance
