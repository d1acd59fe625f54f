import RootedFS.Proofs.View.Beside
import RootedFS.Proofs.View.ReadBack

/-!
# Filesystems abreast

The plain filesystem in memory, or a view of it from an absolute base, is seated in its store: it
hands each call on to the store, with the path below its place. Two of them are abreast when the one
has its place below a key where the other has it below the top. With stores beside one another,
calls on them run in parallel as long as paths lead below the places.

## Main definitions

* `Path.LeadsBelow`: a path leads below the place that it is taken from
* `Seat`: the plain filesystem in memory on a store, or a view of it
* `Abreast`: one filesystem is seated below a key as the other is below its top

## Main results

* `Seat.exists_openFile`, `Seat.rename_eq`, ...: what calls are handed on as
* `Abreast.openFile`, `Abreast.rename`, ...: calls on filesystems abreast run in parallel
* `Abreast.viewFrom`: views that they give are abreast
-/

namespace RootedFS

open Memory World Tree

/-- The path leads below the place that it is taken from. -/
def Path.LeadsBelow (path : String) : Prop :=
  Path.climbs path = false ∧ Key.resolve path ≠ []

instance (path : String) : Decidable (Path.LeadsBelow path) :=
  inferInstanceAs (Decidable (_ ∧ _))

theorem EntryInfo.Alike.of_origin {σ : Type} {i i' : EntryInfo σ} (hname : i.name = i'.name)
    (h : i.origin.Alike i'.origin) : i.Alike i' :=
  ⟨hname, h.size, h.mode, h.dated⟩

theorem EntryInfo.Alike.isDirectory {σ : Type} {i i' : EntryInfo σ} (h : i.Alike i') :
    i.isDirectory = i'.isDirectory :=
  congrArg Mode.isDirectory h.mode

namespace FileSystem

variable {m m' : Nat} {base : Key} {fs fs' : FileSystem} {path target : String} {flags : OpenFlags}
  {perm : Int}

/-! ## Seats -/

/-- The plain filesystem in memory on a store, or a view of it from an absolute base. -/
inductive Seat (m : Nat) : FileSystem → Prop
  | memory : Seat m (.memory m .plain)
  | view {b : String} (hb : Path.isAbsolute b = true) : Seat m (.view (.memory m .plain) b)

namespace Seat

variable (h : Seat m fs)
include h

theorem resolve_reach (hpath : Path.climbs path = false) :
    Key.resolve (fs.reach path) = fs.place ++ Key.resolve path := by
  cases h with
  | memory => rfl
  | view hb => exact Path.resolve_join_of_not_climbs _ hpath

theorem resolve_reach_ne_nil (hpath : Path.LeadsBelow path) : Key.resolve (fs.reach path) ≠ [] := by
  rw [h.resolve_reach hpath.1]
  simp [hpath.2]

theorem sees (hpath : Path.climbs path = false) : Sees m fs path (fs.reach path) := by
  cases h with
  | memory => exact .store path
  | view hb => exact .view _ hpath

theorem viewFrom (path : String) : Seat m (fs.viewFrom path) := by
  cases h with
  | memory =>
    have habs : Path.isAbsolute "/" = true := rfl
    exact .view (Path.isAbsolute_join habs [path])
  | view hb => exact .view (Path.isAbsolute_join hb [path])

theorem place_viewFrom (hpath : Path.climbs path = false) :
    (fs.viewFrom path).place = fs.place ++ Key.resolve path := by
  cases h with
  | memory =>
    have htop : Key.resolve "/" = [] := by decide
    change [] ++ Key.resolve (Path.join ["/", path]) = [] ++ Key.resolve path
    rw [Path.resolve_join_of_not_climbs _ hpath, htop]
    rfl
  | @view b hb =>
    change [] ++ Key.resolve (Path.join [b, path]) = [] ++ Key.resolve b ++ Key.resolve path
    rw [Path.resolve_join_of_not_climbs _ hpath]
    rfl

theorem join_eq (l : List String) : fs.join l = Path.join l := by
  cases h <;> rfl

/-- The handle that is given out has the name that was asked for. -/
theorem exists_openFile (path : String) (flags : OpenFlags) (perm : Int) :
    ∃ g : Nat → File, (∀ id, (g id).name = path ∧ ∃ n, (g id).inmost = .memory m id n) ∧
      fs.openFile path flags perm =
        g <$> onStore m (Memory.openFile (fs.reach path) flags perm) := by
  cases h with
  | memory =>
    refine ⟨fun id => .memory m id path, fun id => ⟨rfl, path, rfl⟩, ?_⟩
    simp [openFile, Variant.openFile, map_onStore, reach]
  | @view b hb =>
    refine ⟨fun id => .renamed path (.memory m id (Path.join [b, path])),
      fun id => ⟨rfl, _, rfl⟩, ?_⟩
    simp [openFile, Variant.openFile, map_onStore, reach, translate, join, Variant.join]

/-- The handle on a temporary file has the name of the candidate that was taken. -/
theorem exists_createTemp (directory : String) {lead : String} (hlead : '/' ∉ lead.toList) :
    ∃ g : Nat × String → File, (∀ id number,
        (g (id, candidate (fs.reach directory) lead number)).name =
          candidate directory lead number ∧
        ∃ n, (g (id, candidate (fs.reach directory) lead number)).inmost = .memory m id n) ∧
      fs.createTemp directory lead =
        g <$> onStore m (Memory.createTemp (fs.reach directory) lead) := by
  cases h with
  | memory =>
    refine ⟨fun a => .memory m a.1 a.2, fun id number => ⟨rfl, _, rfl⟩, ?_⟩
    simp [createTemp, Variant.createTemp, reach]
  | @view b hb =>
    refine ⟨fun a => .renamed (Path.join [directory, Path.baseName a.2]) (.memory m a.1 a.2),
      fun id number => ⟨join_baseName_candidate directory _ hlead number, _, rfl⟩, ?_⟩
    simp [createTemp, Variant.createTemp, reach, translate, join, Variant.join, File.name]

theorem makeDirectories_eq (path : String) (perm : Int) :
    fs.makeDirectories path perm = onStore m (Memory.makeDirectories (fs.reach path) perm) := by
  cases h <;> rfl

theorem rename_eq (path target : String) :
    fs.rename path target = onStore m (Memory.rename (fs.reach path) (fs.reach target)) := by
  cases h <;> rfl

theorem remove_eq (path : String) :
    fs.remove path = onStore m (Memory.remove (fs.reach path)) := by
  cases h <;> rfl

/-- The metadata is the store's; below the top it has the name of the key. -/
theorem exists_stat (hpath : Path.LeadsBelow path) :
    ∃ g : FileInfo Host.Status → EntryInfo Host.Status, (∀ i, (g i).origin = i ∧
        (i.name = (Key.resolve (fs.reach path)).name → (g i).name = (Key.resolve path).name)) ∧
      fs.stat path = g <$> onStore m (Memory.stat (fs.reach path)) := by
  cases h with
  | memory =>
    refine ⟨.plain, fun i => ⟨rfl, id⟩, ?_⟩
    simp [stat, Variant.stat, map_onStore, reach]
  | @view b hb =>
    have hname := Mirror.baseName_join hb hpath.1 hpath.2
    refine ⟨fun i => .renamed (Path.baseName (Path.join [b, path])) (.plain i),
      fun i => ⟨rfl, fun _ => hname⟩, ?_⟩
    simp [stat, Variant.stat, map_onStore, reach, translate, join, Variant.join]

/-- A listing is the store's, with its names. -/
theorem exists_list (path : String) :
    ∃ g : FileInfo Host.Status → EntryInfo Host.Status, (∀ i, (g i).origin = i ∧
        ('/' ∉ i.name.toList → (g i).name = i.name)) ∧
      fs.list path = List.map g <$> onStore m (Memory.list (fs.reach path)) := by
  cases h with
  | memory =>
    refine ⟨.plain, fun i => ⟨rfl, fun _ => rfl⟩, ?_⟩
    simp [list, Variant.list, map_onStore, reach]
  | @view b hb =>
    refine ⟨fun i => .renamed (Path.stripLead i.name (Path.join [b, path])) (.plain i),
      fun i => ⟨rfl, fun hi => Path.stripLead_of_absolute hi (Path.isAbsolute_join hb [path])⟩, ?_⟩
    simp [list, Variant.list, map_onStore, reach, translate, join, Variant.join]
    rfl

/-- No name is lost that a listing tells. -/
theorem keeps {s : Store} (hs : s.Sound) (path : String) :
    fs = .memory m .plain ∨ fs.reach path ∉ s.children (Key.resolve (fs.reach path)) := by
  cases h with
  | memory => exact .inl rfl
  | @view b hb =>
    refine .inr fun hmem => ?_
    have hname : Path.IsName (Path.join [b, path]) :=
      hs.tree.names _ (isSome_of_mem_children hs hmem) _
        (by simp [reach, translate, join, Variant.join])
    have habs := Path.isAbsolute_join hb [path]
    rw [hname.isAbsolute] at habs
    cases habs

theorem readContent_eq (path : String) :
    fs.readContent path = (FileSystem.memory m .plain).readContent (fs.reach path) := by
  cases h with
  | memory => rfl
  | view hb => exact readContent_view _ _ path

end Seat

/-! ## Calls on filesystems abreast -/

/-- Two filesystems in memory, or views of such, of which the one is seated below a key as the other
is below its top. -/
structure Abreast (m m' : Nat) (base : Key) (fs fs' : FileSystem) : Prop where
  seat : Seat m fs
  seat' : Seat m' fs'
  place : fs.place = base ++ fs'.place

namespace Abreast

variable (h : Abreast m m' base fs fs')
include h

theorem resolve_reach (hpath : Path.climbs path = false) :
    Key.resolve (fs.reach path) = base ++ Key.resolve (fs'.reach path) := by
  rw [h.seat.resolve_reach hpath, h.seat'.resolve_reach hpath, h.place, List.append_assoc]

theorem viewFrom (hpath : Path.climbs path = false) :
    Abreast m m' base (fs.viewFrom path) (fs'.viewFrom path) where
  seat := h.seat.viewFrom path
  seat' := h.seat'.viewFrom path
  place := by
    rw [h.seat.place_viewFrom hpath, h.seat'.place_viewFrom hpath, h.place, List.append_assoc]

theorem openFile (hpath : Path.LeadsBelow path) (flags : OpenFlags) (perm : Int) :
    Parallel Fault.Alike (World.Beside m m' base) (File.Beside m m')
      (fs.openFile path flags perm) (fs'.openFile path flags perm) := by
  obtain ⟨g, hg, heq⟩ := h.seat.exists_openFile path flags perm
  obtain ⟨g', hg', heq'⟩ := h.seat'.exists_openFile path flags perm
  rw [heq, heq']
  have hopen := parallel_openFile (h.resolve_reach hpath.1) (h.seat'.resolve_reach_ne_nil hpath)
    flags perm
  refine hopen.onStore.map ?_
  rintro id _ rfl
  obtain ⟨hname, n, hinmost⟩ := hg id
  obtain ⟨hname', n', hinmost'⟩ := hg' id
  exact ⟨hname.trans hname'.symm, id, n, n', hinmost, hinmost'⟩

theorem makeDirectories (hpath : Path.climbs path = false) (perm : Int) :
    Parallel Fault.Alike (World.Beside m m' base) Eq (fs.makeDirectories path perm)
      (fs'.makeDirectories path perm) := by
  rw [h.seat.makeDirectories_eq, h.seat'.makeDirectories_eq]
  exact (parallel_makeDirectories (h.resolve_reach hpath) perm).onStore

theorem rename (hpath : Path.LeadsBelow path) (htarget : Path.LeadsBelow target) :
    Parallel Fault.Alike (World.Beside m m' base) Eq (fs.rename path target)
      (fs'.rename path target) := by
  rw [h.seat.rename_eq, h.seat'.rename_eq]
  exact (parallel_rename (h.resolve_reach hpath.1) (h.seat'.resolve_reach_ne_nil hpath)
    (h.resolve_reach htarget.1) (h.seat'.resolve_reach_ne_nil htarget)).onStore

theorem remove (hpath : Path.LeadsBelow path) :
    Parallel Fault.Alike (World.Beside m m' base) Eq (fs.remove path) (fs'.remove path) := by
  rw [h.seat.remove_eq, h.seat'.remove_eq]
  exact (parallel_remove (h.resolve_reach hpath.1) (h.seat'.resolve_reach_ne_nil hpath)).onStore

theorem stat (hpath : Path.LeadsBelow path) :
    Parallel Fault.Alike (World.Beside m m' base) EntryInfo.Alike (fs.stat path)
      (fs'.stat path) := by
  obtain ⟨g, hg, heq⟩ := h.seat.exists_stat hpath
  obtain ⟨g', hg', heq'⟩ := h.seat'.exists_stat hpath
  rw [heq, heq']
  have hstat := parallel_stat (σ := Host.Status) (h.resolve_reach hpath.1)
    (h.seat'.resolve_reach_ne_nil hpath)
  refine hstat.onStore.map ?_
  rintro i i' ⟨halike, hname⟩
  obtain ⟨horigin, hi⟩ := hg i
  obtain ⟨horigin', hi'⟩ := hg' i'
  have hkey : (Key.resolve (fs.reach path)).name = (Key.resolve (fs'.reach path)).name := by
    rw [h.resolve_reach hpath.1, Key.name_append (h.seat'.resolve_reach_ne_nil hpath)]
  have hpathName := hi (halike.name.trans (hname.trans hkey.symm))
  exact .of_origin (hpathName.trans (hi' hname).symm) (by rwa [horigin, horigin'])

theorem list (hpath : Path.climbs path = false) :
    Parallel Fault.Alike (World.Beside m m' base) (List.Forall₂ EntryInfo.Alike) (fs.list path)
      (fs'.list path) := by
  obtain ⟨g, hg, heq⟩ := h.seat.exists_list path
  obtain ⟨g', hg', heq'⟩ := h.seat'.exists_list path
  rw [heq, heq']
  refine (parallel_list (σ := Host.Status) (h.resolve_reach hpath)).onStore.map ?_
  intro l l' hl
  refine List.forall₂_map_left_iff.2 (List.forall₂_map_right_iff.2 (hl.imp ?_))
  rintro i i' ⟨hslash, halike⟩
  obtain ⟨horigin, hi⟩ := hg i
  obtain ⟨horigin', hi'⟩ := hg' i'
  refine .of_origin ?_ (by rwa [horigin, horigin'])
  rw [hi hslash, hi' (halike.name ▸ hslash), halike.name]

/-! ### Whole files and whole trees -/

theorem writeContent (hpath : Path.LeadsBelow path) (data : Bytes) (perm : Int) :
    Parallel Fault.Alike (World.Beside m m' base) (fun _ _ => True)
      (fs.writeContent path data perm) (fs'.writeContent path data perm) :=
  (h.openFile hpath _ perm).bind fun _ _ hf => hf.closing (hf.write data).discard

theorem readContent (hpath : Path.LeadsBelow path) :
    Parallel Fault.Alike (World.Beside m m' base) Eq (fs.readContent path)
      (fs'.readContent path) :=
  (h.openFile hpath _ 0).bind fun _ _ hf => hf.closing (hf.read _)

theorem removeTree (hpath : Path.LeadsBelow path) :
    Parallel Fault.Alike (World.Beside m m' base) Eq (fs.removeTree path)
      (fs'.removeTree path) := by
  rintro w w' ⟨s, s', hm, hm', hd⟩
  have hkey := h.resolve_reach hpath.1
  have hne := h.seat'.resolve_reach_ne_nil hpath
  have hne' := h.seat.resolve_reach_ne_nil hpath
  have hrun := (h.seat.sees hpath.1).removeTree hm hd.sound hne' (h.seat.keeps hd.sound path)
  have hrun' := (h.seat'.sees hpath.1).removeTree hm' hd.sound' hne (h.seat'.keeps hd.sound' path)
  exact (World.Beside.removal hm hm' hd hkey hne).of_hush hrun hrun'

end Abreast

end FileSystem

end RootedFS
