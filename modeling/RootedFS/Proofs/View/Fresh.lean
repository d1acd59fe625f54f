import RootedFS.Proofs.View.Abreast

/-!
# Views of a store just made

A view may be based on a directory that is not there. In a store that has just been made, the first
call that makes something through the view makes that directory too, so that it comes to the same
as if the directory had been made before. Then the view's part of the store is another store that
has just been made.

## Main definitions

* `World.WithDirectory`: worlds that differ in nothing but a directory of a store just made
* `Begins`: a computation that does not depend on whether the directory is there yet

## Main results

* `FileSystem.Abreast.begins_openFile`, `FileSystem.Abreast.begins_makeDirectories`: making
  something does not
* `World.WithDirectory.beside`: with the directory, the store is beside another one just made
* `FileSystem.Seat.run_stat_of_new`, ...: nothing is found in a store just made
-/

namespace RootedFS

open Memory World Tree

namespace Memory

variable {d d' : Disk} {base k : Key} {path : String} {now now' : Nat}

/-! ## Stores just made -/

theorem Store.missing_empty (now : Nat) (k : Key) : (Store.empty now).missing k = .missing := by
  have hfile : ∀ j, (Store.empty now).hasFile j = false := fun _ => rfl
  rw [Store.missing, if_neg]
  simp [hfile]

section

variable (hd : d.store = .empty now)
include hd

theorem sound_of_new : d.store.Sound :=
  hd ▸ Store.sound_empty now

theorem get?_of_new (hk : k ≠ []) : d.store.tree.get? k = none := by
  rw [hd, Store.get?_tree_empty, if_neg hk]

theorem not_isFile_of_new (k : Key) : ¬d.store.tree.IsFile k :=
  hd ▸ Store.not_isFile_empty now k

theorem sound_withDirectory (hnames : ∀ a ∈ base, Path.IsName a) :
    (d.withDirectory base).store.Sound :=
  Disk.sound_addDirectories (sound_of_new hd) hnames (fun j _ => not_isFile_of_new hd j) defaultPerm

theorem not_isFile_withDirectory (k : Key) : ¬(d.withDirectory base).store.tree.IsFile k := by
  rw [Disk.withDirectory, Disk.isFile_addDirectories defaultPerm (sound_of_new hd).inStep]
  exact not_isFile_of_new hd k

theorem get?_withDirectory_append (hk : k ≠ []) :
    (d.withDirectory base).store.tree.get? (base ++ k) = none := by
  rw [Disk.withDirectory,
    Disk.get?_addDirectories_of_not_mem defaultPerm (sound_of_new hd).inStep]
  · exact get?_of_new hd (by simp [hk])
  · intro hmem
    have hlength := (Key.mem_steps.1 hmem).2.length_le
    have hpos := List.length_pos_of_ne_nil hk
    rw [List.length_append] at hlength
    omega

/-- Making a directory below one makes that one too. -/
theorem makeDirectories_withDirectory (hnames : ∀ a ∈ base, Path.IsName a)
    (hkey : Key.resolve path = base ++ k) :
    (makeDirectories path defaultPerm).run (d.withDirectory base) =
      (makeDirectories path defaultPerm).run d := by
  have hmade : DirectoriesOutcome d (Key.resolve path) defaultPerm _ :=
    .made fun j _ => not_isFile_of_new hd j
  have hmade' : DirectoriesOutcome (d.withDirectory base) (Key.resolve path) defaultPerm _ :=
    .made fun j _ => not_isFile_withDirectory hd j
  have hrun := hmade.run (sound_of_new hd)
  have hrun' := hmade'.run (sound_withDirectory hd hnames)
  -- the directories on the first part of the way are made on the whole way too
  rw [hkey, Disk.withDirectory, Disk.addDirectories_steps_append (sound_of_new hd).inStep,
    ← hkey] at hrun'
  exact hrun'.trans hrun.symm

/-- Making a file below a directory makes that directory too. -/
theorem openFile_withDirectory {flags : OpenFlags} (hnames : ∀ a ∈ base, Path.IsName a)
    (hkey : Key.resolve path = base ++ k) (hk : k ≠ []) (hc : flags.create = true) (perm : Int) :
    (openFile path flags perm).run (d.withDirectory base) = (openFile path flags perm).run d := by
  have hnone : d.store.tree.get? (Key.resolve path) = none :=
    get?_of_new hd (by simp [hkey, hk])
  have hnone' : (d.withDirectory base).store.tree.get? (Key.resolve path) = none :=
    hkey ▸ get?_withDirectory_append hd hk
  have hmade : OpenOutcome d (Key.resolve path) path flags perm _ :=
    .made hnone hc fun j _ => not_isFile_of_new hd j
  have hmade' : OpenOutcome (d.withDirectory base) (Key.resolve path) path flags perm _ :=
    .made hnone' hc fun j _ => not_isFile_withDirectory hd j
  have hrun := hmade.run (sound_of_new hd)
  have hrun' := hmade'.run (sound_withDirectory hd hnames)
  have hparent : (Key.resolve path).parent = base ++ k.parent := by
    rw [hkey, Key.parent_append hk]
  rw [hparent] at hrun hrun'
  rw [Disk.withDirectory, Disk.addDirectories_steps_append (sound_of_new hd).inStep,
    Disk.addDirectories_handles] at hrun'
  exact hrun'.trans hrun.symm

/-- Once the directory is there, the store is beside another one just made. -/
theorem beside_withDirectory (hd' : d'.store = .empty now') (hnames : ∀ a ∈ base, Path.IsName a) :
    (d.withDirectory base).Beside base d' := by
  have hs := sound_withDirectory hd hnames
  obtain ⟨mode, modified, hself⟩ := Disk.isDirectory_addDirectories_self (sound_of_new hd).inStep
    (sound_of_new hd).tree (fun j _ => not_isFile_of_new hd j) defaultPerm (k := base)
  have htree : Subtree base mode (Mode.directory + 0o755) (d.withDirectory base).store.tree
      d'.store.tree := by
    refine ⟨⟨modified, hself⟩, ⟨now', ?_⟩, ?_⟩
    · rw [hd', Store.get?_tree_empty, if_pos rfl]
    · intro k hk
      rw [get?_withDirectory_append hd hk, get?_of_new hd' hk]
  have hnone : (d.withDirectory base).store.handles = [] := by
    rw [Disk.withDirectory, Disk.addDirectories_handles, hd]
    rfl
  have hnone' : d'.store.handles = [] := by
    rw [hd']
    rfl
  refine ⟨mode, Mode.directory + 0o755, [],
    ⟨hs, sound_of_new hd', rfl, htree, ?_, .nil, .nil⟩, ?_, ?_⟩
  · simp
  · rw [hnone, hnone']
  · simp [hnone]

end

end Memory

/-! ## Worlds with and without the directory -/

/-- In the one world a store has just been made, and in the other the directory at a key has been
made in it besides. -/
def World.WithDirectory (m : Nat) (base : Key) (w v : World) : Prop :=
  ∃ now, w.stores[m]? = some (.empty now) ∧
    v = w.putDisk m ((w.disk (.empty now)).withDirectory base)

/-- A computation comes to the same whether or not the directory at a key is there, in a store just
made. -/
def Begins {ε α : Type} (m : Nat) (base : Key) (x : EStateM ε World α) : Prop :=
  ∀ w v, World.WithDirectory m base w v → x.run v = x.run w

section

variable {ε α β : Type} {m m' now now' : Nat} {base : Key} {w w' v : World} {s : Store}

theorem World.WithDirectory.beside (h : World.WithDirectory m base w v)
    (hnames : ∀ a ∈ base, Path.IsName a) (hm' : w'.stores[m']? = some (.empty now')) :
    World.Beside m m' base v w' := by
  obtain ⟨now, hm, rfl⟩ := h
  have hbeside : ((w.disk (.empty now)).withDirectory base).Beside base (w'.disk (.empty now')) :=
    beside_withDirectory rfl rfl hnames
  exact ⟨_, _, World.stores_putDisk hm _, hm', hbeside⟩

/-- What finds nothing at a key of a store just made fails for that reason. -/
theorem run_map_onStore_of_new {x : MemoryM α} {k : Key} {path : String}
    (hm : w.stores[m]? = some (.empty now)) (g : α → β)
    (hrun : x.run (w.disk (.empty now)) =
      .error (.onPath ((Store.empty now).missing k) path) (w.disk (.empty now))) :
    (g <$> World.onStore m x).run w = .error (.onPath .missing path) w := by
  rw [map_onStore, run_onStore hm, hrun, World.lift, World.putDisk_disk hm, Store.missing_empty]

namespace Begins

/-- It is the first step that depends on nothing. -/
theorem bind {x : EStateM ε World α} (h : Begins m base x) (f : α → EStateM ε World β) :
    Begins m base (x >>= f) := by
  intro w v hv
  rw [EStateM.run_bind, EStateM.run_bind, h w v hv]

theorem map {x : EStateM ε World α} (h : Begins m base x) (g : α → β) :
    Begins m base (g <$> x) := by
  rw [map_eq_pure_bind]
  exact h.bind _

theorem onStore {x : MemoryM α}
    (h : ∀ d now, d.store = .empty now → x.run (d.withDirectory base) = x.run d) :
    Begins m base (World.onStore m x) := by
  rintro w v ⟨now, hm, rfl⟩
  have hm' := World.stores_putDisk hm ((w.disk (.empty now)).withDirectory base)
  rw [run_onStore_id hm, run_onStore_id hm']
  have hdisk : ∀ d : Disk, (w.putDisk m d).disk d.store = d := fun _ => rfl
  rw [hdisk, h _ now rfl]
  cases x.run (w.disk (.empty now)) with
  | ok a d => exact congrArg (EStateM.Result.ok a) (World.putDisk_putDisk ..)
  | error f d => exact congrArg (EStateM.Result.error f) (World.putDisk_putDisk ..)

end Begins

end

namespace FileSystem

variable {m m' : Nat} {base : Key} {fs fs' : FileSystem} {path : String} {flags : OpenFlags}
  {perm : Int}

namespace Abreast

section

variable (h : Abreast m m' base fs fs')
include h

theorem isName_base : ∀ a ∈ base, Path.IsName a := by
  intro a ha
  have hplace : a ∈ fs.place := h.place ▸ List.mem_append_left _ ha
  cases h.seat with
  | memory => cases hplace
  | @view b hb => exact Path.isName_resolve b a hplace

theorem begins_openFile (hpath : Path.LeadsBelow path) (hc : flags.create = true) (perm : Int) :
    Begins m base (fs.openFile path flags perm) := by
  obtain ⟨g, -, heq⟩ := h.seat.exists_openFile path flags perm
  rw [heq]
  have hkey := h.resolve_reach hpath.1
  have hne := h.seat'.resolve_reach_ne_nil hpath
  exact (Begins.onStore fun d now hd =>
    openFile_withDirectory hd h.isName_base hkey hne hc perm).map g

theorem begins_makeDirectories (hpath : Path.climbs path = false) :
    Begins m base (fs.makeDirectories path defaultPerm) := by
  rw [h.seat.makeDirectories_eq]
  exact .onStore fun d now hd =>
    makeDirectories_withDirectory hd h.isName_base (h.resolve_reach hpath)

theorem begins_writeContent (hpath : Path.LeadsBelow path) (data : Bytes) (perm : Int) :
    Begins m base (fs.writeContent path data perm) :=
  (h.begins_openFile hpath rfl perm).bind _

end

end Abreast

/-! ## Nothing is there -/

namespace Seat

variable {w : World} {now : Nat}

section

variable (h : Seat m fs) (hpath : Path.LeadsBelow path)
include h hpath

theorem get?_reach_empty : (Store.empty now).tree.get? (Key.resolve (fs.reach path)) = none := by
  rw [Store.get?_tree_empty, if_neg (h.resolve_reach_ne_nil hpath)]

end

section

variable (h : Seat m fs) (hm : w.stores[m]? = some (.empty now)) (hpath : Path.LeadsBelow path)
include h hm hpath

theorem run_openRead_of_new :
    (fs.openRead path).run w = .error (.onPath .missing (fs.reach path)) w := by
  obtain ⟨g, -, heq⟩ := h.exists_openFile path .reading 0
  have hopen : OpenOutcome (w.disk (.empty now)) _ (fs.reach path) .reading 0 _ :=
    .missing (h.get?_reach_empty hpath) rfl
  rw [openRead, heq]
  exact run_map_onStore_of_new hm g (hopen.run (Store.sound_empty now))

theorem run_stat_of_new :
    (fs.stat path).run w = .error (.onPath .missing (fs.reach path)) w := by
  obtain ⟨g, -, heq⟩ := h.exists_stat hpath
  have hstat : StatOutcome (σ := Host.Status) (w.disk (.empty now)) _ (fs.reach path) _ :=
    .missing (h.get?_reach_empty hpath)
  rw [heq]
  exact run_map_onStore_of_new hm g (hstat.run (Store.sound_empty now))

theorem run_list_of_new :
    (fs.list path).run w = .error (.onPath .missing (fs.reach path)) w := by
  obtain ⟨g, -, heq⟩ := h.exists_list path
  have hlist : ListOutcome (σ := Host.Status) (w.disk (.empty now)) _ (fs.reach path) _ :=
    .missing (h.get?_reach_empty hpath)
  rw [heq]
  exact run_map_onStore_of_new hm (List.map g) (hlist.run (Store.sound_empty now))

theorem run_remove_of_new :
    (fs.remove path).run w = .error (.onPath .missing (fs.reach path)) w := by
  have hremove : RemoveOutcome (w.disk (.empty now)) _ (fs.reach path) _ :=
    .missing (h.get?_reach_empty hpath)
  rw [h.remove_eq, ← id_map (onStore m _)]
  exact run_map_onStore_of_new hm id (hremove.run (Store.sound_empty now))

/-- Removing a tree does nothing where nothing is. -/
theorem exists_run_removeTree_of_new : ∃ w', (fs.removeTree path).run w = .ok () w' := by
  have hs := Store.sound_empty now
  have hnone : (Store.empty now).tree.get? (Key.resolve (fs.reach path)) = none :=
    h.get?_reach_empty hpath
  have hrun := (h.sees hpath.1).removeTree hm hs (h.resolve_reach_ne_nil hpath) (h.keeps hs path)
  rw [World.removal, if_neg (by simp [hnone]), if_pos (Store.missing_empty now _)] at hrun
  exact World.exists_ok_of_hush hrun

end

end Seat

end FileSystem

end RootedFS
