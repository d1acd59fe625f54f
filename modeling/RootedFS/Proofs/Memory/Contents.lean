import RootedFS.Proofs.Contents
import RootedFS.Proofs.Memory.Sound
import RootedFS.Proofs.Memory.Use
import RootedFS.Proofs.Session

/-!
# The filesystem in memory does what its contents say

The contents of a store are told by its tree. Every request on the filesystem in memory comes to
what they say of it.

## Main definitions

* `Memory.Store.items`: the contents of a store
* `Memory.Holds`: the filesystem in memory on a store has some contents

## Main results

* `Memory.Store.Sound.items`: the contents of a sound store are sound
* `Memory.Holds.outcome`: a request on the filesystem in memory comes to what the contents say
-/

namespace RootedFS.Memory

open Tree World

/-- What an entry of a store is. -/
def Entry.item : Entry → Item
  | file content _ _ => .file content
  | directory _ _ => .directory

namespace Store

/-- The contents of a store. -/
def items (s : Store) : Contents := fun k =>
  (s.tree.get? k).map Entry.item

variable {s s' : Store} {j k : Key}

theorem items_of_get? {e : Entry} (h : s.tree.get? k = some e) : s.items k = some e.item := by
  rw [items, h]
  rfl

theorem items_eq_none_iff : s.items k = none ↔ s.tree.get? k = none :=
  Option.map_eq_none_iff

theorem hasFile_items : s.items.HasFile k ↔ s.tree.IsFile k := by
  constructor
  · rintro ⟨content, h⟩
    obtain ⟨e, he, hitem⟩ := Option.map_eq_some_iff.1 h
    cases e with
    | file content mode modified => exact isFile_of_get? he
    | directory mode modified => cases hitem
  · rintro ⟨content, mode, modified, h⟩
    exact ⟨content, items_of_get? h⟩

theorem items_eq_directory_iff : s.items k = some .directory ↔ s.tree.IsDirectory k := by
  constructor
  · intro h
    obtain ⟨e, he, hitem⟩ := Option.map_eq_some_iff.1 h
    cases e with
    | file content mode modified => cases hitem
    | directory mode modified => exact isDirectory_of_get? he
  · rintro ⟨mode, modified, h⟩
    exact items_of_get? h

theorem clear_items : s.items.Clear k ↔ ∀ j ∈ k.steps, ¬s.tree.IsFile j :=
  forall₂_congr fun _ _ => not_congr hasFile_items

theorem bare_items (hs : s.InStep) : s.items.Bare k ↔ s.children k = [] := by
  rw [hs.children_eq_nil_iff]
  exact forall₂_congr fun _ _ => items_eq_none_iff

/-- The contents of a sound store are sound. -/
theorem Sound.items (hs : s.Sound) : s.items.Sound where
  top := items_eq_directory_iff.2 hs.tree.root
  closed := by
    intro k a h
    rw [ne_eq, items_eq_none_iff, ← ne_eq, Option.ne_none_iff_isSome] at h
    exact items_eq_directory_iff.2 (hs.tree.closed k a h)
  names := by
    intro k h
    rw [ne_eq, items_eq_none_iff, ← ne_eq, Option.ne_none_iff_isSome] at h
    exact hs.tree.names k h
  not_link := by
    intro k target h
    obtain ⟨e, -, hitem⟩ := Option.map_eq_some_iff.1 h
    cases e <;> cases hitem

/-! ## Contents after changes -/

theorem items_moved {src dst : Key} (h : Moved s s' src dst) :
    s'.items = s.items.move src dst := by
  funext j
  rw [Contents.move, items]
  cases hj : Key.below? dst j with
  | some rest =>
    obtain rfl := Key.below?_eq_some_iff.1 hj
    rw [h.target]
    rfl
  | none =>
    rw [h.other j (Key.within_eq_false_iff.2 hj)]
    dsimp only
    split <;> rfl

theorem items_erase (h : ∀ j, s'.tree.get? j = if j = k then none else s.tree.get? j) :
    s'.items = s.items.erase k := by
  funext j
  rw [items, h, Contents.erase]
  split <;> rfl

end Store

namespace Disk

variable {d : Disk} {k : Key}

@[simp] theorem items_mapHandles (d : Disk) (f : Handle → Handle) :
    (d.mapHandles f).store.items = d.store.items := rfl

@[simp] theorem items_addHandle (d : Disk) (h : Handle) :
    (d.addHandle h).store.items = d.store.items := rfl

theorem items_putFile (d : Disk) (k : Key) (content : Bytes) (mode : Nat) :
    (d.putFile k content mode).store.items = d.store.items.put k (.file content) := by
  funext j
  rw [Store.items, get?_putFile, Contents.put]
  split <;> rfl

theorem items_addDirectories (hs : d.store.InStep) (perm : Int) (k : Key) :
    (d.addDirectories perm k.steps).store.items = d.store.items.makeWay k := by
  funext j
  rw [Contents.makeWay_apply, Store.items]
  by_cases hnone : d.store.tree.get? j = none
  · by_cases hj : j ∈ k.steps
    · obtain ⟨now, hnow⟩ := get?_addDirectories_of_mem perm hs hj hnone
      rw [hnow, if_pos ⟨hj, Store.items_eq_none_iff.2 hnone⟩]
      rfl
    · rw [get?_addDirectories_of_not_mem perm hs hj, if_neg fun h => hj h.1]
      rfl
  · rw [get?_addDirectories_of_isSome perm hs (Option.ne_none_iff_isSome.1 hnone),
      if_neg fun h => hnone (Store.items_eq_none_iff.1 h.2)]
    rfl

end Disk

/-! ## Calls -/

/-- The filesystem in memory on a store has some contents. -/
def Holds (m : Nat) (w : World) (c : Contents) : Prop :=
  ∃ s, w.stores[m]? = some s ∧ Reachable s ∧ s.items = c

variable {w : World} {m : Nat} {s : Store} {d e : Disk} {c : Contents}

theorem holds_putDisk (hm : w.stores[m]? = some s) (hd : Reachable d.store)
    (hitems : d.store.items = c) : Holds m (w.putDisk m d) c :=
  ⟨d.store, World.stores_putDisk hm d, hd, hitems⟩

/-- The store that a call leaves is reachable. -/
theorem Reachable.call (hs : Reachable d.store) {call : Call} {r} (h : CallOutcome d call r) :
    Reachable (diskOf r).store := by
  have hstep := hs.step d.clock d.supply (.call call)
  have hrun : after (Event.call call).run d = diskOf r := by
    rw [after]
    exact congrArg diskOf (h.run hs.sound)
  rw [← hrun]
  exact hstep

/-- The store that a call on a handle leaves is reachable. -/
theorem Reachable.use {h : Handle} {id : Nat} (hs : Reachable d.store)
    (hid : d.store.handles[id]? = some h) (call : HandleCall) :
    Reachable ((d.committed h call).setHandle id (h.use call).2).store := by
  have hstep := hs.step d.clock d.supply (.use id call)
  have hrun : after (Event.use id call).run d =
      (d.committed h call).setHandle id (h.use call).2 := after_use hid call
  rw [← hrun]
  exact hstep

/-! ## Requests that are single calls -/

/-- What is told of an entry is what is told of the item. -/
theorem summary_info {σ : Type} {entry : Entry} (h : entry.Typed) (k : Key) :
    (EntryInfo.plain (entry.info (σ := σ) k)).summary = entry.item.summary k.name := by
  cases entry with
  | file content mode modified =>
    obtain ⟨perm, hperm, rfl⟩ := h
    have hkind := Mode.isDirectory_regular (Nat.lt_trans hperm (by decide))
    exact congrArg (Summary.mk _ · _) hkind
  | directory mode modified =>
    obtain ⟨perm, hperm, rfl⟩ := h
    have hkind := Mode.isDirectory_directory (Nat.lt_trans hperm (by decide))
    exact congrArg (Summary.mk _ · _) hkind

/-- What is told of the entries of a directory is what is told of the items. -/
theorem summaries_infos {σ : Type} (hs : s.Sound) (k : Key) (names : List String) :
    ((infos (σ := σ) s.tree k names).map EntryInfo.plain).map EntryInfo.summary =
      s.items.summaries k names := by
  rw [infos, Contents.summaries, List.map_map, List.map_filterMap]
  apply List.filterMap_congr
  intro a _
  rw [Store.items]
  cases he : s.tree.get? (k ++ [a]) with
  | none => rfl
  | some entry => simp [summary_info (hs.tree.typed _ _ he), Key.name]

section Calls

variable {path target : String} {perm : Int} {r : EStateM.Result Fault Disk Unit}

theorem StatOutcome.outcome {σ : Type} {r : EStateM.Result Fault Disk (FileInfo σ)}
    (hm : w.stores[m]? = some s) (hs : Reachable s)
    (h : StatOutcome (w.disk s) (Key.resolve path) path r) :
    Contents.Outcome (Holds m) s.items (.stat path)
      (w.lift m (fun i => .info (EntryInfo.plain i).summary) r) := by
  cases h with
  | @present entry h =>
    have hitem : s.items (Key.resolve path) = some entry.item := Store.items_of_get? h
    have hreply : s.items.Replies (.stat path)
        (.info (EntryInfo.plain (entry.info (σ := σ) (Key.resolve path))).summary) := by
      rw [summary_info (hs.sound.tree.typed _ _ h)]
      exact .stat hitem
    exact .served (by simp [Contents.Admits, hitem]) hreply (holds_putDisk hm hs rfl)
  | missing h => exact .refused fun hadmits => hadmits (Store.items_eq_none_iff.2 h)

theorem ListOutcome.outcome {σ : Type} {r : EStateM.Result Fault Disk (List (FileInfo σ))}
    (hm : w.stores[m]? = some s) (hs : Reachable s)
    (h : ListOutcome (w.disk s) (Key.resolve path) path r) :
    Contents.Outcome (Holds m) s.items (.list path)
      (w.lift m (fun l => .listing ((l.map EntryInfo.plain).map EntryInfo.summary)) r) := by
  cases h with
  | file h =>
    refine .refused fun hadmits => ?_
    exact h.not_isDirectory (Store.items_eq_directory_iff.1 hadmits)
  | directory h =>
    have hmem : ∀ a, s.items (Key.resolve path ++ [a]) ≠ none →
        a ∈ s.children (Key.resolve path) := by
      intro a ha
      rw [ne_eq, Store.items_eq_none_iff, ← ne_eq, Option.ne_none_iff_isSome] at ha
      exact hs.sound.inStep.mem_children.2 ⟨[], ha⟩
    have hreply : s.items.Replies (.list path) (.listing ((((infos (σ := σ) s.tree
        (Key.resolve path) (s.children (Key.resolve path))).map EntryInfo.plain).map
          EntryInfo.summary))) := by
      rw [summaries_infos hs.sound]
      exact Contents.replies_list (pairwise_foldr_insertName _) hmem
    exact .served (Store.items_eq_directory_iff.2 h) hreply (holds_putDisk hm hs rfl)
  | missing h =>
    refine .refused fun hadmits => ?_
    exact not_isDirectory_of_none h (Store.items_eq_directory_iff.1 hadmits)

theorem DirectoriesOutcome.outcome (hm : w.stores[m]? = some s) (hs : Reachable s)
    (hr : Reachable (diskOf r).store)
    (h : DirectoriesOutcome (w.disk s) (Key.resolve path) perm r) :
    Contents.Outcome (Holds m) s.items (.makeDirectories path perm)
      (w.lift m (fun _ => .done) r) := by
  cases h with
  | blocked hj hfile =>
    exact .refused fun hadmits => Store.clear_items.1 hadmits _ hj hfile
  | made hfree =>
    refine .served (Store.clear_items.2 hfree) (.makeDirectories path perm) ?_
    exact holds_putDisk hm hr (Disk.items_addDirectories hs.sound.inStep perm _)

theorem RemoveOutcome.outcome (hm : w.stores[m]? = some s) (hs : Reachable s)
    (hr : Reachable (diskOf r).store) (hproper : Key.resolve path ≠ [])
    (h : RemoveOutcome (w.disk s) (Key.resolve path) path r) :
    Contents.Outcome (Holds m) s.items (.remove path) (w.lift m (fun _ => .done) r) := by
  have hstep := hs.sound.inStep
  cases h with
  | file h =>
    refine .served (.inl (Store.hasFile_items.2 h)) (.remove path) ?_
    exact holds_putDisk hm hr (Store.items_erase (Store.get?_tree_eraseFile s _))
  | root h => exact absurd h hproper
  | notEmpty hroot h hchildren =>
    refine .refused fun hadmits => ?_
    rcases hadmits with hfile | ⟨-, hbare⟩
    · exact h.not_isFile (Store.hasFile_items.1 hfile)
    · exact hchildren ((Store.bare_items hstep).1 hbare)
  | directory hroot h hchildren =>
    refine .served (.inr ⟨Store.items_eq_directory_iff.2 h, (Store.bare_items hstep).2 hchildren⟩)
      (.remove path) ?_
    exact holds_putDisk hm hr (Store.items_erase (Store.get?_tree_eraseDirectory s _))
  | missing h =>
    refine .refused fun hadmits => ?_
    rcases hadmits with hfile | ⟨hdir, -⟩
    · exact not_isFile_of_none h (Store.hasFile_items.1 hfile)
    · exact not_isDirectory_of_none h (Store.items_eq_directory_iff.1 hdir)

/-- A file may be moved as the contents say. -/
theorem movable_file {src dst : Key} (hs : d.store.Sound) (hne : src ≠ dst)
    (hsrc : d.store.tree.IsFile src) (hdst : ¬d.store.tree.IsDirectory dst)
    (hfree : ∀ j ∈ dst.parent.steps, ¬d.store.tree.IsFile j) :
    d.store.items.Movable src dst where
  src_ne := (movable_of_isFile hs hne hsrc hdst hfree).src_ne
  source := (Store.hasFile_items.2 hsrc).ne_none
  out := (movable_of_isFile hs hne hsrc hdst hfree).out
  way := Store.clear_items.2 hfree
  bare := hs.items.bare fun h => hdst (Store.items_eq_directory_iff.1 h)
  kind := by
    refine .inr (iff_of_false ?_ ?_)
    · exact fun h => hsrc.not_isDirectory (Store.items_eq_directory_iff.1 h)
    · exact fun h => hdst (Store.items_eq_directory_iff.1 h)

/-- A directory may be moved as the contents say. -/
theorem movable_directory {src dst : Key} (hs : d.store.Sound) (hroot : src ≠ [])
    (hsrc : d.store.tree.IsDirectory src) (hdst : ¬d.store.tree.IsFile dst)
    (hout : Key.within src dst = false) (hchildren : d.store.children dst = [])
    (hfree : ∀ j ∈ dst.parent.steps, ¬d.store.tree.IsFile j) :
    d.store.items.Movable src dst where
  src_ne := hroot
  source := by simp [Store.items_eq_directory_iff.2 hsrc]
  out := hout
  way := Store.clear_items.2 hfree
  bare := (Store.bare_items hs.inStep).2 hchildren
  kind := by
    by_cases hnone : d.store.items dst = none
    · exact .inl hnone
    · refine .inr (iff_of_true (Store.items_eq_directory_iff.2 hsrc) ?_)
      exact (hs.items.directory_or_hasFile hnone).resolve_right fun h =>
        hdst (Store.hasFile_items.1 h)

theorem FileMove.items_after {src dst : Key} (h : FileMove d src dst) :
    (((d.mapHandles (Handle.detach dst)).mapStore (Store.movedFile src dst)).mapHandles
      (Handle.follow src dst)).store.items = d.store.items.move src dst := by
  rw [Disk.items_mapHandles, Disk.mapStore_store, Store.items_moved h.moved, Disk.items_mapHandles]

theorem DirectoryMove.items_after {src dst : Key} (h : DirectoryMove d src dst) :
    ((d.mapStore (Store.movedAll src dst)).mapHandles (Handle.follow src dst)).store.items =
      d.store.items.move src dst := by
  rw [Disk.items_mapHandles, Disk.mapStore_store, Store.items_moved h.moved]

theorem RenameOutcome.outcome (hm : w.stores[m]? = some s) (hs : Reachable s)
    (hr : Reachable (diskOf r).store) (hproper : Key.resolve path ≠ Key.resolve target)
    (h : RenameOutcome (w.disk s) (Key.resolve path) (Key.resolve target) path target r) :
    Contents.Outcome (Holds m) s.items (.rename path target) (w.lift m (fun _ => .done) r) := by
  have hstep := hs.sound.inStep
  have hdir : ∀ {k}, s.tree.IsDirectory k → s.items k = some .directory :=
    Store.items_eq_directory_iff.2
  have hfile : ∀ {k}, s.tree.IsFile k → s.items.HasFile k := Store.hasFile_items.2
  cases h with
  | same h => exact absurd h hproper
  | missing hne h => exact .refused fun hadmits => hadmits.source (Store.items_eq_none_iff.2 h)
  | ontoDirectory hsrc hdst =>
    refine .refused fun hadmits => ?_
    rcases hadmits.kind with hnone | hkind
    · rw [hdir hdst] at hnone
      cases hnone
    · exact (hfile hsrc).ne_directory (hkind.2 (hdir hdst))
  | fileBlocked hne hsrc hdst hj hblock =>
    exact .refused fun hadmits => Store.clear_items.1 hadmits.way _ hj hblock
  | fileMoved hne hsrc hdst hfree =>
    have hmove := fileMove hs.sound (Path.isName_resolve target) hne hsrc hdst hfree
    have hitems := hmove.items_after
    rw [Disk.items_addDirectories hstep] at hitems
    exact .served (movable_file hs.sound hne hsrc hdst hfree) (.rename path target)
      (holds_putDisk hm hr hitems)
  | root hne h => exact .refused fun hadmits => hadmits.src_ne h
  | ontoFile hroot hsrc hdst =>
    refine .refused fun hadmits => ?_
    rcases hadmits.kind with hnone | hkind
    · exact (hfile hdst).ne_none hnone
    · exact (hfile hdst).ne_directory (hkind.1 (hdir hsrc))
  | intoItself hne hroot hsrc hdst hin =>
    refine .refused fun hadmits => ?_
    rw [hadmits.out] at hin
    cases hin
  | notEmpty hroot hsrc hdst hout hchildren =>
    exact .refused fun hadmits => hchildren ((Store.bare_items hstep).1 hadmits.bare)
  | directoryBlocked hroot hsrc hdst hout hchildren hj hblock =>
    exact .refused fun hadmits => Store.clear_items.1 hadmits.way _ hj hblock
  | directoryMoved hroot hsrc hdst hout hchildren hfree =>
    have hmove := directoryMove hs.sound (Path.isName_resolve target) hroot hsrc hdst hout
      hchildren hfree
    have hitems := hmove.items_after
    rw [Disk.items_addDirectories hstep] at hitems
    exact .served (movable_directory hs.sound hroot hsrc hdst hout hchildren hfree)
      (.rename path target) (holds_putDisk hm hr hitems)

end Calls

/-! ## Whole files -/

section Files

variable {path : String} {k : Key} {data content : Bytes} {perm : Int} {id : Nat}

/-- Opening a file of the filesystem in memory opens one of its store. -/
theorem run_openFile_plain (hm : w.stores[m]? = some s) (path : String) (flags : OpenFlags)
    (perm : Int) :
    ((FileSystem.memory m .plain).openFile path flags perm).run w =
      w.lift m (File.memory m · path) ((openFile path flags perm).run (w.disk s)) := by
  have hopen : (FileSystem.memory m .plain).openFile path flags perm =
      onStore m ((File.memory m · path) <$> openFile path flags perm) := by
    simp [FileSystem.openFile, Variant.openFile, map_onStore]
  rw [hopen, run_onStore hm]

/-- A call on a handle that succeeds leaves its disk in the world. -/
theorem run_use_putDisk {h : Handle} {c : HandleCall} {a : Answer (Nat × String)}
    (hm : w.stores[m]? = some s) (hid : d.store.handles[id]? = some h)
    (hok : (h.use c).1 = .ok a) (name : String) :
    ((File.memory m id name).use c).run (w.putDisk m d) =
      .ok (a.map (File.ofStore m))
        (w.putDisk m ((d.committed h c).setHandle id (h.use c).2)) := by
  have hdisk : (w.putDisk m d).disk d.store = d := rfl
  rw [run_use_memory (World.stores_putDisk hm d), hdisk, run_use hid, hok, resultOf, World.lift,
    World.putDisk_putDisk]

theorem getElem?_setHandle {h : Handle} (hid : d.store.handles[id]? = some h) (h' : Handle) :
    (d.setHandle id h').store.handles[id]? = some h' := by
  obtain ⟨hlt, -⟩ := List.getElem?_eq_some_iff.1 hid
  simp [hlt]

/-- A handle for overwriting after all has been written. -/
def writtenHandle (k : Key) (path : String) (data : Bytes) : Handle :=
  { newHandle k path .overwriting [] with buffer := ⟨data, data.length⟩, dirty := true }

/-- A new handle for overwriting writes into an empty buffer. -/
theorem use_write_respond (k : Key) (path : String) (data : Bytes) :
    (newHandle k path .overwriting []).use (.write data) =
      (newHandle k path .overwriting []).written.respond (fun n : Nat => .number n)
        ((⟨[], 0⟩ : Buffer).write data) := by
  have hwritable : (newHandle k path .overwriting []).flags.writable = true := by
    change OpenFlags.overwriting.writable = true
    decide
  rw [Handle.use_of_open _ _ rfl, Handle.useOpen, if_pos hwritable]
  rfl

theorem use_write (hbuffer : (⟨[], 0⟩ : Buffer).write data = .ok (data.length, ⟨data, data.length⟩))
    (k : Key) (path : String) :
    (newHandle k path .overwriting []).use (.write data) =
      (.ok (.number data.length), writtenHandle k path data) := by
  rw [use_write_respond, hbuffer]
  rfl

/-- A handle for reading after all has been read. -/
def readHandle (k : Key) (path : String) (content : Bytes) : Handle :=
  { newHandle k path .reading content with buffer := ⟨content, content.length⟩ }

theorem use_read (k : Key) (path : String) (content : Bytes) :
    (newHandle k path .reading content).use (.read (some (-1))) =
      (.ok (.bytes content), readHandle k path content) := by
  have hreadable : (newHandle k path .reading content).flags.readable = true := by
    change OpenFlags.reading.readable = true
    decide
  have hbuffer : (newHandle k path .reading content).buffer = ⟨content, 0⟩ := rfl
  have hread : (⟨content, 0⟩ : Buffer).read (some (-1)) =
      .ok (content, ⟨content, content.length⟩) := by
    simp [Buffer.read, fitsLong, Bytes.slice]
  rw [Handle.use_of_open _ _ rfl, Handle.useOpen, if_pos hreadable, hbuffer, hread]
  rfl

/-- A disk after all has been written to a handle for overwriting, and the handle closed. -/
def Disk.overwritten (id : Nat) (k : Key) (path : String) (data : Bytes) (d : Disk) : Disk :=
  ((d.setHandle id (writtenHandle k path data)).putFile k data (modeAt d.store k)).setHandle id
    { writtenHandle k path data with dirty := false, closed := true }

/-- A file that has been opened for overwriting is written and closed. -/
theorem run_writeContent_plain (hm : w.stores[m]? = some s)
    (hbuffer : (⟨[], 0⟩ : Buffer).write data = .ok (data.length, ⟨data, data.length⟩))
    (hopen : (openFile path .overwriting perm).run (w.disk s) = .ok id d)
    (hid : d.store.handles[id]? = some (newHandle k path .overwriting [])) :
    ((FileSystem.memory m .plain).writeContent path data perm).run w =
      .ok () (w.putDisk m (d.overwritten id k path data)) := by
  have hopen' := run_openFile_plain hm path .overwriting perm
  rw [hopen, World.lift] at hopen'
  have huse := use_write hbuffer k path
  have hwrite := run_use_putDisk hm hid (congrArg Prod.fst huse) path
  rw [huse, Disk.committed_of_not_commits rfl] at hwrite
  have hclose := run_use_putDisk hm (getElem?_setHandle hid (writtenHandle k path data))
    (c := .close) rfl path
  exact FileSystem.run_writeContent hopen' hwrite hclose

theorem Disk.items_overwritten (id : Nat) (k : Key) (path : String) (data : Bytes) (d : Disk) :
    (d.overwritten id k path data).store.items = d.store.items.put k (.file data) :=
  Disk.items_putFile (d.setHandle id (writtenHandle k path data)) k data _

theorem Reachable.overwritten (hd : Reachable d.store)
    (hbuffer : (⟨[], 0⟩ : Buffer).write data = .ok (data.length, ⟨data, data.length⟩))
    (hid : d.store.handles[id]? = some (newHandle k path .overwriting [])) :
    Reachable (d.overwritten id k path data).store := by
  have hwritten := hd.use hid (.write data)
  rw [use_write hbuffer, Disk.committed_of_not_commits rfl] at hwritten
  exact hwritten.use (getElem?_setHandle hid _) .close

/-- A disk after all has been read through a handle for reading, and the handle closed. -/
def Disk.readOut (id : Nat) (k : Key) (path : String) (content : Bytes) (d : Disk) : Disk :=
  (d.setHandle id (readHandle k path content)).setHandle id
    { readHandle k path content with closed := true }

/-- A file that has been opened for reading is read and closed. -/
theorem run_readContent_plain (hm : w.stores[m]? = some s)
    (hopen : (openFile path .reading 0).run (w.disk s) = .ok id d)
    (hid : d.store.handles[id]? = some (newHandle k path .reading content)) :
    ((FileSystem.memory m .plain).readContent path).run w =
      .ok content (w.putDisk m (d.readOut id k path content)) := by
  have hopen' := run_openFile_plain hm path .reading 0
  rw [hopen, World.lift] at hopen'
  have huse := use_read k path content
  have hread := run_use_putDisk hm hid (congrArg Prod.fst huse) path
  rw [huse, Disk.committed_of_not_commits rfl] at hread
  have hclose := run_use_putDisk hm (getElem?_setHandle hid (readHandle k path content))
    (c := .close) rfl path
  rw [Disk.committed_of_not_commits rfl] at hclose
  exact FileSystem.run_readContent hopen' hread hclose

theorem Reachable.readOut (hd : Reachable d.store)
    (hid : d.store.handles[id]? = some (newHandle k path .reading content)) :
    Reachable (d.readOut id k path content).store := by
  have hread := hd.use hid (.read (some (-1)))
  rw [use_read, Disk.committed_of_not_commits rfl] at hread
  exact hread.use (getElem?_setHandle hid _) .close

/-- What opening a file leaves is reachable. -/
theorem Reachable.openFile {flags : OpenFlags} {r} (hs : Reachable d.store)
    (h : OpenOutcome d (Key.resolve path) path flags perm r) : Reachable (diskOf r).store := by
  simpa using hs.call (.openFile h)

theorem getElem?_addHandle (d : Disk) (h : Handle) :
    (d.addHandle h).store.handles[d.store.handles.length]? = some h := by
  simp

theorem OpenOutcome.outcome_write {r} (hm : w.stores[m]? = some s) (hs : Reachable s)
    (hlength : data.length < memoryLimit)
    (h : OpenOutcome (w.disk s) (Key.resolve path) path .overwriting perm r) :
    Contents.Outcome (Holds m) s.items (.write path data perm)
      (((FileSystem.memory m .plain).serve (.write path data perm)).run w) := by
  have hbuffer : (⟨[], 0⟩ : Buffer).write data = .ok (data.length, ⟨data, data.length⟩) :=
    Buffer.write_end [] (by simpa using hlength)
  have hrun := h.run hs.sound
  have hreach := hs.openFile h
  have hopen := run_openFile_plain hm path .overwriting perm
  rw [hrun] at hopen
  cases h with
  | directory h =>
    rw [FileSystem.run_serve_write_error hopen]
    refine .refused fun hadmits => ?_
    rcases hadmits with hfile | ⟨hnone, -⟩
    · exact h.not_isFile (Store.hasFile_items.1 hfile)
    · exact not_isDirectory_of_none (Store.items_eq_none_iff.1 hnone) h
  | present h hx => cases hx
  | @emptied content mode modified h hx ht =>
    have hfile := Store.hasFile_items.2 (isFile_of_get? h)
    have hid := getElem?_addHandle ((w.disk s).putFile (Key.resolve path) [] mode)
      (newHandle (Key.resolve path) path .overwriting [])
    have hwrite := run_writeContent_plain hm hbuffer hrun hid
    have hparent := hs.sound.items.parent_directory hfile.ne_none
    rw [FileSystem.run_serve_write hwrite]
    refine .served (.inl hfile) (.write path data perm)
      (holds_putDisk hm (hreach.overwritten hbuffer hid) ?_)
    rw [Contents.after, hs.sound.items.makeWay_eq_self (by simp [hparent]),
      Disk.items_overwritten, Disk.items_addHandle, Disk.items_putFile, Contents.put_put]
    rfl
  | kept h hx ht => cases ht
  | missing h hc => cases hc
  | blocked h hc hj hfile =>
    rw [FileSystem.run_serve_write_error hopen]
    refine .refused fun hadmits => ?_
    rcases hadmits with hfile' | ⟨-, hclear⟩
    · exact not_isFile_of_none h (Store.hasFile_items.1 hfile')
    · exact Store.clear_items.1 hclear _ hj hfile
  | made h hc hfree =>
    have hid := getElem?_addHandle (((w.disk s).addDirectories defaultPerm
      (Key.resolve path).parent.steps).putFile (Key.resolve path) []
        (Mode.regular + Mode.permissions perm)) (newHandle (Key.resolve path) path .overwriting [])
    rw [Disk.putFile_handles, Disk.addDirectories_handles] at hid
    have hwrite := run_writeContent_plain hm hbuffer hrun hid
    rw [FileSystem.run_serve_write hwrite]
    refine .served
      (.inr ⟨Store.items_eq_none_iff.2 h, Store.clear_items.2 hfree⟩) (.write path data perm)
      (holds_putDisk hm (hreach.overwritten hbuffer hid) ?_)
    rw [Disk.items_overwritten, Disk.items_addHandle, Disk.items_putFile,
      Disk.items_addDirectories hs.sound.inStep, Contents.put_put]
    rfl

theorem OpenOutcome.outcome_read {r} (hm : w.stores[m]? = some s) (hs : Reachable s)
    (h : OpenOutcome (w.disk s) (Key.resolve path) path .reading 0 r) :
    Contents.Outcome (Holds m) s.items (.read path)
      (((FileSystem.memory m .plain).serve (.read path)).run w) := by
  have hrun := h.run hs.sound
  have hreach := hs.openFile h
  have hopen := run_openFile_plain hm path .reading 0
  rw [hrun] at hopen
  cases h with
  | directory h =>
    rw [FileSystem.run_serve_read_error hopen]
    exact .refused fun hadmits => h.not_isFile (Store.hasFile_items.1 hadmits)
  | present h hx => cases hx
  | emptied h hx ht => cases ht
  | @kept content mode modified h hx ht =>
    have hfile : s.items (Key.resolve path) = some (.file content) := Store.items_of_get? h
    have hid := getElem?_addHandle (w.disk s) (newHandle (Key.resolve path) path .reading content)
    rw [FileSystem.run_serve_read (run_readContent_plain hm hrun hid)]
    exact .served ⟨content, hfile⟩ (.read hfile) (holds_putDisk hm (hreach.readOut hid) rfl)
  | missing h hc =>
    rw [FileSystem.run_serve_read_error hopen]
    exact .refused fun hadmits => not_isFile_of_none h (Store.hasFile_items.1 hadmits)
  | blocked h hc hj hfile => cases hc
  | made h hc hfree => cases hc

end Files

/-! ## All requests -/

/-- A request that is a single call runs on the store. -/
theorem run_serve_of_call (hm : w.stores[m]? = some s) {r : Request} {call : Call}
    (h : r.call? = some call) :
    ((FileSystem.memory m .plain).serve r).run w =
      w.lift m Answer.reply ((perform call).run (w.disk s)) := by
  have hserve : (FileSystem.memory m .plain).serve r =
      onStore m (Answer.reply <$> perform call) := by
    rw [FileSystem.serve_of_call _ h, FileSystem.perform_memory, map_onStore, ← comp_map]
    refine congrArg (fun g => onStore m (g <$> perform call)) (funext fun a => ?_)
    exact Answer.reply_map _ a
  rw [hserve, run_onStore hm]

theorem lift_mapResult {α β γ : Type} (w : World) (m : Nat) (f : α → β) (g : β → γ)
    (r : EStateM.Result Fault Disk α) :
    w.lift m g (mapResult f r) = w.lift m (fun a => g (f a)) r := by
  cases r <;> rfl

/-- Every request on the filesystem in memory comes to what its contents say. -/
theorem Holds.outcome {r : Request} (h : Holds m w c) (hproper : r.Proper) :
    Contents.Outcome (Holds m) c r (((FileSystem.memory m .plain).serve r).run w) := by
  obtain ⟨s, hm, hs, rfl⟩ := h
  have hreach : ∀ {call : Call} {r}, CallOutcome (w.disk s) call r →
      Reachable (diskOf r).store := Reachable.call hs
  have hrun : ∀ {r : Request} {call : Call} {r'}, r.call? = some call →
      CallOutcome (w.disk s) call r' →
      ((FileSystem.memory m .plain).serve r).run w = w.lift m Answer.reply r' := by
    intro r call r' hcall houtcome
    rw [run_serve_of_call hm hcall, houtcome.run hs.sound]
  cases r with
  | write path data perm =>
    obtain ⟨r, hr⟩ := openOutcome (w.disk s) (Key.resolve path) path .overwriting perm
    exact hr.outcome_write hm hs hproper
  | read path =>
    obtain ⟨r, hr⟩ := openOutcome (w.disk s) (Key.resolve path) path .reading 0
    exact hr.outcome_read hm hs
  | makeDirectories path perm =>
    obtain ⟨r, hr⟩ := directoriesOutcome (w.disk s) (Key.resolve path) perm
    rw [hrun rfl (.makeDirectories hr), lift_mapResult]
    exact hr.outcome hm hs (by simpa using hreach (.makeDirectories hr))
  | rename path target =>
    have hsound : (w.disk s).store.Sound := hs.sound
    obtain ⟨r, hr⟩ := renameOutcome hsound (Key.resolve path) (Key.resolve target) path target
    rw [hrun rfl (.rename hr), lift_mapResult]
    exact hr.outcome hm hs (by simpa using hreach (.rename hr)) hproper
  | remove path =>
    obtain ⟨r, hr⟩ := removeOutcome (w.disk s) (Key.resolve path) path
    rw [hrun rfl (.remove hr), lift_mapResult]
    exact hr.outcome hm hs (by simpa using hreach (.remove hr)) hproper
  | stat path =>
    obtain ⟨r, hr⟩ := statOutcome (σ := Host.Status) (w.disk s) (Key.resolve path) path
    rw [hrun rfl (.stat hr), lift_mapResult]
    exact hr.outcome hm hs
  | list path =>
    obtain ⟨r, hr⟩ := listOutcome (σ := Host.Status) (w.disk s) (Key.resolve path) path
    rw [hrun rfl (.list hr), lift_mapResult]
    exact hr.outcome hm hs

end RootedFS.Memory
