import RootedFS.Proofs.Memory.Outcome
import RootedFS.Proofs.Memory.Use

/-!
# Sound stores stay sound

Every call on a store and on its handles, with any arguments and also if it fails, leads from a
sound store to a sound store. In particular no call ever finds an entry missing that has to be
there.

## Main results

* `Store.Sound.putFile`, `Store.Sound.moved`, ...: the changes that keep a store sound
* `Event.sound`: an event keeps a store sound
* `Reachable.sound`: the stores that sequences of calls lead to are sound
* `Event.not_noEntry`: no event fails because of an entry that has to be there
-/

namespace RootedFS.Memory

open Tree

/-! ## Handles that follow -/

namespace Handle

variable {h : Handle} {j k src dst : Key}

@[simp] theorem detach_closed (h : Handle) (k : Key) : (h.detach k).closed = h.closed := by
  unfold detach
  split <;> rfl

@[simp] theorem detach_name (h : Handle) (k : Key) : (h.detach k).name = h.name := by
  unfold detach
  split <;> rfl

@[simp] theorem detach_dirty (h : Handle) (k : Key) : (h.detach k).dirty = h.dirty := by
  unfold detach
  split <;> rfl

@[simp] theorem detach_flags (h : Handle) (k : Key) : (h.detach k).flags = h.flags := by
  unfold detach
  split <;> rfl

@[simp] theorem detach_buffer (h : Handle) (k : Key) : (h.detach k).buffer = h.buffer := by
  unfold detach
  split <;> rfl

@[simp] theorem follow_closed (h : Handle) (src dst : Key) :
    (h.follow src dst).closed = h.closed := by
  unfold follow
  split <;> rfl

@[simp] theorem follow_name (h : Handle) (src dst : Key) :
    (h.follow src dst).name = h.name := by
  unfold follow
  split <;> rfl

@[simp] theorem follow_dirty (h : Handle) (src dst : Key) :
    (h.follow src dst).dirty = h.dirty := by
  unfold follow
  split <;> rfl

@[simp] theorem follow_flags (h : Handle) (src dst : Key) :
    (h.follow src dst).flags = h.flags := by
  unfold follow
  split <;> rfl

@[simp] theorem follow_buffer (h : Handle) (src dst : Key) :
    (h.follow src dst).buffer = h.buffer := by
  unfold follow
  split <;> rfl

/-- An open handle loses its file with the file. -/
theorem detach_key (ho : h.closed = false) : (h.detach k).key = h.key.filter (· ≠ k) := by
  rw [detach, ho]
  cases hk : h.key with
  | none => simp [hk]
  | some j => by_cases hj : j = k <;> simp [hj, hk, Option.filter]

/-- An open handle moves with its file. -/
theorem follow_key (ho : h.closed = false) :
    (h.follow src dst).key = h.key.map (rebase src dst) := by
  rw [follow, ho]
  rfl

/-- A handle that is still on a file after the one at `k` has gone was on that file before. -/
theorem key_detach (ho : (h.detach k).closed = false) (hj : (h.detach k).key = some j) :
    h.closed = false ∧ h.key = some j ∧ j ≠ k := by
  rw [detach_closed] at ho
  rw [detach_key ho, Option.filter_eq_some_iff] at hj
  exact ⟨ho, hj.1, of_decide_eq_true hj.2⟩

/-- A handle on a file after a move was on the file that has moved there. -/
theorem key_follow (ho : (h.follow src dst).closed = false)
    (hj : (h.follow src dst).key = some j) :
    h.closed = false ∧ ∃ i, h.key = some i ∧ rebase src dst i = j := by
  rw [follow_closed] at ho
  rw [follow_key ho] at hj
  exact ⟨ho, Option.map_eq_some_iff.1 hj⟩

/-- An open handle on another file, or on none, stays as it is when a file goes. -/
theorem detach_eq_self (hkey : h.closed = false → h.key ≠ some k) : h.detach k = h := by
  rw [detach, if_neg]
  simpa using hkey

/-- A handle on a file that does not move stays as it is. -/
theorem follow_eq_self
    (hkey : h.closed = false → ∀ j, h.key = some j → Key.within src j = false) :
    h.follow src dst = h := by
  rw [follow]
  split
  · rfl
  · rename_i ho
    cases hj : h.key with
    | none => rw [Option.map_none, ← hj]
    | some j =>
      have hout := hkey (by simpa using ho) j hj
      rw [Option.map_some, rebase_of_below?_eq_none (Key.within_eq_false_iff.1 hout), ← hj]

end Handle

/-! ## Changes that keep a store sound -/

namespace Store.Sound

variable {s s' : Store} {d : Disk} {k src dst : Key}

/-- Handles may change while they are on files. -/
theorem withHandles (hs : s.Sound) {l : List Handle}
    (hl : ∀ h ∈ l, h.closed = false → ∀ k, h.key = some k → s.tree.IsFile k) :
    ({ s with handles := l } : Store).Sound :=
  ⟨hs.inStep.withHandles l, hs.tree, hl⟩

/-- Another handle on a file may be added. -/
theorem addHandle (hs : d.store.Sound) {h : Handle} (hk : h.key = some k)
    (hfile : d.store.tree.IsFile k) : (d.addHandle h).store.Sound := by
  apply hs.withHandles
  intro h' hh' ho j hj
  rcases List.mem_append.1 hh' with hh' | hh'
  · exact hs.attached h' hh' ho j hj
  · rw [List.mem_singleton.1 hh', hk] at hj
    exact Option.some.inj hj ▸ hfile

/-- A handle may be replaced by one on the same file. -/
theorem setHandle (hs : d.store.Sound) {id : Nat} {h h' : Handle}
    (hid : d.store.handles[id]? = some h) (hk : h'.key = h.key)
    (hc : h.closed = true → h'.closed = true) : (d.setHandle id h').store.Sound := by
  apply hs.withHandles
  intro g hg ho j hj
  rcases List.mem_or_eq_of_mem_set hg with hg | rfl
  · exact hs.attached g hg ho j hj
  · have hopen : h.closed = false := by
      cases hh : h.closed with
      | false => rfl
      | true => rw [hc hh] at ho; cases ho
    rw [hk] at hj
    exact hs.attached h (List.mem_of_getElem? hid) hopen j hj

/-- A file may be put into a directory, or in the place of a file. -/
theorem putFile (hs : d.store.Sound) (hnames : ∀ a ∈ k, Path.IsName a)
    (hparent : d.store.tree.IsDirectory k.parent) (hnot : ¬d.store.tree.IsDirectory k)
    (content : Bytes) {mode : Nat} (hmode : ∃ perm < 0o1000, mode = Mode.regular + perm) :
    (d.putFile k content mode).store.Sound := by
  have hk : k ≠ [] := by
    rintro rfl
    exact hnot hs.tree.root
  have htyped : (Entry.file content mode d.clock).Typed := hmode
  have hget := fun j => Disk.get?_putFile d k j content mode
  refine hs.of_files
    (hs.inStep.putFile (hs.inStep.hasDirectory_of_not_isDirectory hnot) content ⟨mode, d.clock⟩)
    (hs.tree.insert hk hnames hparent hnot htyped hget) rfl ?_
  intro j hj
  by_cases hjk : j = k
  · exact ⟨content, mode, d.clock, by rw [hget, if_pos hjk]⟩
  · exact (IsFile.congr (by rw [hget, if_neg hjk])).2 hj

/-- The content of a file may change. -/
theorem commit (hs : d.store.Sound) (hfile : d.store.tree.IsFile k) (content : Bytes) :
    (d.putFile k content (modeAt d.store k)).store.Sound := by
  obtain ⟨old, mode, modified, hget⟩ := hfile
  have hk : k ≠ [] := by
    rintro rfl
    exact (isFile_of_get? hget).not_isDirectory hs.tree.root
  obtain ⟨a, ha⟩ := Key.exists_eq_parent_append hk
  have hsome := (isFile_of_get? hget).isSome
  have hparent : d.store.tree.IsDirectory k.parent := hs.tree.closed k.parent a (ha ▸ hsome)
  rw [modeAt_of_get? hs.inStep hget]
  exact hs.putFile (hs.tree.names k hsome) hparent (isFile_of_get? hget).not_isDirectory content
    (hs.tree.typed k _ hget)

/-- A file may be removed once the open handles on it are off it. -/
theorem eraseFile (hs : d.store.Sound) (hfile : d.store.tree.IsFile k) :
    ((d.mapStore (·.eraseFile k)).mapHandles (Handle.detach k)).store.Sound := by
  have hk : k ≠ [] := by
    rintro rfl
    exact hfile.not_isDirectory hs.tree.root
  have hget := fun j => Store.get?_tree_eraseFile d.store k j
  have hbelow : ∀ rest, rest ≠ [] → d.store.tree.get? (k ++ rest) = none := by
    intro rest hrest
    exact hs.tree.get?_append_eq_none hfile.not_isDirectory hrest
  have hstep := hs.inStep.eraseFile (hs.inStep.isFile_tree.1 hfile)
  refine ⟨hstep.withHandles _, hs.tree.erase hk hbelow hget, ?_⟩
  intro h hh ho j hj
  obtain ⟨g, hg, rfl⟩ := List.mem_map.1 hh
  obtain ⟨hgo, hgj, hjk⟩ := Handle.key_detach ho hj
  exact (IsFile.congr ((hget j).trans (if_neg hjk))).2 (hs.attached g hg hgo j hgj)

/-- A directory other than the top may be removed when it is empty. -/
theorem eraseDirectory (hs : d.store.Sound) (hk : k ≠ []) (hdir : d.store.tree.IsDirectory k)
    (hchildren : d.store.children k = []) : (d.mapStore (·.eraseDirectory k)).store.Sound := by
  have hget := fun j => Store.get?_tree_eraseDirectory d.store k j
  have hbelow := hs.inStep.children_eq_nil_iff.1 hchildren
  have hstep := hs.inStep.eraseDirectory (hs.inStep.hasFile_of_isDirectory hdir)
  apply hs.of_files hstep (hs.tree.erase hk hbelow hget) rfl
  intro j hj
  have hjk : j ≠ k := by
    rintro rfl
    exact hj.not_isDirectory hdir
  exact (IsFile.congr ((hget j).trans (if_neg hjk))).2 hj

/-- What is movable may be moved, with the open handles on it, when none is on the destination. -/
theorem moved (hs : s.Sound) (hm : s.tree.Movable src dst) (hmoved : Store.Moved s s' src dst)
    (hnames : ∀ a ∈ dst, Path.IsName a)
    (hfree : ∀ h ∈ s.handles, h.closed = false → h.key ≠ some dst) :
    ({ s' with handles := s'.handles.map (Handle.follow src dst) } : Store).Sound := by
  have htree := hs.tree.move hm hnames hmoved.target hmoved.other
  refine ⟨hmoved.inStep.withHandles _, htree, ?_⟩
  intro h hh ho j hj
  rw [hmoved.handles] at hh
  obtain ⟨g, hg, rfl⟩ := List.mem_map.1 hh
  -- the file that the handle was on is not at the destination, and so has not been replaced
  obtain ⟨hgo, i, hgi, rfl⟩ := Handle.key_follow ho hj
  have hfile := hs.attached g hg hgo i hgi
  have hne : i ≠ dst := fun heq => hfree g hg hgo (heq ▸ hgi)
  exact (IsFile.congr (hmoved.get?_rebase (hm.not_within_of_isFile hfile hne))).2 hfile

end Store.Sound

/-! ## Calls on a store -/

section Calls

variable {d : Disk} {k : Key} {path : String} {flags : OpenFlags} {perm : Int}

theorem DirectoriesOutcome.sound {r} (hs : d.store.Sound) (hk : ∀ a ∈ k, Path.IsName a)
    (h : DirectoriesOutcome d k perm r) : (diskOf r).store.Sound := by
  cases h with
  | blocked hj hfile => exact hs
  | made hfree => exact Disk.sound_addDirectories hs hk hfree perm

theorem OpenOutcome.sound {r} (hs : d.store.Sound) (hk : ∀ a ∈ k, Path.IsName a)
    (h : OpenOutcome d k path flags perm r) : (diskOf r).store.Sound := by
  cases h with
  | directory h => exact hs
  | present h hx => exact hs
  | @emptied content mode modified h hx ht =>
    have hput := hs.commit (isFile_of_get? h) []
    rw [modeAt_of_get? hs.inStep h] at hput
    have hget := Disk.get?_putFile d k k [] mode
    rw [if_pos rfl] at hget
    exact hput.addHandle rfl (isFile_of_get? hget)
  | kept h hx ht => exact hs.addHandle rfl (isFile_of_get? h)
  | missing h hc => exact hs
  | blocked h hc hj hfile => exact hs
  | made h hc hfree =>
    have hdirs := Disk.sound_addDirectories hs (Path.isName_parent hk) hfree defaultPerm
    have hnot : ¬(d.addDirectories defaultPerm k.parent.steps).store.tree.IsDirectory k := by
      apply not_isDirectory_of_none
      rw [Disk.get?_addDirectories_self defaultPerm hs.inStep, h]
    have hput := hdirs.putFile hk
      (Disk.isDirectory_addDirectories_self hs.inStep hs.tree hfree defaultPerm) hnot []
      ⟨Mode.permissions perm, permissions_lt perm, rfl⟩
    have hget := Disk.get?_putFile (d.addDirectories defaultPerm k.parent.steps) k k []
      (Mode.regular + Mode.permissions perm)
    rw [if_pos rfl] at hget
    exact hput.addHandle rfl (isFile_of_get? hget)

theorem TempOutcome.sound {directory lead : String} {r} (hs : d.store.Sound)
    (h : TempOutcome d directory lead r) : (diskOf r).store.Sound := by
  cases h with
  | blocked hj h => exact hs
  | exhausted hfree hsearch => exact sound_tempDirectory hs hfree _
  | failed hfree hsearch h | opened hfree hsearch h =>
    exact h.sound (sound_tempDirectory hs hfree _) (Path.isName_resolve _)

/-- Moving a file keeps a store sound. -/
theorem FileMove.sound_after {src dst : Key} (hmove : FileMove d src dst) :
    (((d.mapHandles (Handle.detach dst)).mapStore (Store.movedFile src dst)).mapHandles
      (Handle.follow src dst)).store.Sound := by
  have hdetach : (d.mapHandles (Handle.detach dst)).store.Sound := by
    apply hmove.sound.withHandles
    intro h hh ho j hj
    obtain ⟨g, hg, rfl⟩ := List.mem_map.1 hh
    obtain ⟨hgo, hgj, -⟩ := Handle.key_detach ho hj
    exact hmove.sound.attached g hg hgo j hgj
  apply hdetach.moved hmove.movable hmove.moved hmove.names
  intro h hh ho hkey
  obtain ⟨g, hg, rfl⟩ := List.mem_map.1 hh
  exact (Handle.key_detach ho hkey).2.2 rfl

/-- Moving a directory keeps a store sound. -/
theorem DirectoryMove.sound_after {src dst : Key} (hmove : DirectoryMove d src dst) :
    ((d.mapStore (Store.movedAll src dst)).mapHandles (Handle.follow src dst)).store.Sound := by
  apply hmove.sound.moved hmove.movable hmove.moved hmove.names
  intro h hh ho hkey
  exact hmove.free (hmove.sound.attached h hh ho dst hkey)

theorem RenameOutcome.sound {src dst : Key} {target : String} {r} (hs : d.store.Sound)
    (hdst : ∀ a ∈ dst, Path.IsName a) (h : RenameOutcome d src dst path target r) :
    (diskOf r).store.Sound := by
  cases h with
  | fileMoved hne hsrc hnot hfree => exact (fileMove hs hdst hne hsrc hnot hfree).sound_after
  | directoryMoved hroot hsrc hnot hout hchildren hfree =>
    exact (directoryMove hs hdst hroot hsrc hnot hout hchildren hfree).sound_after
  | _ => exact hs

theorem RemoveOutcome.sound {r} (hs : d.store.Sound) (h : RemoveOutcome d k path r) :
    (diskOf r).store.Sound := by
  cases h with
  | file h => exact hs.eraseFile h
  | directory hroot h hchildren => exact hs.eraseDirectory hroot h hchildren
  | _ => exact hs

/-- A call keeps a store sound. -/
theorem CallOutcome.sound {c : Call} {r} (hs : d.store.Sound) (h : CallOutcome d c r) :
    (diskOf r).store.Sound := by
  cases h with
  | create h | openRead h | openFile h => simpa using h.sound hs (Path.isName_resolve _)
  | createTemp h => simpa using h.sound hs
  | rename h => simpa using h.sound hs (Path.isName_resolve _)
  | remove h => simpa using h.sound hs
  | makeDirectories h => simpa using h.sound hs (Path.isName_resolve _)
  | stat h | list h => cases h <;> exact hs

/-- A call that hands content on hands it to a file. -/
theorem isFile_of_commits {id : Nat} {h : Handle} {c : HandleCall} (hs : d.store.Sound)
    (hid : d.store.handles[id]? = some h) (hc : h.commits c = true) (hk : h.key = some k) :
    d.store.tree.IsFile k :=
  hs.attached h (List.mem_of_getElem? hid) (Handle.open_of_commits hc) k hk

theorem Disk.sound_committed {id : Nat} {h : Handle} {c : HandleCall} (hs : d.store.Sound)
    (hid : d.store.handles[id]? = some h) : (d.committed h c).store.Sound := by
  unfold Disk.committed
  split
  · rename_i k hk
    split
    · rename_i hc
      exact hs.commit (isFile_of_commits hs hid hc hk) _
    · exact hs
  · exact hs

/-- A call on a handle keeps a store sound. -/
theorem use_sound (hs : d.store.Sound) (id : Nat) (c : HandleCall) :
    (after (use id c) d).store.Sound := by
  cases hid : d.store.handles[id]? with
  | none => rwa [after, run_use_none hid]
  | some h =>
    have hframe := Handle.use_frame h c
    rw [after_use hid]
    exact (Disk.sound_committed hs hid).setHandle (by rwa [Disk.committed_handles]) hframe.1
      hframe.2.2.2

end Calls

/-- Every event keeps a store sound. -/
theorem Event.sound {d : Disk} (hs : d.store.Sound) (e : Event) : (after e.run d).store.Sound := by
  cases e with
  | call c => exact (callOutcome hs c).sound hs
  | use id c => exact use_sound hs id c

section

variable (now : Nat) (k : Key)

theorem Store.hasDirectory_empty : (Store.empty now).hasDirectory k = decide (k = []) := by
  rw [Store.hasDirectory, Store.empty, get?_singleton]
  split <;> simp_all

theorem Store.get?_stamps_empty : (Store.empty now).stamps.get? k =
    if k = [] then some ⟨Mode.directory + 0o755, now⟩ else none :=
  get?_singleton _ k

/-- Nothing is in a new store but its top. -/
theorem Store.get?_tree_empty : (Store.empty now).tree.get? k =
    if k = [] then some (.directory (Mode.directory + 0o755) now) else none := by
  have hstamp := Store.get?_stamps_empty now k
  have hdir := Store.hasDirectory_empty now k
  by_cases hk : k = []
  · rw [if_pos hk] at hstamp ⊢
    exact Store.get?_tree_of_directory rfl (hdir.trans (decide_eq_true hk)) hstamp
  · rw [if_neg hk] at hstamp ⊢
    exact Store.get?_tree_of_no_stamp hstamp

theorem Store.not_isFile_empty : ¬(Store.empty now).tree.IsFile k := by
  rintro ⟨content, mode, modified, hk⟩
  rw [Store.get?_tree_empty] at hk
  split at hk <;> cases hk

end

/-- A new store is sound. -/
theorem Store.sound_empty (now : Nat) : (Store.empty now).Sound := by
  have hget := Store.get?_tree_empty now
  have hstep : (Store.empty now).InStep := by
    refine ⟨List.nodup_nil, ?_, ?_, ?_, ?_⟩
    · exact List.nodup_singleton ([] : Key)
    · exact List.nodup_singleton ([] : Key)
    · intro k hk
      cases hk
    · intro k
      have hfile : (Store.empty now).hasFile k = false := rfl
      rw [Store.get?_stamps_empty, hfile, Store.hasDirectory_empty]
      split <;> simp_all
  have htyped : (Entry.directory (Mode.directory + 0o755) now).Typed := ⟨0o755, by decide, rfl⟩
  exact ⟨hstep, .of_top hget ⟨_, _, (hget []).trans (if_pos rfl)⟩ htyped, fun h hh => by cases hh⟩

/-- The stores that sequences of calls lead to are sound. -/
theorem Reachable.sound {s : Store} (h : Reachable s) : s.Sound := by
  -- by induction on the calls: clock and supply may be anything, a store's soundness is its own
  induction h with
  | new now => exact Store.sound_empty now
  | step h clock supply e ih => exact Event.sound (d := ⟨_, clock, supply⟩) ih e

/-! ## Nothing is missing -/

/-- An entry that has to be there is missing. -/
def NoEntry (f : Fault) : Prop :=
  ∃ key, f = .noEntry key

section

variable {d e : Disk} {k : Key} {path : String} {flags : OpenFlags} {perm : Int} {f : Fault}

theorem not_noEntry_refused (why : Refusal) (p q : Option String) :
    ¬NoEntry (.refused why p q) := by
  rintro ⟨key, h⟩
  cases h

theorem OpenOutcome.not_noEntry (h : OpenOutcome d k path flags perm (.error f e)) :
    ¬NoEntry f := by
  cases h <;> exact not_noEntry_refused _ _ _

theorem TempOutcome.not_noEntry {directory lead : String}
    (h : TempOutcome d directory lead (.error f e)) : ¬NoEntry f := by
  cases h with
  | blocked hj h => exact not_noEntry_refused _ _ _
  | exhausted hfree hs => exact not_noEntry_refused _ _ _
  | failed hfree hs h => exact h.not_noEntry

theorem eq_error_of_mapResult {α β : Type} {g : α → β} {r : EStateM.Result Fault Disk α}
    (h : mapResult g r = .error f e) : r = .error f e := by
  cases r <;> cases h
  rfl

/-- No call fails because of an entry that has to be there. -/
theorem CallOutcome.not_noEntry {c : Call} {r} (h : CallOutcome d c r) (hr : r = .error f e) :
    ¬NoEntry f := by
  cases h with
  | create h | openRead h | openFile h => exact (eq_error_of_mapResult hr ▸ h).not_noEntry
  | createTemp h => exact (eq_error_of_mapResult hr ▸ h).not_noEntry
  | rename h | remove h | makeDirectories h | stat h | list h =>
    cases h <;> cases hr <;> exact not_noEntry_refused _ _ _

end

theorem not_noEntry_of_use {h : Handle} {c : HandleCall} {f : Fault}
    (hf : (h.use c).1 = .error f) : ¬NoEntry f := by
  rintro ⟨key, rfl⟩
  rcases Handle.isAccess_or_isArgument_of_use hf with h | h <;> cases h

/-- No event fails because of an entry that has to be there. -/
theorem Event.not_noEntry {d d' : Disk} {e : Event} {f : Fault} (hs : d.store.Sound)
    (hrun : e.run.run d = .error f d') : ¬NoEntry f := by
  cases e with
  | call c => exact (callOutcome hs c).not_noEntry hrun
  | use id c =>
    rw [Event.run] at hrun
    cases hid : d.store.handles[id]? with
    | none =>
      rw [run_use_none hid] at hrun
      rintro ⟨key, rfl⟩
      cases hrun
    | some h =>
      rw [run_use hid] at hrun
      cases hu : (h.use c).1 with
      | ok a =>
        rw [hu] at hrun
        cases hrun
      | error f' =>
        rw [hu] at hrun
        cases hrun
        exact not_noEntry_of_use hu

end RootedFS.Memory
