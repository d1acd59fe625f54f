import RootedFS.Proofs.Memory.Sound
import RootedFS.Proofs.Together

/-!
# Stores that differ in one handle

The calls on a store ask nothing of the handles. All that they do to them is to let them follow
their files, each on its own. So a call has the same answer on two stores that differ in one handle
alone, and leaves stores that differ in that handle alone; and so has a call on any other handle.

## Main definitions

* `Trailing`: a relation between handles that is kept when they follow their files
* `Apart`: two disks that differ in one handle

## Main results

* `respects_perform`: a call on the store does not tell them from each other
* `respects_use`: nor does a call on another handle
-/

namespace RootedFS.Memory

variable {α β : Type} {P : Handle → Handle → Prop} {id : Nat} {d : Disk} {h : Handle}

/-- A relation between handles is kept when they follow their files. -/
structure Trailing (P : Handle → Handle → Prop) : Prop where
  detach : ∀ {h h'}, P h h' → ∀ k, P (h.detach k) (h'.detach k)
  follow : ∀ {h h'}, P h h' → ∀ src dst, P (h.follow src dst) (h'.follow src dst)

/-- Two disks are the same but for the handle with a number, and that is related. -/
inductive Apart (id : Nat) (P : Handle → Handle → Prop) : Disk → Disk → Prop
  | intro {d : Disk} {h h' : Handle} (hid : d.store.handles[id]? = some h) (hP : P h h') :
    Apart id P d (d.setHandle id h')

/-! ## Single steps -/

/-- What is told by the disk without its handles is the same on both. -/
theorem respects_get {g : Disk → MemoryM β} (hg : ∀ d h, g (d.setHandle id h) = g d)
    (hr : ∀ d, Respects (Apart id P) (g d)) : Respects (Apart id P) (get >>= g) := by
  refine Respects.get fun d d' hd => ?_
  obtain ⟨hid, hP⟩ := hd
  rw [hg]
  exact hr _ _ _ (.intro hid hP)

theorem respects_hasFile (k : Key) : Respects (Apart id P) (hasFile k) :=
  respects_get (fun _ _ => rfl) fun _ => .pure _

theorem respects_hasDirectory (k : Key) : Respects (Apart id P) (hasDirectory k) :=
  respects_get (fun _ _ => rfl) fun _ => .pure _

theorem respects_contentAt (k : Key) : Respects (Apart id P) (contentAt k) := by
  refine respects_get (fun _ _ => rfl) fun d => ?_
  split
  · exact .pure _
  · exact .throw _

theorem respects_stampAt (k : Key) : Respects (Apart id P) (stampAt k) := by
  refine respects_get (fun _ _ => rfl) fun d => ?_
  split
  · exact .pure _
  · exact .throw _

theorem respects_failMissing (k : Key) (path : String) :
    Respects (Apart id P) (failMissing k path : MemoryM α) :=
  respects_get (fun _ _ => rfl) fun _ => .throw _

theorem respects_tick : Respects (Apart id P) tick := by
  rintro _ _ ⟨hid, hP⟩
  exact .ok (.intro hid hP)

theorem respects_draw : Respects (Apart id P) draw := by
  rintro _ _ ⟨hid, hP⟩
  exact .ok (.intro hid hP)

/-- A change of the store that leaves the handles alone. -/
theorem respects_modifyStore {f : Store → Store} (hhandles : ∀ s, (f s).handles = s.handles)
    (hf : ∀ s l, f { s with handles := l } = { f s with handles := l }) :
    Respects (Apart id P) (modifyStore f) := by
  rintro d _ ⟨hid, hP⟩
  have hswap : ∀ h, (d.setHandle id h).mapStore f = (d.mapStore f).setHandle id h := by
    intro h
    rw [Disk.setHandle, Disk.setHandle, Disk.mapStore, Disk.mapStore_store, hf]
    simp only [Disk.mapStore, hhandles]
  rw [run_modifyStore, run_modifyStore, hswap]
  exact .ok (.intro (by rwa [Disk.mapStore_store, hhandles]) hP)

/-- Every handle changes in a way that keeps the relation. -/
theorem respects_modifyHandles {f : Handle → Handle} (hf : ∀ {h h'}, P h h' → P (f h) (f h')) :
    Respects (Apart id P) (modifyHandles f) := by
  rintro d _ ⟨hid, hP⟩
  have hswap : ∀ h, (d.setHandle id h).mapHandles f = (d.mapHandles f).setHandle id (f h) := by
    intro h
    simp only [Disk.setHandle, Disk.mapHandles, Disk.mapStore, List.map_set]
  rw [run_modifyHandles, run_modifyHandles, hswap]
  exact .ok (.intro (by rw [Disk.mapHandles_handles, List.getElem?_map, hid, Option.map_some])
    (hf hP))

/-- A new handle comes behind those that there are. -/
theorem respects_addHandle (g : Handle) :
    Respects (Apart id P) (modifyStore fun s => { s with handles := s.handles ++ [g] }) := by
  rintro d _ ⟨hid, hP⟩
  have hlt : id < d.store.handles.length := (List.getElem?_eq_some_iff.1 hid).1
  have hswap : ∀ h, (d.setHandle id h).addHandle g = (d.addHandle g).setHandle id h := by
    intro h
    simp only [Disk.setHandle, Disk.addHandle, Disk.mapStore, List.set_append_left _ _ hlt]
  have hrun : ∀ e : Disk, (modifyStore fun s => { s with handles := s.handles ++ [g] }).run e =
      .ok () (e.addHandle g) := fun _ => rfl
  rw [hrun, hrun, hswap]
  exact .ok (.intro (by rw [Disk.addHandle_handles, List.getElem?_append_left hlt, hid]) hP)

theorem respects_putFile (k : Key) (content : Bytes) (mode : Nat) :
    Respects (Apart id P) (putFile k content mode) :=
  respects_tick.bind fun _ => respects_modifyStore (fun _ => rfl) fun _ _ => rfl

theorem respects_commit (k : Key) (content : Bytes) : Respects (Apart id P) (commit k content) :=
  respects_get (fun _ _ => rfl) fun _ => respects_putFile k content _

theorem respects_attach (k : Key) (name : String) (flags : OpenFlags) :
    Respects (Apart id P) (attach k name flags) := by
  refine (respects_contentAt k).bind fun content => respects_get (fun d h => ?_) fun d => ?_
  · simp only [Disk.setHandle_handles, List.length_set]
  · exact (respects_addHandle _).bind fun _ => .pure _

/-! ## Calls -/

theorem respects_makeDirectory (perm : Int) (k : Key) :
    Respects (Apart id P) (makeDirectory perm k) := by
  refine (respects_hasFile k).bind fun file => .when (.throw _) fun _ => ?_
  refine (respects_hasDirectory k).bind fun directory => ?_
  split
  · exact .pure _
  · exact respects_tick.bind fun _ => respects_modifyStore (fun _ => rfl) fun _ _ => rfl

theorem respects_makeDirectoriesAt (k : Key) (perm : Int) :
    Respects (Apart id P) (makeDirectoriesAt k perm) :=
  .forM fun j _ => respects_makeDirectory perm j

theorem respects_openFile (path : String) (flags : OpenFlags) (perm : Int) :
    Respects (Apart id P) (openFile path flags perm) := by
  have hattach : Respects (Apart id P) (attach (Key.resolve path) path flags) :=
    respects_attach _ _ _
  refine (respects_hasDirectory _).bind fun directory => .when (.throw _) fun _ => ?_
  refine (respects_hasFile _).bind fun file => ?_
  split
  · refine .when (.throw _) fun _ => ?_
    exact .when (respects_commit _ _) fun _ => hattach
  · split
    · refine (respects_makeDirectoriesAt _ _).bind fun _ => ?_
      exact (respects_putFile _ _ _).bind fun _ => hattach
    · exact (respects_failMissing _ _).bind fun _ => hattach

theorem respects_firstFree {attempt : Int → MemoryM α}
    (h : ∀ number, Respects (Apart id P) (attempt number)) (n : Nat) :
    Respects (Apart id P) (firstFree attempt n) := by
  induction n with
  | zero => exact .throw _
  | succ n ih =>
    refine respects_draw.bind fun number => (h number).tryCatch fun f => ?_
    split
    · exact ih
    · exact .throw f

theorem respects_createTemp (directory lead : String) :
    Respects (Apart id P) (createTemp directory lead) := by
  refine (respects_makeDirectoriesAt _ _).bind fun _ => ?_
  refine respects_get (fun _ _ => rfl) fun d => respects_firstFree (fun number => ?_) _
  exact (respects_openFile _ _ _).bind fun _ => .pure _

theorem respects_moveFile (k target : Key) : Respects (Apart id P) (moveFile k target) := by
  refine (respects_contentAt k).bind fun content => (respects_stampAt k).bind fun stamp => ?_
  exact respects_modifyStore (fun _ => rfl) fun _ _ => rfl

theorem respects_moveDirectory (k target : Key) :
    Respects (Apart id P) (moveDirectory k target) :=
  (respects_stampAt k).bind fun _ => respects_modifyStore (fun _ => rfl) fun _ _ => rfl

section

variable (hP : Trailing P)
include hP

theorem respects_renameFile (src dst : Key) (target : String) :
    Respects (Apart id P) (renameFile src dst target) := by
  refine (respects_hasDirectory dst).bind fun directory => .when (.throw _) fun _ => ?_
  refine (respects_makeDirectoriesAt _ _).bind fun _ => ?_
  refine (respects_modifyHandles fun h => hP.detach h dst).bind fun _ => ?_
  refine (respects_moveFile src dst).bind fun _ => ?_
  exact respects_modifyHandles fun h => hP.follow h src dst

theorem respects_renameDirectory (src dst : Key) (path target : String) :
    Respects (Apart id P) (renameDirectory src dst path target) := by
  rw [renameDirectory]
  refine .when (.throw _) fun _ => ?_
  refine (respects_hasFile dst).bind fun file => .when (.throw _) fun _ => ?_
  refine .when (.throw _) fun _ => ?_
  have hmove : Respects (Apart id P) (do
      makeDirectoriesAt dst.parent defaultPerm
      let directories := (← get).store.directories.keys.filter (Key.within src)
      directories.forM fun k => moveDirectory k (Tree.rebase src dst k)
      let files := (← get).store.files.keys.filter (Key.within src)
      files.forM fun k => moveFile k (Tree.rebase src dst k)
      modifyHandles (Handle.follow src dst)) := by
    refine (respects_makeDirectoriesAt _ _).bind fun _ => ?_
    refine respects_get (fun _ _ => rfl) fun d => ?_
    refine (Respects.forM fun k _ => respects_moveDirectory k _).bind fun _ => ?_
    refine respects_get (fun _ _ => rfl) fun d => ?_
    refine (Respects.forM fun k _ => respects_moveFile k _).bind fun _ => ?_
    exact respects_modifyHandles fun h => hP.follow h src dst
  refine (respects_hasDirectory dst).bind fun directory => ?_
  dsimp only
  split
  · exact respects_get (fun _ _ => rfl) fun d => .unless (.throw _) fun _ => hmove
  · exact hmove

theorem respects_rename (path target : String) : Respects (Apart id P) (rename path target) := by
  rw [rename]
  split
  · refine (respects_hasFile _).bind fun file => ?_
    split
    · exact respects_renameFile hP _ _ target
    · refine (respects_hasDirectory _).bind fun directory => ?_
      split
      · exact respects_renameDirectory hP _ _ path target
      · exact respects_failMissing _ path
  · exact .pure _

theorem respects_remove (path : String) : Respects (Apart id P) (remove path) := by
  refine (respects_hasFile _).bind fun file => ?_
  split
  · refine (respects_stampAt _).discard.bind fun _ => ?_
    refine Respects.bind (respects_modifyStore (fun _ => rfl) fun _ _ => rfl) fun _ => ?_
    exact respects_modifyHandles fun h => hP.detach h _
  · refine (respects_hasDirectory _).bind fun directory => ?_
    split
    · refine .when (.throw _) fun _ => respects_get (fun _ _ => rfl) fun d => ?_
      refine .unless (.throw _) fun _ => ?_
      refine (respects_stampAt _).discard.bind fun _ => ?_
      exact respects_modifyStore (fun _ => rfl) fun _ _ => rfl
    · exact respects_failMissing _ path

end

theorem respects_info {σ : Type} (k : Key) : Respects (Apart id P) (info (σ := σ) k) :=
  (respects_stampAt k).bind fun _ => respects_get (fun _ _ => rfl) fun _ => .pure _

theorem respects_stat {σ : Type} (path : String) : Respects (Apart id P) (stat (σ := σ) path) := by
  refine (respects_hasFile _).bind fun file => (respects_hasDirectory _).bind fun directory => ?_
  split
  · exact respects_info _
  · exact respects_failMissing _ path

theorem respects_list {σ : Type} (path : String) : Respects (Apart id P) (list (σ := σ) path) := by
  refine (respects_hasFile _).bind fun file => .when (.throw _) fun _ => ?_
  refine (respects_hasDirectory _).bind fun directory => ?_
  split
  · exact respects_get (fun _ _ => rfl) fun d => .mapM fun name _ => respects_info _
  · exact respects_failMissing _ path

/-- A call on the store does not tell two disks from each other that differ in one handle, and
leaves them different in that handle alone. -/
theorem respects_perform (hP : Trailing P) (c : Call) : Respects (Apart id P) (perform c) := by
  cases c with
  | create path => exact (respects_openFile path _ _).bind fun _ => .pure _
  | openRead path => exact (respects_openFile path _ _).bind fun _ => .pure _
  | openFile path flags perm => exact (respects_openFile path flags perm).bind fun _ => .pure _
  | createTemp directory lead => exact (respects_createTemp directory lead).bind fun _ => .pure _
  | rename path target => exact (respects_rename hP path target).bind fun _ => .pure _
  | remove path => exact (respects_remove hP path).bind fun _ => .pure _
  | makeDirectories path perm => exact (respects_makeDirectoriesAt _ perm).bind fun _ => .pure _
  | stat path => exact (respects_stat path).bind fun _ => .pure _
  | list path => exact (respects_list path).bind fun _ => .pure _

theorem Disk.committed_setHandle (d : Disk) (id : Nat) (h g : Handle) (c : HandleCall) :
    (d.setHandle id h).committed g c = (d.committed g c).setHandle id h := by
  unfold Disk.committed
  split
  · split <;> rfl
  · rfl

theorem Disk.setHandle_comm {i j : Nat} (hne : i ≠ j) (d : Disk) (g h : Handle) :
    (d.setHandle i g).setHandle j h = (d.setHandle j h).setHandle i g := by
  simp only [Disk.setHandle, Disk.mapStore, List.set_comm _ _ hne]

/-- A call on another handle does not tell them from each other either. -/
theorem respects_use {i : Nat} (hne : i ≠ id) (c : HandleCall) :
    Respects (Apart id P) (use i c) := by
  rintro d _ ⟨hid, hP⟩
  rename_i h h'
  have hget : (d.setHandle id h').store.handles[i]? = d.store.handles[i]? :=
    List.getElem?_set_ne hne.symm
  cases hi : d.store.handles[i]? with
  | none =>
    rw [run_use_none hi, run_use_none (hget.trans hi)]
    exact .error (.intro hid hP)
  | some g =>
    have hswap : ((d.setHandle id h').committed g c).setHandle i (g.use c).2 =
        ((d.committed g c).setHandle i (g.use c).2).setHandle id h' := by
      rw [Disk.committed_setHandle, Disk.setHandle_comm hne.symm]
    rw [run_use hi, run_use (hget.trans hi), hswap]
    have hid' : ((d.committed g c).setHandle i (g.use c).2).store.handles[id]? = some h := by
      rw [Disk.setHandle_handles, Disk.committed_handles, List.getElem?_set_ne hne, hid]
    cases (g.use c).1 with
    | ok a => exact .ok (.intro hid' hP)
    | error f => exact .error (.intro hid' hP)

end RootedFS.Memory
