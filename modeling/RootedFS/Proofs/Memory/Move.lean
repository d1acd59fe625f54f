import RootedFS.Proofs.Memory.Disk

/-!
# Moved entries

Moving takes entries to their new keys one by one: first the directories at and below the source,
then the files. Told by the tree, all of it is one move: what was at and below the source is at and
below the destination, and all else stays.

## Main definitions

* `Store.movedFile`, `Store.movedDirectory`, `Store.movedAll`: the store after a move
* `Store.Moved`: the entries of a store are those of another after a move

## Main results

* `run_moveAll`: moving one by one succeeds and moves everything
* `Store.moved_movedFile`: the entries after a file has been moved
-/

namespace RootedFS.Memory

open Tree

namespace Store

/-- The store with the file at a key taken to another key. -/
def movedFile (k target : Key) (s : Store) : Store :=
  (s.eraseFile k).putFile target ((s.files.get? k).getD []) ((s.stamps.get? k).getD ⟨0, 0⟩)

/-- The store with the directory at a key taken to another key. -/
def movedDirectory (k target : Key) (s : Store) : Store :=
  (s.eraseDirectory k).putDirectory target ((s.stamps.get? k).getD ⟨0, 0⟩)

/-- One entry of a store has been taken to another key. -/
structure Relocated (s s' : Store) (k target : Key) : Prop where
  inStep : s'.InStep
  handles : s'.handles = s.handles
  /-- The entry is at the other key, and not where it was. -/
  get? : ∀ j, s'.tree.get? j =
    if j = target then s.tree.get? k else if j = k then none else s.tree.get? j

/-- What stood at and below `src` has been taken to `dst`. -/
structure Moved (s s' : Store) (src dst : Key) : Prop where
  inStep : s'.InStep
  handles : s'.handles = s.handles
  /-- The entries are at and below the destination. -/
  target : ∀ rest, s'.tree.get? (dst ++ rest) = s.tree.get? (src ++ rest)
  /-- Nothing is left behind, and all else is as it was. -/
  other : ∀ j, Key.within dst j = false →
    s'.tree.get? j = if Key.within src j then none else s.tree.get? j

variable {s : Store} {k target src dst : Key}

theorem relocated_movedFile (hs : s.InStep) (hk : s.tree.IsFile k)
    (ht : ¬s.tree.IsDirectory target) : Relocated s (s.movedFile k target) k target := by
  have hfile := hs.isFile_tree.1 hk
  have hd : (s.eraseFile k).hasDirectory target = false := by
    rw [hs.isDirectory_tree, Bool.not_eq_true] at ht
    exact ht
  obtain ⟨content, stamp, hcontent, hstamp, hget⟩ := hs.file_of_hasFile hfile
  refine ⟨(hs.eraseFile hfile).putFile hd _ _, rfl, ?_⟩
  intro j
  rw [movedFile, get?_tree_putFile, get?_tree_eraseFile, hcontent, hstamp, hget]
  rfl

theorem relocated_movedDirectory (hs : s.InStep) (hk : s.tree.IsDirectory k)
    (ht : ¬s.tree.IsFile target) : Relocated s (s.movedDirectory k target) k target := by
  have hdir := hs.isDirectory_tree.1 hk
  have hf : s.hasFile k = false := by
    rw [← Bool.not_eq_true, ← hs.isFile_tree]
    exact hk.not_isFile
  have htf : (s.eraseDirectory k).hasFile target = false := by
    rw [hs.isFile_tree, Bool.not_eq_true] at ht
    exact ht
  obtain ⟨stamp, hstamp, hget⟩ := hs.directory_of_hasDirectory hdir
  refine ⟨(hs.eraseDirectory hf).putDirectory htf _, rfl, ?_⟩
  intro j
  rw [movedDirectory, get?_tree_putDirectory htf, get?_tree_eraseDirectory, hstamp, hget]
  rfl

end Store

theorem run_moveFile {d : Disk} {k : Key} (hs : d.store.InStep) (hk : d.store.tree.IsFile k)
    (target : Key) :
    (moveFile k target).run d = .ok () (d.mapStore (Store.movedFile k target)) := by
  obtain ⟨content, stamp, hcontent, hstamp, -⟩ := hs.file_of_hasFile (hs.isFile_tree.1 hk)
  rw [moveFile, run_bind_ok (run_contentAt hcontent), run_bind_ok (run_stampAt hstamp),
    run_modifyStore, Disk.mapStore, Disk.mapStore, Store.movedFile, hcontent, hstamp]
  rfl

/-- Which handles there are makes no difference. -/
theorem run_moveFile_mapHandles {d : Disk} {k : Key} (hs : d.store.InStep)
    (hk : d.store.tree.IsFile k) (f : Handle → Handle) (target : Key) :
    (moveFile k target).run (d.mapHandles f) =
      .ok () ((d.mapHandles f).mapStore (Store.movedFile k target)) := by
  have hs' : (d.mapHandles f).store.InStep := hs.withHandles (d.store.handles.map f)
  have hk' : (d.mapHandles f).store.tree.IsFile k := hk
  exact run_moveFile hs' hk' target

theorem run_moveDirectory {d : Disk} {k : Key} (hs : d.store.InStep)
    (hk : d.store.tree.IsDirectory k) (target : Key) :
    (moveDirectory k target).run d = .ok () (d.mapStore (Store.movedDirectory k target)) := by
  obtain ⟨stamp, hstamp, -⟩ := hs.directory_of_hasDirectory (hs.isDirectory_tree.1 hk)
  rw [moveDirectory, run_bind_ok (run_stampAt hstamp), run_modifyStore, Disk.mapStore,
    Disk.mapStore, Store.movedDirectory, hstamp]
  rfl

/-! ## One by one -/

/-- The entries at the keys `ks`, all of them at or below `src`, have been taken to `dst`. -/
structure Store.MovedKeys (s s' : Store) (src dst : Key) (ks : List Key) : Prop where
  inStep : s'.InStep
  handles : s'.handles = s.handles
  /-- The entries are where their keys lead from the destination. -/
  target : ∀ rest, s'.tree.get? (dst ++ rest) =
    if src ++ rest ∈ ks then s.tree.get? (src ++ rest) else s.tree.get? (dst ++ rest)
  /-- They are not where they were. -/
  other : ∀ j, Key.within dst j = false →
    s'.tree.get? j = if j ∈ ks then none else s.tree.get? j

/-- Away from the two keys nothing changes. -/
theorem Store.Relocated.get?_of_ne {s s' : Store} {j k k' : Key} (h : Relocated s s' k k')
    (hk : j ≠ k) (hk' : j ≠ k') : s'.tree.get? j = s.tree.get? j := by
  rw [h.get?, if_neg hk', if_neg hk]

/-- One more entry has been taken along, before the others. -/
theorem Store.MovedKeys.cons {s s₁ s' : Store} {src dst r : Key} {ks : List Key}
    (hout : Key.within src dst = false) (hout' : Key.within dst src = false)
    (hk : src ++ r ∉ ks) (hstep : Relocated s s₁ (src ++ r) (dst ++ r))
    (hmoved : MovedKeys s₁ s' src dst ks) : MovedKeys s s' src dst ((src ++ r) :: ks) := by
  have hne : ∀ x y, src ++ x ≠ dst ++ y := Key.append_ne_append hout hout'
  refine ⟨hmoved.inStep, hmoved.handles.trans hstep.handles, ?_, ?_⟩
  · intro rest
    rw [hmoved.target]
    by_cases hmem : src ++ rest ∈ ks
    · have hrr : src ++ rest ≠ src ++ r := fun heq => hk (heq ▸ hmem)
      rw [if_pos hmem, if_pos (List.mem_cons_of_mem _ hmem), hstep.get?_of_ne hrr (hne rest r)]
    · rw [if_neg hmem, hstep.get?, if_neg (hne r rest).symm]
      by_cases hrr : rest = r
      · simp [hrr]
      · simp [hrr, hmem]
  · intro j hj
    have hjr : j ≠ dst ++ r := by
      rintro rfl
      simp at hj
    rw [hmoved.other j hj, hstep.get?, if_neg hjr]
    by_cases hmem : j ∈ ks
    · rw [if_pos hmem, if_pos (List.mem_cons_of_mem _ hmem)]
    · simp [hmem]

section Loop

variable {src dst : Key} (act : Key → Key → MemoryM Unit) (move : Key → Key → Store → Store)
  (source target : Option Entry → Prop)

/-- Taking entries of one kind to another place one by one: each step finds its entry where it was,
and at its destination nothing that an earlier step has put there. -/
theorem run_forM_move
    (hact : ∀ (d : Disk) k k', d.store.InStep → source (d.store.tree.get? k) →
      (act k k').run d = .ok () (d.mapStore (move k k')))
    (hmove : ∀ (s : Store) k k', s.InStep → source (s.tree.get? k) → target (s.tree.get? k') →
      Store.Relocated s (move k k' s) k k')
    (hout : Key.within src dst = false) (hout' : Key.within dst src = false) {ks : List Key}
    {d : Disk} (hs : d.store.InStep) (hnodup : ks.Nodup)
    (hsource : ∀ k ∈ ks, Key.within src k = true ∧ source (d.store.tree.get? k))
    (htarget : ∀ rest, src ++ rest ∈ ks → target (d.store.tree.get? (dst ++ rest))) :
    ∃ s', s' = ks.foldl (fun s k => move k (rebase src dst k) s) d.store ∧
      (ks.forM fun k => act k (rebase src dst k)).run d = .ok () (d.mapStore fun _ => s') ∧
      Store.MovedKeys d.store s' src dst ks := by
  -- by induction on the keys, from any disk: what remains to be taken is as the loop found it
  induction ks generalizing d with
  | nil =>
    exact ⟨_, rfl, rfl, hs, rfl, fun rest => by simp, fun j _ => by simp⟩
  | cons k ks ih =>
    obtain ⟨hk, hks⟩ := List.nodup_cons.1 hnodup
    obtain ⟨hwithin, hentry⟩ := hsource k List.mem_cons_self
    obtain ⟨r, rfl⟩ := Key.within_iff.1 hwithin
    have hne : ∀ x y, src ++ x ≠ dst ++ y := Key.append_ne_append hout hout'
    have hstep := hmove d.store (src ++ r) (dst ++ r) hs hentry (htarget r List.mem_cons_self)
    have hsource' : ∀ k' ∈ ks, Key.within src k' = true ∧
        source ((move (src ++ r) (dst ++ r) d.store).tree.get? k') := by
      intro k' hk'
      obtain ⟨hw, he⟩ := hsource k' (List.mem_cons_of_mem _ hk')
      obtain ⟨rest, rfl⟩ := Key.within_iff.1 hw
      have hrr : src ++ rest ≠ src ++ r := fun heq => hk (heq ▸ hk')
      rw [hstep.get?_of_ne hrr (hne rest r)]
      exact ⟨hw, he⟩
    have htarget' : ∀ rest, src ++ rest ∈ ks →
        target ((move (src ++ r) (dst ++ r) d.store).tree.get? (dst ++ rest)) := by
      intro rest hrest
      have hrr : dst ++ rest ≠ dst ++ r := fun heq => hk (List.append_cancel_left heq ▸ hrest)
      rw [hstep.get?_of_ne (hne r rest).symm hrr]
      exact htarget rest (List.mem_cons_of_mem _ hrest)
    obtain ⟨s', hs', hrun, hmoved⟩ := @ih (d.mapStore (move (src ++ r) (dst ++ r)))
      hstep.inStep hks hsource' htarget'
    refine ⟨s', ?_, ?_, hmoved.cons hout hout' hk hstep⟩
    · rw [hs', List.foldl_cons, rebase_append]
      rfl
    · rw [List.forM_eq_forM, List.forM_cons, rebase_append,
        run_bind_ok (hact d (src ++ r) (dst ++ r) hs hentry)]
      exact hrun

end Loop

namespace Store

/-- The store after everything at and below a directory has been taken to another place. -/
def movedAll (src dst : Key) (s : Store) : Store :=
  let s' := (s.directories.keys.filter (Key.within src)).foldl
    (fun s k => s.movedDirectory k (rebase src dst k)) s
  (s'.files.keys.filter (Key.within src)).foldl
    (fun s k => s.movedFile k (rebase src dst k)) s'

/-- Handles are left as they are. -/
theorem movedAll_handles (src dst : Key) (s : Store) :
    (s.movedAll src dst).handles = s.handles := by
  have hfold : ∀ (f : Store → Key → Store) (l : List Key) (s : Store),
      (∀ s k, (f s k).handles = s.handles) → (l.foldl f s).handles = s.handles := fun f l s hf =>
    List.foldlRecOn l f (motive := fun s' => s'.handles = s.handles) rfl
      fun s' hs k _ => (hf s' k).trans hs
  rw [movedAll, hfold, hfold]
  · exact fun s k => rfl
  · exact fun s k => rfl

end Store

/-- Takes everything at and below a directory to another place. -/
def moveAll (src dst : Key) : MemoryM Unit := do
  let directories := (← get).store.directories.keys.filter (Key.within src)
  directories.forM fun k => moveDirectory k (rebase src dst k)
  let files := (← get).store.files.keys.filter (Key.within src)
  files.forM fun k => moveFile k (rebase src dst k)

section All

variable {s s₁ s₂ : Store} {d : Disk} {src dst k : Key}

theorem mem_directories_within (hs : s.InStep) :
    k ∈ s.directories.keys.filter (Key.within src) ↔
      s.tree.IsDirectory k ∧ Key.within src k = true := by
  rw [List.mem_filter, mem_keys, hs.isDirectory_tree]
  rfl

theorem mem_files_within (hs : s.InStep) :
    k ∈ s.files.keys.filter (Key.within src) ↔ s.tree.IsFile k ∧ Key.within src k = true := by
  rw [List.mem_filter, mem_keys, hs.isFile_tree]
  rfl

/-- The first pass takes the directories, top first. -/
theorem run_moveDirectories (hs : d.store.InStep) (hm : d.store.tree.Movable src dst)
    (hdst : ¬d.store.tree.IsFile dst) :
    ∃ s₁, s₁ = (d.store.directories.keys.filter (Key.within src)).foldl
        (fun s k => s.movedDirectory k (rebase src dst k)) d.store ∧
      ((d.store.directories.keys.filter (Key.within src)).forM fun k =>
        moveDirectory k (rebase src dst k)).run d = .ok () (d.mapStore fun _ => s₁) ∧
      Store.MovedKeys d.store s₁ src dst (d.store.directories.keys.filter (Key.within src)) := by
  have hfree : ∀ rest, ¬d.store.tree.IsFile (dst ++ rest) := by
    intro rest
    by_cases hrest : rest = []
    · rwa [hrest, List.append_nil]
    · exact not_isFile_of_none (hm.below rest hrest)
  exact run_forM_move moveDirectory Store.movedDirectory
    (fun e => ∃ mode modified, e = some (.directory mode modified))
    (fun e => ¬∃ content mode modified, e = some (.file content mode modified))
    (fun d k k' hs hk => run_moveDirectory hs hk k')
    (fun s k k' hs hk hk' => Store.relocated_movedDirectory hs hk hk') hm.out hm.not_within hs
    (hs.nodup_directories.filter _) (fun k hk => ((mem_directories_within hs).1 hk).symm)
    (fun rest _ => hfree rest)

section

variable (hs : s.InStep) (hm : s.tree.Movable src dst)
  (h₁ : Store.MovedKeys s s₁ src dst (s.directories.keys.filter (Key.within src)))
include hs hm h₁

/-- After the first pass the files below the source are still where they were. -/
theorem get?_of_isFile (hf : s.tree.IsFile (src ++ k)) :
    s₁.tree.get? (src ++ k) = s.tree.get? (src ++ k) := by
  rw [h₁.other _ (Key.within_append_of_not_within hm.out hm.not_within k), if_neg]
  intro hk
  exact hf.not_isDirectory ((mem_directories_within hs).1 hk).1

/-- After the first pass there are no others. -/
theorem mem_files_after :
    src ++ k ∈ s₁.files.keys.filter (Key.within src) ↔ s.tree.IsFile (src ++ k) := by
  rw [mem_files_within h₁.inStep, and_iff_left (Key.within_append src k)]
  constructor
  · rintro ⟨content, mode, modified, hget⟩
    rw [h₁.other _ (Key.within_append_of_not_within hm.out hm.not_within k)] at hget
    split at hget
    · cases hget
    · exact ⟨content, mode, modified, hget⟩
  · intro hf
    exact (IsFile.congr (get?_of_isFile hs hm h₁ hf)).2 hf

/-- The second pass takes the files. -/
theorem run_moveFiles {d : Disk} (hd : d.store = s₁) (hsrc : s.tree.IsDirectory src) :
    ∃ s₂, s₂ = (s₁.files.keys.filter (Key.within src)).foldl
        (fun s k => s.movedFile k (rebase src dst k)) s₁ ∧
      ((s₁.files.keys.filter (Key.within src)).forM fun k =>
        moveFile k (rebase src dst k)).run d = .ok () (d.mapStore fun _ => s₂) ∧
      Store.MovedKeys s₁ s₂ src dst (s₁.files.keys.filter (Key.within src)) := by
  subst hd
  have hsource : ∀ k ∈ d.store.files.keys.filter (Key.within src),
      Key.within src k = true ∧ d.store.tree.IsFile k := by
    intro k hk
    exact ((mem_files_within h₁.inStep).1 hk).symm
  -- where a file goes, the first pass has put nothing: it would have come from the same place
  have htarget : ∀ rest, src ++ rest ∈ d.store.files.keys.filter (Key.within src) →
      ¬d.store.tree.IsDirectory (dst ++ rest) := by
    intro rest hrest
    have hf := (mem_files_after hs hm h₁).1 hrest
    have hne : rest ≠ [] := by
      rintro rfl
      rw [List.append_nil] at hf
      exact hf.not_isDirectory hsrc
    apply not_isDirectory_of_none
    rw [h₁.target, if_neg, hm.below rest hne]
    intro hk
    exact hf.not_isDirectory ((mem_directories_within hs).1 hk).1
  exact run_forM_move moveFile Store.movedFile
    (fun e => ∃ content mode modified, e = some (.file content mode modified))
    (fun e => ¬∃ mode modified, e = some (.directory mode modified))
    (fun d k k' hs hk => run_moveFile hs hk k')
    (fun s k k' hs hk hk' => Store.relocated_movedFile hs hk hk') hm.out hm.not_within
    h₁.inStep (h₁.inStep.nodup_files.filter _) hsource htarget

/-- After both passes all is at the destination, and nothing is left. -/
theorem moved_of_movedKeys (hsrc : s.tree.IsDirectory src)
    (h₂ : Store.MovedKeys s₁ s₂ src dst (s₁.files.keys.filter (Key.within src))) :
    Store.Moved s s₂ src dst := by
  have hfiles := fun rest => mem_files_after (k := rest) hs hm h₁
  have hdirs : ∀ k, k ∈ s.directories.keys.filter (Key.within src) ↔
      s.tree.IsDirectory k ∧ Key.within src k = true := fun k => mem_directories_within hs
  have hnone : ∀ rest, ¬s.tree.IsFile (src ++ rest) → ¬s.tree.IsDirectory (src ++ rest) →
      s.tree.get? (src ++ rest) = none := by
    intro rest hf hd
    rw [← Option.not_isSome_iff_eq_none]
    exact fun hsome => (isFile_or_isDirectory hsome).elim hf hd
  refine ⟨h₂.inStep, h₂.handles.trans h₁.handles, ?_, ?_⟩
  · intro rest
    rw [h₂.target]
    by_cases hf : s.tree.IsFile (src ++ rest)
    · rw [if_pos ((hfiles rest).2 hf), get?_of_isFile hs hm h₁ hf]
    rw [if_neg (mt (hfiles rest).1 hf), h₁.target]
    by_cases hd : s.tree.IsDirectory (src ++ rest)
    · rw [if_pos ((hdirs _).2 ⟨hd, Key.within_append src rest⟩)]
    · have hne : rest ≠ [] := by
        rintro rfl
        rw [List.append_nil] at hd
        exact hd hsrc
      rw [if_neg fun hk => hd ((hdirs _).1 hk).1, hnone rest hf hd, hm.below rest hne]
  · intro j hj
    rw [h₂.other j hj, h₁.other j hj]
    cases hw : Key.within src j with
    | false => simp [hw]
    | true =>
      obtain ⟨rest, rfl⟩ := Key.within_iff.1 hw
      by_cases hf : s.tree.IsFile (src ++ rest)
      · rw [if_pos ((hfiles rest).2 hf), if_pos rfl]
      rw [if_neg (mt (hfiles rest).1 hf), if_pos rfl]
      by_cases hd : s.tree.IsDirectory (src ++ rest)
      · rw [if_pos ((hdirs _).2 ⟨hd, hw⟩)]
      · rw [if_neg fun hk => hd ((hdirs _).1 hk).1, hnone rest hf hd]

end

/-- Everything at and below a directory can be taken to a place where there is no file and nothing
below. -/
theorem run_moveAll (hs : d.store.InStep) (hm : d.store.tree.Movable src dst)
    (hsrc : d.store.tree.IsDirectory src) (hdst : ¬d.store.tree.IsFile dst) :
    (moveAll src dst).run d = .ok () (d.mapStore (Store.movedAll src dst)) ∧
      Store.Moved d.store (d.store.movedAll src dst) src dst := by
  obtain ⟨s₁, hs₁, hrun₁, h₁⟩ := run_moveDirectories hs hm hdst
  obtain ⟨s₂, hs₂, hrun₂, h₂⟩ := run_moveFiles hs hm h₁ (d := d.mapStore fun _ => s₁) rfl hsrc
  have hall : d.store.movedAll src dst = s₂ := by
    rw [hs₂, Store.movedAll, ← hs₁]
  constructor
  · have hrun : (moveAll src dst).run d = .ok () (d.mapStore fun _ => s₂) := by
      rw [moveAll, run_bind_ok (EStateM.run_get d), run_bind_ok hrun₁,
        run_bind_ok (EStateM.run_get _)]
      exact hrun₂
    rw [hrun, ← hall]
    rfl
  · rw [hall]
    exact moved_of_movedKeys hs hm h₁ hsrc h₂

end All

/-- A file can be taken to a place where there is no directory. -/
theorem Store.moved_movedFile {s : Store} {src dst : Key} (hs : s.InStep) (ht : s.tree.Sound)
    (hm : s.tree.Movable src dst) (hsrc : s.tree.IsFile src) (hdst : ¬s.tree.IsDirectory dst) :
    Moved s (s.movedFile src dst) src dst := by
  obtain ⟨hstep, hhandles, hget⟩ := relocated_movedFile hs hsrc hdst
  refine ⟨hstep, hhandles, ?_, ?_⟩
  · intro rest
    rw [hget]
    by_cases hrest : rest = []
    · simp [hrest]
    · rw [if_neg (by simpa using hrest), hm.below rest hrest,
        ht.get?_append_eq_none hsrc.not_isDirectory hrest]
      split <;> rfl
  · intro j hj
    have hne : j ≠ dst := by
      rintro rfl
      simp at hj
    rw [hget, if_neg hne]
    by_cases hj' : j = src
    · rw [if_pos hj', hj', Key.within_self, if_pos rfl]
    rw [if_neg hj']
    cases hw : Key.within src j with
    | false => rfl
    | true =>
      obtain ⟨rest, rfl⟩ := Key.within_iff.1 hw
      have hrest : rest ≠ [] := fun hnil => hj' (by rw [hnil, List.append_nil])
      exact ht.get?_append_eq_none hsrc.not_isDirectory hrest

/-- What is away from the destination is found where a move takes it. -/
theorem Store.Moved.get?_rebase {s s' : Store} {src dst k : Key}
    (hmoved : Store.Moved s s' src dst) (hdst : Key.within dst k = false) :
    s'.tree.get? (rebase src dst k) = s.tree.get? k := by
  cases hw : Key.within src k with
  | true =>
    obtain ⟨rest, rfl⟩ := Key.within_iff.1 hw
    rw [rebase_append]
    exact hmoved.target rest
  | false =>
    rw [rebase_of_below?_eq_none (Key.within_eq_false_iff.1 hw)]
    have hget := hmoved.other k hdst
    rwa [hw] at hget

end RootedFS.Memory
