import RootedFS.Proofs.Memory.Contents

/-!
# What is written in memory is read there

Writing a whole file opens a handle, puts all bytes into its copy of the content, and hands the copy
on when the handle is closed; reading the file opens another handle, which takes its copy from what
the store has by then. Besides the file, writing makes the directories that are missing on the way
to it, and leaves all other entries and all earlier handles alone.

## Main definitions

* `Store.Overwritten`: a store after a file has been written, beside the store before

## Main results

* `OpenOutcome.overwritten`: what writing leaves, in each case in which opening succeeds
* `exists_run_readContent_of_plain`: what has been written to a file in memory is read from it
-/

namespace RootedFS.Memory

open Tree World

variable {w w' : World} {m id : Nat} {s : Store} {d : Disk} {path : String} {k : Key} {data : Bytes}
  {perm : Int}

/-- A store before and after the file at a key has been given a content. -/
structure Store.Overwritten (k : Key) (data : Bytes) (perm : Int) (s s' : Store) : Prop where
  /-- No directory is at the key. -/
  free : ¬s.tree.IsDirectory k
  /-- A file that was there keeps its mode. -/
  kept : ∀ content mode modified, s.tree.get? k = some (.file content mode modified) →
    ∃ now, s'.tree.get? k = some (.file data mode now)
  /-- A file that was not gets the mode that it was given. -/
  made : s.tree.get? k = none →
    ∃ now, s'.tree.get? k = some (.file data (Mode.regular + Mode.permissions perm) now)
  /-- What was missing on the way to the file is made. -/
  way : ∀ j, Key.within j k = true → j ≠ k → s.tree.get? j = none →
    ∃ now, s'.tree.get? j = some (.directory (Mode.directory + 0o755) now)
  /-- All other entries stay as they are. -/
  others : ∀ j, j ≠ k → ((s.tree.get? j).isSome = true ∨ Key.within j k = false) →
    s'.tree.get? j = s.tree.get? j
  /-- All handles stay as they are, and one has been opened and closed. -/
  handles : ∃ h : Handle, h.closed = true ∧ s'.handles = s.handles ++ [h]

/-! ## Writing -/

/-- Writing that succeeds has put all bytes into the buffer of a new handle. -/
theorem write_empty_of_use {a : Answer (Nat × String)}
    (h : ((newHandle k path .overwriting []).use (.write data)).1 = .ok a) :
    (⟨[], 0⟩ : Buffer).write data = .ok (data.length, ⟨data, data.length⟩) := by
  cases hbuffer : (⟨[], 0⟩ : Buffer).write data with
  | ok r => exact congrArg Except.ok (Buffer.eq_of_write_end [] hbuffer)
  | error f =>
    rw [use_write_respond, hbuffer] at h
    cases h

theorem modeAt_putFile (d : Disk) (k : Key) (content : Bytes) (mode : Nat) :
    modeAt (d.putFile k content mode).store k = mode := by
  simp [modeAt, Disk.putFile, Store.putFile]

theorem Disk.get?_overwritten (d : Disk) (id : Nat) (k : Key) (path : String) (data : Bytes)
    (j : Key) : (d.overwritten id k path data).store.tree.get? j =
      if j = k then some (.file data (modeAt d.store k) d.clock) else d.store.tree.get? j :=
  Disk.get?_putFile (d.setHandle id (writtenHandle k path data)) k j data _

/-- Once its file is there, and the way to it, writing leaves what it should. -/
theorem overwritten_of_way {d₁ : Disk} {mode : Nat} (hfree : ¬d.store.tree.IsDirectory k)
    (hhandles : d₁.store.handles = d.store.handles)
    (hkept : ∀ content mode' modified, d.store.tree.get? k = some (.file content mode' modified) →
      mode' = mode)
    (hmade : d.store.tree.get? k = none → mode = Mode.regular + Mode.permissions perm)
    (hway : ∀ j, Key.within j k = true → j ≠ k → d.store.tree.get? j = none →
      ∃ now, d₁.store.tree.get? j = some (.directory (Mode.directory + 0o755) now))
    (hothers : ∀ j, ((d.store.tree.get? j).isSome = true ∨ Key.within j k = false) →
      d₁.store.tree.get? j = d.store.tree.get? j) (g : Handle) :
    Store.Overwritten k data perm d.store
      (((d₁.putFile k [] mode).addHandle g).overwritten d.store.handles.length k path
        data).store := by
  have hget : ∀ j, _ = _ := Disk.get?_overwritten ((d₁.putFile k [] mode).addHandle g)
    d.store.handles.length k path data
  have hmode : modeAt ((d₁.putFile k [] mode).addHandle g).store k = mode :=
    modeAt_putFile d₁ k [] mode
  have hput : ∀ j, j ≠ k → ((d₁.putFile k [] mode).addHandle g).store.tree.get? j =
      d₁.store.tree.get? j := fun j hj => (Disk.get?_putFile d₁ k j [] mode).trans (if_neg hj)
  have hself := (hget k).trans (if_pos rfl)
  rw [hmode] at hself
  refine {
    free := hfree
    kept := ?kept
    made := ?made
    way := ?way
    others := ?others
    handles := ?handles }
  case kept =>
    intro content mode' modified h
    obtain rfl := hkept content mode' modified h
    exact ⟨_, hself⟩
  case made =>
    intro hnone
    obtain rfl := hmade hnone
    exact ⟨_, hself⟩
  case way =>
    intro j hj hne hnone
    obtain ⟨now, hnow⟩ := hway j hj hne hnone
    exact ⟨now, ((hget j).trans (if_neg hne)).trans ((hput j hne).trans hnow)⟩
  case others =>
    intro j hne hor
    exact ((hget j).trans (if_neg hne)).trans ((hput j hne).trans (hothers j hor))
  case handles =>
    refine ⟨{ writtenHandle k path data with dirty := false, closed := true }, rfl, ?_⟩
    simp [Disk.overwritten, hhandles]

/-- What writing leaves, in each case in which opening succeeds. -/
theorem OpenOutcome.overwritten (data : Bytes) (hs : d.store.Sound) {e : Disk}
    (h : OpenOutcome d k path .overwriting perm (.ok id e)) :
    e.store.handles[id]? = some (newHandle k path .overwriting []) ∧
      Store.Overwritten k data perm d.store (e.overwritten id k path data).store := by
  cases h with
  | @emptied content mode modified h hx ht =>
    refine ⟨getElem?_addHandle (d.putFile k [] mode) _, overwritten_of_way ?_ rfl ?_ ?_ ?_ ?_ _⟩
    · exact (isFile_of_get? h).not_isDirectory
    · intro content' mode' modified' h'
      rw [h] at h'
      cases h'
      rfl
    · intro hnone
      rw [h] at hnone
      cases hnone
    · intro j hj hne hnone
      obtain ⟨rest, rfl⟩ := Key.within_iff.1 hj
      have hrest : rest ≠ [] := fun hnil => hne (by rw [hnil, List.append_nil])
      have hsome : (d.store.tree.get? (j ++ rest)).isSome = true := by rw [h]; rfl
      exact absurd (hs.tree.isDirectory_of_append hrest hsome) (not_isDirectory_of_none hnone)
    · exact fun _ _ => rfl
  | kept h hx ht => cases ht
  | made h hc hfree =>
    have hstep := hs.inStep
    have hid := getElem?_addHandle ((d.addDirectories defaultPerm k.parent.steps).putFile k []
      (Mode.regular + Mode.permissions perm)) (newHandle k path .overwriting [])
    rw [Disk.putFile_handles, Disk.addDirectories_handles] at hid
    refine ⟨hid, overwritten_of_way ?_ (Disk.addDirectories_handles _) ?_ ?_ ?_ ?_ _⟩
    · exact not_isDirectory_of_none h
    · intro content' mode' modified' h'
      rw [h] at h'
      cases h'
    · exact fun _ => rfl
    · exact fun j => Disk.get?_addDirectories_above defaultPerm hstep hs.tree.root
    · exact fun j => Disk.get?_addDirectories_other defaultPerm hstep

/-! ## Reading -/

/-- A file in memory is read. -/
theorem exists_run_readContent_of_get? {content : Bytes} {mode modified : Nat}
    (hm : w.stores[m]? = some s) (hs : s.Sound)
    (hk : s.tree.get? (Key.resolve path) = some (.file content mode modified)) :
    ∃ w', ((FileSystem.memory m .plain).readContent path).run w = .ok content w' := by
  have hopen : OpenOutcome (w.disk s) (Key.resolve path) path .reading 0 _ :=
    .kept hk (by decide) (by decide)
  exact ⟨_, run_readContent_plain hm (hopen.run hs) (getElem?_addHandle (w.disk s) _)⟩

/-- What has been written to a file in memory is read from it, and writing has changed nothing but
that file, the directories that were missing on the way to it, and the handles that there are. -/
theorem exists_run_readContent_of_plain (hm : w.stores[m]? = some s) (hs : Reachable s)
    (hwrite : ((FileSystem.memory m .plain).writeContent path data perm).run w = .ok () w') :
    ∃ d, w' = w.putDisk m d ∧ Store.Overwritten (Key.resolve path) data perm s d.store ∧
      ∃ w'', ((FileSystem.memory m .plain).readContent path).run w' = .ok data w'' := by
  obtain ⟨f, w₁, a, w₂, b, hopen, huse, -⟩ := FileSystem.exists_of_run_writeContent hwrite
  obtain ⟨r, hr⟩ := openOutcome (w.disk s) (Key.resolve path) path .overwriting perm
  have hrun := run_openFile_plain hm path .overwriting perm
  rw [hr.run hs.sound, hopen] at hrun
  cases r with
  | error e d => cases hrun
  | ok id d =>
    cases hrun
    obtain ⟨hid, hwritten⟩ := hr.overwritten data hs.sound
    have hd : Reachable d.store := hs.openFile hr
    -- the handle has taken the bytes, since writing them has succeeded
    have hbuffer : (⟨[], 0⟩ : Buffer).write data = .ok (data.length, ⟨data, data.length⟩) := by
      rw [run_use_memory (World.stores_putDisk hm d)] at huse
      have hdisk : (w.putDisk m d).disk d.store = d := rfl
      rw [hdisk, run_use hid] at huse
      cases hanswer : ((newHandle (Key.resolve path) path .overwriting []).use (.write data)).1 with
      | ok a' => exact write_empty_of_use hanswer
      | error e =>
        rw [hanswer] at huse
        cases huse
    have hdone := run_writeContent_plain hm hbuffer (hr.run hs.sound) hid
    obtain ⟨-, rfl⟩ := EStateM.Result.ok.inj (hwrite.symm.trans hdone)
    have hget := (Disk.get?_overwritten d id (Key.resolve path) path data _).trans (if_pos rfl)
    exact ⟨_, rfl, hwritten, exists_run_readContent_of_get? (World.stores_putDisk hm _)
      (hd.overwritten hbuffer hid).sound hget⟩

end RootedFS.Memory
