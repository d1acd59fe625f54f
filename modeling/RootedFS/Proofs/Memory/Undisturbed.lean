import RootedFS.Proofs.Memory.FailedUse

/-!
# Files under open handles

While a handle is open, other calls are made: on the store, and on other handles. They leave the
handle as it is but for its key, which follows the file. Two kinds of calls can give the file
another content in the meantime: other handles hand on theirs when they are flushed or closed, and a
file is emptied when it is opened so. All others leave the file's content, its mode and its tick.

## Main definitions

* `Stays`, `StaysAt`: a handle and its file are as they were, wherever the file is now
* `Event.overwrites`: the calls that can give a file another content
* `undisturbed`: none of these, among a sequence of calls, has changed the file under a handle

## Main results

* `stays_of_event`: a call of no such kind leaves an open handle and its file as they were
* `Turn.exists_handle`: any call leaves an open handle but for its key, and the content of its file
  if it spares that
-/

namespace RootedFS.Memory

open Tree

variable {s s' : Store} {d : Disk} {h : Handle} {j k : Key} {path : String} {id : Nat}

/-! ## Calls that leave files as they are -/

/-- A handle has another key at most. If it is on a file, the entry there is the one that it was on
before: the content, the mode and the tick are the same. -/
structure Stays (s s' : Store) (h h' : Handle) : Prop where
  handle : ∃ key, h' = { h with key }
  entry : ∀ k', h'.key = some k' → ∃ k, h.key = some k ∧ s'.tree.get? k' = s.tree.get? k

/-- The handle with a number is still there, and it and its file are as they were. -/
def StaysAt (id : Nat) (h : Handle) (s s' : Store) : Prop :=
  ∃ h', s'.handles[id]? = some h' ∧ Stays s s' h h'

/-- A handle has not been touched, nor has its file. -/
theorem staysAt_self (hid : s'.handles[id]? = some h)
    (hentry : ∀ k, h.key = some k → s'.tree.get? k = s.tree.get? k) : StaysAt id h s s' :=
  ⟨h, hid, ⟨h.key, rfl⟩, fun k hk => ⟨k, hk, hentry k hk⟩⟩

namespace Handle

theorem exists_detach (h : Handle) (k : Key) : ∃ key, h.detach k = { h with key } := by
  unfold detach
  split
  · exact ⟨none, rfl⟩
  · exact ⟨h.key, rfl⟩

theorem exists_follow (h : Handle) (src dst : Key) : ∃ key, h.follow src dst = { h with key } := by
  unfold follow
  split
  · exact ⟨h.key, rfl⟩
  · exact ⟨h.key.map (rebase src dst), rfl⟩

end Handle

/-- A handle that was there is there when a file has been opened. -/
theorem OpenOutcome.getElem?_handles {flags : OpenFlags} {perm : Int} {r}
    (hout : OpenOutcome d k path flags perm r) (hid : d.store.handles[id]? = some h) :
    (diskOf r).store.handles[id]? = some h := by
  have hlt : id < d.store.handles.length := (List.getElem?_eq_some_iff.1 hid).1
  cases hout <;> simp [List.getElem?_append_left hlt, hid]

theorem TempOutcome.getElem?_handles {directory lead : String} {r}
    (hout : TempOutcome d directory lead r) (hid : d.store.handles[id]? = some h) :
    (diskOf r).store.handles[id]? = some h := by
  have hdirs : ∀ supply, ((d.addDirectories defaultPerm (Key.resolve directory).steps).withSupply
      supply).store.handles[id]? = some h := by
    intro supply
    rw [Disk.withSupply_store, Disk.addDirectories_handles, hid]
  cases hout with
  | blocked => exact hid
  | exhausted => exact hdirs _
  | failed hfree hsearch hopen | opened hfree hsearch hopen =>
    exact hopen.getElem?_handles (hdirs _)

section

variable (hs : d.store.Sound)
include hs

/-- Opening leaves a file as it is, unless it empties it. -/
theorem OpenOutcome.get?_of_isFile {flags : OpenFlags} {perm : Int} {r}
    (hout : OpenOutcome d k path flags perm r) (ht : (flags.truncate && flags.writable) = false)
    (hj : d.store.tree.IsFile j) : (diskOf r).store.tree.get? j = d.store.tree.get? j := by
  cases hout with
  | directory | present | kept | missing | blocked => rfl
  | emptied _ _ ht' =>
    rw [ht] at ht'
    cases ht'
  | made hnone hc hfree =>
    have hne : j ≠ k := by
      rintro rfl
      exact not_isFile_of_none hnone hj
    have hput := Disk.get?_putFile (d.addDirectories defaultPerm k.parent.steps) k j []
      (Mode.regular + Mode.permissions perm)
    rw [if_neg hne, Disk.get?_addDirectories_of_isSome defaultPerm hs.inStep hj.isSome] at hput
    exact hput

/-- So does creating a file with a free name. -/
theorem TempOutcome.get?_of_isFile {directory lead : String} {r}
    (hout : TempOutcome d directory lead r) (hj : d.store.tree.IsFile j) :
    (diskOf r).store.tree.get? j = d.store.tree.get? j := by
  have hdirs : ∀ supply, ((d.addDirectories defaultPerm (Key.resolve directory).steps).withSupply
      supply).store.tree.get? j = d.store.tree.get? j := by
    intro supply
    rw [Disk.withSupply_store, Disk.get?_addDirectories_of_isSome defaultPerm hs.inStep hj.isSome]
  cases hout with
  | blocked => rfl
  | exhausted => exact hdirs _
  | failed hfree hsearch hopen | opened hfree hsearch hopen =>
    have hkept := hopen.get?_of_isFile (sound_tempDirectory hs hfree _) (by decide)
      ((IsFile.congr (hdirs _)).2 hj)
    exact hkept.trans (hdirs _)

end

/-! ## Calls that move files -/

section

variable (hid : d.store.handles[id]? = some h) (ho : h.closed = false)
include hid ho

theorem Store.Sound.isFile_of_key (hs : d.store.Sound) (hk : h.key = some k) :
    d.store.tree.IsFile k :=
  hs.attached h (List.mem_of_getElem? hid) ho k hk

/-- A file that is moved takes its handles along, and those on a file that it replaces lose it. -/
theorem FileMove.stays {src dst : Key} (hmove : FileMove d src dst) :
    StaysAt id h d.store (((d.mapHandles (Handle.detach dst)).mapStore
      (Store.movedFile src dst)).mapHandles (Handle.follow src dst)).store := by
  have hmoved := hmove.moved
  refine ⟨(h.detach dst).follow src dst, ?_, ?_, ?_⟩
  · simp [hmoved.handles, hid]
  · obtain ⟨key, hkey⟩ := h.exists_detach dst
    obtain ⟨key', hkey'⟩ := (h.detach dst).exists_follow src dst
    exact ⟨key', by rw [hkey', hkey]⟩
  · intro k' hk'
    obtain ⟨hdo, i, hi, rfl⟩ := Handle.key_follow (by simpa using ho) hk'
    obtain ⟨-, hi, hne⟩ := Handle.key_detach hdo hi
    have hfile := hmove.sound.isFile_of_key hid ho hi
    have hget := hmoved.get?_rebase (hmove.movable.not_within_of_isFile hfile hne)
    exact ⟨i, hi, by rw [Disk.mapHandles_tree, Disk.mapStore_store, hget, Disk.mapHandles_tree]⟩

/-- A directory that is moved takes along the handles on all files below it. -/
theorem DirectoryMove.stays {src dst : Key} (hmove : DirectoryMove d src dst) :
    StaysAt id h d.store
      ((d.mapStore (Store.movedAll src dst)).mapHandles (Handle.follow src dst)).store := by
  have hmoved := hmove.moved
  refine ⟨h.follow src dst, ?_, h.exists_follow src dst, ?_⟩
  · simp [hmoved.handles, hid]
  · intro k' hk'
    obtain ⟨-, i, hi, rfl⟩ := Handle.key_follow (by simpa using ho) hk'
    have hfile := hmove.sound.isFile_of_key hid ho hi
    have hne : i ≠ dst := by
      rintro rfl
      exact hmove.free hfile
    have hget := hmoved.get?_rebase (hmove.movable.not_within_of_isFile hfile hne)
    exact ⟨i, hi, by rw [Disk.mapHandles_tree, Disk.mapStore_store, hget]⟩

variable (hs : d.store.Sound)
include hs

/-- Directories that are made first change nothing about a file under a handle. -/
theorem StaysAt.of_addDirectories {perm : Int} {keys : List Key}
    (hstays : StaysAt id h (d.addDirectories perm keys).store s') : StaysAt id h d.store s' := by
  obtain ⟨h', hid', hhandle, hentry⟩ := hstays
  refine ⟨h', hid', hhandle, fun k' hk' => ?_⟩
  obtain ⟨k, hk, hget⟩ := hentry k' hk'
  have hfile := hs.isFile_of_key hid ho hk
  rw [Disk.get?_addDirectories_of_isSome perm hs.inStep hfile.isSome] at hget
  exact ⟨k, hk, hget⟩

theorem RenameOutcome.stays {src dst : Key} {target : String} {r}
    (hnames : ∀ a ∈ dst, Path.IsName a) (hout : RenameOutcome d src dst path target r) :
    StaysAt id h d.store (diskOf r).store := by
  have hid' : (d.addDirectories defaultPerm dst.parent.steps).store.handles[id]? = some h := by
    rw [Disk.addDirectories_handles, hid]
  cases hout with
  | fileMoved hne hsrc hdst hfree =>
    have hstays := (fileMove hs hnames hne hsrc hdst hfree).stays hid' ho
    exact hstays.of_addDirectories hid ho hs
  | directoryMoved hroot hsrc hdst hout hchildren hfree =>
    have hstays := (directoryMove hs hnames hroot hsrc hdst hout hchildren hfree).stays hid' ho
    exact hstays.of_addDirectories hid ho hs
  | _ => exact staysAt_self hid fun _ _ => rfl

theorem RemoveOutcome.stays {r} (hout : RemoveOutcome d k path r) :
    StaysAt id h d.store (diskOf r).store := by
  cases hout with
  | file hfile =>
    refine ⟨h.detach k, by simp [Disk.mapStore, Store.eraseFile, hid], h.exists_detach k, ?_⟩
    intro k' hk'
    obtain ⟨-, hkey, hne⟩ := Handle.key_detach (by simpa using ho) hk'
    exact ⟨k', hkey, (Store.get?_tree_eraseFile d.store k k').trans (if_neg hne)⟩
  | directory hroot hdir hchildren =>
    refine staysAt_self hid fun k' hk' => ?_
    have hne : k' ≠ k := by
      rintro rfl
      exact hdir.not_isFile (hs.isFile_of_key hid ho hk')
    exact (Store.get?_tree_eraseDirectory d.store k k').trans (if_neg hne)
  | root | notEmpty | missing => exact staysAt_self hid fun _ _ => rfl

end

/-! ## All calls -/

/-- Whether an event can give another content to the file that the handle with a number is on:
another handle is flushed or closed, or a file is opened to be emptied. -/
def Event.overwrites (id : Nat) : Event → Bool
  | .call (.create _) => true
  | .call (.openFile _ flags _) => flags.truncate && flags.writable
  | .call _ => false
  | .use i .flush | .use i .close => i != id
  | .use _ _ => false

section

variable (hid : d.store.handles[id]? = some h) (ho : h.closed = false) (hs : d.store.Sound)
include hid ho hs

theorem CallOutcome.stays {c : Call} {r} (hout : CallOutcome d c r)
    (hc : (Event.call c).overwrites id = false) :
    StaysAt id h d.store (diskOf r).store := by
  have hfile : ∀ {k}, h.key = some k → d.store.tree.IsFile k := hs.isFile_of_key hid ho
  cases hout with
  | create => cases hc
  | openRead hout =>
    rw [diskOf_mapResult]
    exact staysAt_self (hout.getElem?_handles hid) fun k hk =>
      hout.get?_of_isFile hs (by decide) (hfile hk)
  | openFile hout =>
    rw [diskOf_mapResult]
    exact staysAt_self (hout.getElem?_handles hid) fun k hk =>
      hout.get?_of_isFile hs hc (hfile hk)
  | createTemp hout =>
    rw [diskOf_mapResult]
    exact staysAt_self (hout.getElem?_handles hid) fun k hk => hout.get?_of_isFile hs (hfile hk)
  | rename hout =>
    rw [diskOf_mapResult]
    exact hout.stays hid ho hs (Path.isName_resolve _)
  | remove hout =>
    rw [diskOf_mapResult]
    exact hout.stays hid ho hs
  | makeDirectories hout =>
    rw [diskOf_mapResult]
    cases hout with
    | blocked => exact staysAt_self hid fun _ _ => rfl
    | made hfree =>
      refine staysAt_self (by simpa using hid) fun k hk => ?_
      exact Disk.get?_addDirectories_of_isSome _ hs.inStep (hfile hk).isSome
  | stat hout | list hout => cases hout <;> exact staysAt_self hid fun _ _ => rfl

omit hid ho hs in
/-- A call on a handle that is neither flushed nor closed leaves all files as they are. -/
theorem tree_use {i : Nat} {c : HandleCall} (hc : ∀ g : Handle, g.commits c = false) :
    (after (use i c) d).store.tree = d.store.tree := by
  cases hi : d.store.handles[i]? with
  | none => rw [after, run_use_none hi, diskOf_error]
  | some g => rw [after_use hi, Disk.setHandle_tree, Disk.committed_of_not_commits (hc g)]

/-- An event that cannot overwrite a file leaves an open handle and its file as they were. -/
theorem stays_of_event {e : Event} (hother : ∀ c, e ≠ .use id c) (he : e.overwrites id = false) :
    StaysAt id h d.store (after e.run d).store := by
  cases e with
  | call c => exact (callOutcome hs c).stays hid ho hs he
  | use i c =>
    have hne : i ≠ id := by
      rintro rfl
      exact hother c rfl
    have hcommits : ∀ g : Handle, g.commits c = false := by
      cases c with
      | flush | close => simp [Event.overwrites, hne] at he
      | read | write | seek | tell | truncate => exact fun _ => rfl
    refine staysAt_self ((getElem?_handles_use hne c).trans hid) fun k _ => ?_
    rw [Event.run, tree_use hcommits]

omit ho in
/-- An event that can overwrite a file leaves the handle itself as it is. -/
theorem getElem?_handles_of_overwrites {e : Event} (hother : ∀ c, e ≠ .use id c)
    (he : e.overwrites id = true) : (after e.run d).store.handles[id]? = some h := by
  cases e with
  | use i c =>
    have hne : i ≠ id := by
      rintro rfl
      exact hother c rfl
    exact (getElem?_handles_use hne c).trans hid
  | call c =>
    have hout := callOutcome hs c
    rw [Event.run, after]
    generalize (perform c).run d = r at hout
    cases hout with
    | create hout | openFile hout =>
      rw [diskOf_mapResult]
      exact hout.getElem?_handles hid
    | _ => cases he

end

/-! ## Sequences of calls -/

/-- Whether a call leaves the content of the file that the handle with a number is on, if it is one
that can give the file another. -/
def Turn.spares (t : Turn) (id : Nat) (s : Store) : Bool :=
  !t.event.overwrites id ||
    ((s.handles[id]?).bind Handle.key).all fun k => (t.next s).files.get? k == s.files.get? k

/-- No call of a sequence that can overwrite a file changes the content of the one that the handle
with a number is on, wherever that is at the time. -/
def undisturbed (id : Nat) (s : Store) : List Turn → Bool
  | [] => true
  | t :: turns => t.spares id s && undisturbed id (t.next s) turns

/-- Where the entry of a file is found again, so is its content. -/
theorem files_get?_of_entry (hs : s.InStep) (hs' : s'.InStep) (hfile : s.tree.IsFile k)
    (hentry : s'.tree.get? j = s.tree.get? k) : s'.files.get? j = s.files.get? k := by
  obtain ⟨content, mode, modified, hget⟩ := hfile
  rw [(hs.get?_of_file hget).1, (hs'.get?_of_file (hentry.trans hget)).1]

/-- A call that is not made on an open handle leaves it as it is but for its key. If it spares the
handle's file, the file that the handle is on afterwards has the content that the one before had. -/
theorem Turn.exists_handle (hs : s.Sound) (hid : s.handles[id]? = some h) (ho : h.closed = false)
    (t : Turn) (hother : ∀ c, t.event ≠ .use id c) :
    ∃ h', (t.next s).handles[id]? = some h' ∧ (∃ key, h' = { h with key }) ∧
      (t.spares id s = true → ∀ k', h'.key = some k' →
        ∃ k, h.key = some k ∧ (t.next s).files.get? k' = s.files.get? k) := by
  cases he : t.event.overwrites id with
  | true =>
    have hid' := getElem?_handles_of_overwrites (d := t.disk s) hid hs hother he
    refine ⟨h, hid', ⟨h.key, rfl⟩, fun hspares k hk => ⟨k, hk, ?_⟩⟩
    simpa [Turn.spares, he, hid, hk] using hspares
  | false =>
    obtain ⟨h', hid', hstays⟩ := stays_of_event (d := t.disk s) hid ho hs hother he
    refine ⟨h', hid', hstays.handle, fun _ k' hk' => ?_⟩
    obtain ⟨k, hk, hentry⟩ := hstays.entry k' hk'
    have hs' : (t.next s).Sound := Event.sound (d := t.disk s) hs t.event
    exact ⟨k, hk, files_get?_of_entry hs.inStep hs'.inStep
      (Store.Sound.isFile_of_key (d := t.disk s) hid ho hs hk) hentry⟩

end RootedFS.Memory
