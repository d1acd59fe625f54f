import RootedFS.Proofs.Memory.Lookup

/-!
# Opening files in memory

What opening a path does is decided by what the tree has there and above, and by the flags. A
directory is never opened. A file is opened unless the flags ask for one that does not exist yet,
and loses its content if they ask for that and allow writing. Where nothing is, a file is made if
the flags ask for one, together with the directories on the way, unless a file stands above. All
else is left as it was: the other entries, and the handles that there were.

## Main definitions

* `Handle.Fresh`: a handle that has just been opened on a file
* `Opened`: a call has opened a file
* `Opening`: what opening a path comes to, case by case

## Main results

* `Reachable.openFile_opening`: on every store that calls lead to, opening comes to the case that
  the tree and the flags tell
-/

namespace RootedFS.Memory

open Tree

variable {s : Store} {d : Disk} {path : String} {flags : OpenFlags} {perm : Int}

/-! ## New handles -/

/-- A handle has just been opened on the file at a key: it has a copy of the content, with its
position at the end if it appends and at the start otherwise, and nothing to hand back. -/
structure Handle.Fresh (h : Handle) (k : Key) (path : String) (flags : OpenFlags)
    (content : Bytes) : Prop where
  onKey : h.key = some k
  named : h.name = path
  access : h.flags = flags
  copy : h.buffer.content = content
  position : h.buffer.position = if flags.append then content.length else 0
  clean : h.dirty = false
  notClosed : h.closed = false

theorem fresh_newHandle (k : Key) (path : String) (flags : OpenFlags) (content : Bytes) :
    (newHandle k path flags content).Fresh k path flags content where
  onKey := rfl
  named := rfl
  access := rfl
  copy := by
    unfold newHandle
    split <;> rfl
  position := by
    unfold newHandle
    split <;> rfl
  clean := rfl
  notClosed := rfl

/-- A call on a disk has opened the file that is at a path afterwards, and has led to another disk.
The handles that there were are as they were; the new one is behind them, and its number has been
returned. -/
structure Opened (d : Disk) (path : String) (flags : OpenFlags)
    (r : EStateM.Result Fault Disk Nat) (d' : Disk) : Prop where
  result : r = .ok d.store.handles.length d'
  handle : ∃ (h : Handle) (content : Bytes), d'.store.handles = d.store.handles ++ [h] ∧
    d'.store.files.get? (Key.resolve path) = some content ∧
    h.Fresh (Key.resolve path) path flags content

/-- A file that is opened once the disk has been prepared for it. -/
theorem opened_addHandle {e : Disk} (hhandles : e.store.handles = d.store.handles)
    {content : Bytes} (hget : e.store.files.get? (Key.resolve path) = some content) :
    Opened d path flags
      (.ok d.store.handles.length (e.addHandle (newHandle (Key.resolve path) path flags content)))
      (e.addHandle (newHandle (Key.resolve path) path flags content)) where
  result := rfl
  handle := by
    refine ⟨_, content, ?_, hget, fresh_newHandle _ path flags content⟩
    rw [Disk.addHandle_handles, hhandles]

/-! ## The cases -/

/-- What opening a path comes to, by what the tree has there and above, and by the flags. -/
structure Opening (d : Disk) (path : String) (flags : OpenFlags) (perm : Int)
    (r : EStateM.Result Fault Disk Nat) : Prop where
  /-- A directory is not opened. -/
  directory : d.store.hasDirectory (Key.resolve path) = true →
    r = .error (.onPath .isDirectory path) d
  /-- A file is refused where one is asked for that does not exist yet. -/
  present : d.store.hasFile (Key.resolve path) = true →
    (flags.create && flags.exclusive) = true → r = .error (.onPath .present path) d
  /-- A file loses its content where that is asked for and writing is allowed; it keeps its mode. -/
  emptied : ∀ content mode modified,
    d.store.tree.get? (Key.resolve path) = some (.file content mode modified) →
    (flags.create && flags.exclusive) = false → (flags.truncate && flags.writable) = true →
    ∃ d', Opened d path flags r d' ∧
      d'.store.tree.get? (Key.resolve path) = some (.file [] mode d.clock) ∧
      ∀ j, j ≠ Key.resolve path → d'.store.tree.get? j = d.store.tree.get? j
  /-- Any other file is opened as it is. -/
  kept : d.store.hasFile (Key.resolve path) = true → (flags.create && flags.exclusive) = false →
    (flags.truncate && flags.writable) = false →
    ∃ d', Opened d path flags r d' ∧ ∀ j, d'.store.tree.get? j = d.store.tree.get? j
  /-- No file is made below a file. -/
  blocked : flags.create = true → d.store.Obstructed (Key.resolve path) →
    ∃ j, Key.within j (Key.resolve path) = true ∧ j ≠ Key.resolve path ∧
      d.store.hasFile j = true ∧ r = .error (.onPath .notDirectory j.toString) d
  /-- Where nothing is, a file is made, and so are the missing directories on the way. -/
  made : d.store.tree.get? (Key.resolve path) = none → flags.create = true →
    ¬d.store.Obstructed (Key.resolve path) →
    ∃ d', Opened d path flags r d' ∧
      (∃ now, d'.store.tree.get? (Key.resolve path) =
        some (.file [] (Mode.regular + Mode.permissions perm) now)) ∧
      (∀ j, Key.within j (Key.resolve path) = true → j ≠ Key.resolve path →
        d.store.tree.get? j = none →
        ∃ now, d'.store.tree.get? j = some (.directory (Mode.directory + 0o755) now)) ∧
      ∀ j, (d.store.tree.get? j).isSome = true ∨ Key.within j (Key.resolve path) = false →
        d'.store.tree.get? j = d.store.tree.get? j
  /-- Where nothing is, nothing is opened unless a file is to be made. -/
  missing : d.store.tree.get? (Key.resolve path) = none → flags.create = false →
    r = .error (.onPath (d.store.missing (Key.resolve path)) path) d

section

variable (hs : d.store.Sound)
include hs

theorem open_emptied {content : Bytes} {mode modified : Nat}
    (hget : d.store.tree.get? (Key.resolve path) = some (.file content mode modified))
    (hx : (flags.create && flags.exclusive) = false)
    (ht : (flags.truncate && flags.writable) = true) :
    ∃ d', Opened d path flags ((openFile path flags perm).run d) d' ∧
      d'.store.tree.get? (Key.resolve path) = some (.file [] mode d.clock) ∧
      ∀ j, j ≠ Key.resolve path → d'.store.tree.get? j = d.store.tree.get? j := by
  have hput := fun j => Disk.get?_putFile d (Key.resolve path) j [] mode
  rw [(OpenOutcome.emptied hget hx ht).run hs]
  refine ⟨_, opened_addHandle (Disk.putFile_handles ..) ?_, ?_, ?_⟩
  · exact (get?_insert ..).trans (if_pos rfl)
  · exact (hput _).trans (if_pos rfl)
  · intro j hj
    exact (hput j).trans (if_neg hj)

theorem open_kept (hfile : d.store.hasFile (Key.resolve path) = true)
    (hx : (flags.create && flags.exclusive) = false)
    (ht : (flags.truncate && flags.writable) = false) :
    ∃ d', Opened d path flags ((openFile path flags perm).run d) d' ∧
      ∀ j, d'.store.tree.get? j = d.store.tree.get? j := by
  obtain ⟨content, mode, modified, hget⟩ := hs.inStep.isFile_tree.2 hfile
  rw [(OpenOutcome.kept hget hx ht).run hs]
  exact ⟨_, opened_addHandle rfl (hs.inStep.get?_of_file hget).1, fun j => rfl⟩

theorem open_blocked (hc : flags.create = true) (h : d.store.Obstructed (Key.resolve path)) :
    ∃ j, Key.within j (Key.resolve path) = true ∧ j ≠ Key.resolve path ∧
      d.store.hasFile j = true ∧
      (openFile path flags perm).run d = .error (.onPath .notDirectory j.toString) d := by
  have hnone := hs.get?_of_obstructed h
  obtain ⟨j, hwithin, hne, hfile⟩ := h
  have htop : j ≠ [] := by
    rintro rfl
    exact hs.tree.root.not_isFile (hs.inStep.isFile_tree.2 hfile)
  have hmem : j ∈ (Key.resolve path).parent.steps := Key.mem_steps_parent.2 ⟨htop, hne, hwithin⟩
  have houtcome : OpenOutcome d (Key.resolve path) path flags perm _ :=
    .blocked hnone hc hmem (hs.inStep.isFile_tree.2 hfile)
  exact ⟨j, hwithin, hne, hfile, houtcome.run hs⟩

theorem open_made (hnone : d.store.tree.get? (Key.resolve path) = none)
    (hc : flags.create = true) (h : ¬d.store.Obstructed (Key.resolve path)) :
    ∃ d', Opened d path flags ((openFile path flags perm).run d) d' ∧
      (∃ now, d'.store.tree.get? (Key.resolve path) =
        some (.file [] (Mode.regular + Mode.permissions perm) now)) ∧
      (∀ j, Key.within j (Key.resolve path) = true → j ≠ Key.resolve path →
        d.store.tree.get? j = none →
        ∃ now, d'.store.tree.get? j = some (.directory (Mode.directory + 0o755) now)) ∧
      ∀ j, (d.store.tree.get? j).isSome = true ∨ Key.within j (Key.resolve path) = false →
        d'.store.tree.get? j = d.store.tree.get? j := by
  have hfree : ∀ j ∈ (Key.resolve path).parent.steps, ¬d.store.tree.IsFile j := by
    intro j hj hfile
    obtain ⟨-, hne, hwithin⟩ := Key.mem_steps_parent.1 hj
    exact h ⟨j, hwithin, hne, hs.inStep.isFile_tree.1 hfile⟩
  rw [(OpenOutcome.made hnone hc hfree).run hs]
  generalize hdirs : d.addDirectories defaultPerm (Key.resolve path).parent.steps = e
  have hput := fun j => Disk.get?_putFile e (Key.resolve path) j []
    (Mode.regular + Mode.permissions perm)
  refine ⟨_, opened_addHandle ?_ ?_, ⟨e.clock, ?_⟩, ?_, ?_⟩
  · rw [Disk.putFile_handles, ← hdirs, Disk.addDirectories_handles]
  · exact (get?_insert ..).trans (if_pos rfl)
  · exact (hput _).trans (if_pos rfl)
  · intro j hwithin hne hj
    obtain ⟨now, hnow⟩ := Disk.get?_addDirectories_above defaultPerm hs.inStep hs.tree.root
      hwithin hne hj
    rw [hdirs] at hnow
    exact ⟨now, (hput j).trans ((if_neg hne).trans hnow)⟩
  · intro j hj
    have hne : j ≠ Key.resolve path := by
      rintro rfl
      simp [hnone, Key.within_self] at hj
    have hother := Disk.get?_addDirectories_other defaultPerm hs.inStep hj
    rw [hdirs] at hother
    exact (hput j).trans ((if_neg hne).trans hother)

end

/-- Whatever calls have been made before, opening a path comes to what the tree and the flags tell,
for any spelling of the path and for any integers as flags and as permissions. -/
theorem Reachable.openFile_opening (hs : Reachable s) (clock : Nat) (supply : Supply)
    (path : String) (flags : OpenFlags) (perm : Int) :
    Opening ⟨s, clock, supply⟩ path flags perm
      ((Memory.openFile path flags perm).run ⟨s, clock, supply⟩) where
  directory h := (OpenOutcome.directory (hs.sound.inStep.isDirectory_tree.2 h)).run hs.sound
  present h hx := (OpenOutcome.present (hs.sound.inStep.isFile_tree.2 h) hx).run hs.sound
  emptied _ _ _ hget hx ht := open_emptied (d := ⟨s, clock, supply⟩) hs.sound hget hx ht
  kept h hx ht := open_kept (d := ⟨s, clock, supply⟩) hs.sound h hx ht
  blocked hc h := open_blocked (d := ⟨s, clock, supply⟩) hs.sound hc h
  made hnone hc h := open_made (d := ⟨s, clock, supply⟩) hs.sound hnone hc h
  missing hnone hc := (OpenOutcome.missing hnone hc).run (d := ⟨s, clock, supply⟩) hs.sound

/-- All flags at once and all permissions, both as the integer `-1`, on a path that goes up and
down: the file is there already, and is refused. -/
theorem Reachable.openFile_opening_all_flags :
    let s := (after (Event.call (.create "a/f")).run ⟨.empty 0, 0, {}⟩).store
    Reachable s ∧
      Opening ⟨s, 7, {}⟩ "b/../a//f" ⟨-1⟩ (-1)
        ((Memory.openFile "b/../a//f" ⟨-1⟩ (-1)).run ⟨s, 7, {}⟩) := by
  intro s
  have hs : Reachable s := .step (.new 0) 0 {} _
  exact ⟨hs, hs.openFile_opening 7 {} "b/../a//f" ⟨-1⟩ (-1)⟩

end RootedFS.Memory
