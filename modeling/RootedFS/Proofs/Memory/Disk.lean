import RootedFS.Memory.Basic
import RootedFS.Memory.Handle
import RootedFS.Proofs.Memory.Store

/-!
# Changes of a disk

What computations do to a disk, as functions of the disk: files and directories are put with the
present tick, handles are added and replaced. The primitive computations are told by these
functions, and so is the making of directories on the way to a key.

## Main definitions

* `Disk.mapStore`, `Disk.mapHandles`, `Disk.putFile`, `Disk.addHandle`, `Disk.setHandle`
* `Disk.addDirectories`: missing directories made one after another
* `Store.Sound`: a store in step with a sound tree, and open handles on nothing but files

## Main results

* `makeDirectoriesAt_of_not_isFile`, `makeDirectoriesAt_of_isFile`: making directories makes all
  that are missing, or nothing
* `Disk.get?_addDirectories_of_isSome`, `Disk.get?_addDirectories_of_mem`: what is found then
* `Disk.sound_addDirectories`: the store stays sound
-/

namespace RootedFS.Memory

open Tree

variable {α β : Type}

/-! ## Outcomes -/

/-- Whether a computation has succeeded with an answer, and in a state, that pass a check. -/
def succeeds {ε σ : Type} (p : α → σ → Bool) : EStateM.Result ε σ α → Bool
  | .ok a s => p a s
  | .error .. => false

theorem exists_of_succeeds {ε σ : Type} {p : α → σ → Bool} {r : EStateM.Result ε σ α}
    (h : succeeds p r = true) : ∃ a s, r = .ok a s ∧ p a s = true := by
  cases r with
  | ok a s => exact ⟨a, s, rfl, h⟩
  | error e s => cases h

/-- Whether a computation has failed in some way. -/
def failsWith {σ : Type} (f : Fault) : EStateM.Result Fault σ α → Bool
  | .ok .. => false
  | .error g _ => g = f

theorem exists_of_failsWith {σ : Type} {f : Fault} {r : EStateM.Result Fault σ α}
    (h : failsWith f r = true) : ∃ s, r = .error f s := by
  cases r with
  | ok a s => cases h
  | error g s => exact ⟨s, by rw [of_decide_eq_true h]⟩

/-! ## Computations run on a disk -/

@[simp] theorem run_fail (f : Fault) (d : Disk) :
    (throw f : MemoryM α).run d = .error f d := rfl

@[simp] theorem run_map (f : α → β) (x : MemoryM α) (d : Disk) :
    (f <$> x).run d =
      match x.run d with
      | .ok a e => .ok (f a) e
      | .error err e => .error err e := by
  have hmap : (f <$> x).run d = EStateM.map f x d := rfl
  rw [hmap, EStateM.map, EStateM.run]
  cases x d <;> rfl

@[simp] theorem run_discard (x : MemoryM α) (d : Disk) :
    (discard x).run d =
      match x.run d with
      | .ok _ e => .ok () e
      | .error err e => .error err e :=
  run_map (Function.const α ()) x d

/-- A computation whose answer is left out goes on to nothing. -/
theorem discard_eq_bind {ε σ : Type} (x : EStateM ε σ α) :
    discard x = x >>= fun _ => pure PUnit.unit := by
  rw [Functor.discard, LawfulFunctor.map_const, Function.comp_apply, map_eq_pure_bind]

/-- After a computation that succeeds, the rest goes on from where it ended. -/
theorem run_bind_ok {ε σ : Type} {x : EStateM ε σ α} {f : α → EStateM ε σ β} {d e : σ} {a : α}
    (h : x.run d = .ok a e) : (x >>= f).run d = (f a).run e := by
  rw [EStateM.run_bind, h]

/-- After a computation that fails, the rest is not run. -/
theorem run_bind_error {σ : Type} {x : EStateM Fault σ α} {f : α → EStateM Fault σ β} {d e : σ}
    {err : Fault}
    (h : x.run d = .error err e) : (x >>= f).run d = .error err e := by
  rw [EStateM.run_bind, h]

/-- What succeeds after a computation goes on from where that has succeeded. -/
theorem exists_of_run_bind {σ : Type} {x : EStateM Fault σ α} {f : α → EStateM Fault σ β} {d e : σ}
    {b : β} (h : (x >>= f).run d = .ok b e) :
    ∃ a d', x.run d = .ok a d' ∧ (f a).run d' = .ok b e := by
  cases hx : x.run d with
  | ok a d' => exact ⟨a, d', rfl, (run_bind_ok hx).symm.trans h⟩
  | error err d' =>
    rw [run_bind_error hx] at h
    cases h

/-- What handles a failure goes on from where the failure left the state. -/
theorem run_tryCatch {ε σ : Type} (x : EStateM ε σ α) (handler : ε → EStateM ε σ α) (d : σ) :
    (tryCatch x handler).run d =
      match x.run d with
      | .ok a e => .ok a e
      | .error f e => (handler f).run e := by
  have htry : (tryCatch x handler).run d = EStateM.tryCatch x handler d := rfl
  rw [htry, EStateM.tryCatch, EStateM.run]
  cases x d <;> rfl

namespace Disk

/-- The disk with its store changed. -/
def mapStore (f : Store → Store) (d : Disk) : Disk :=
  { d with store := f d.store }

/-- The disk with every handle changed. -/
def mapHandles (f : Handle → Handle) (d : Disk) : Disk :=
  d.mapStore fun s => { s with handles := s.handles.map f }

/-- The disk with a file that gets the present tick. -/
def putFile (k : Key) (content : Bytes) (mode : Nat) (d : Disk) : Disk :=
  { d.mapStore (·.putFile k content ⟨mode, d.clock⟩) with clock := d.clock + 1 }

/-- The disk with a directory that gets the present tick. -/
def putDirectory (k : Key) (perm : Int) (d : Disk) : Disk :=
  { d.mapStore (·.putDirectory k ⟨Mode.directory + Mode.permissions perm, d.clock⟩) with
    clock := d.clock + 1 }

/-- The disk with one more handle. -/
def addHandle (h : Handle) (d : Disk) : Disk :=
  d.mapStore fun s => { s with handles := s.handles ++ [h] }

/-- The disk with a handle replaced. -/
def setHandle (id : Nat) (h : Handle) (d : Disk) : Disk :=
  d.mapStore fun s => { s with handles := s.handles.set id h }

/-- The disk with another supply of numbers. -/
def withSupply (s : Supply) (d : Disk) : Disk :=
  { d with supply := s }

/-- The disk with a directory at a key, unless something is there. -/
def addDirectory (perm : Int) (d : Disk) (k : Key) : Disk :=
  if d.store.hasFile k || d.store.hasDirectory k then d else d.putDirectory k perm

/-- The disk with directories at keys, where nothing is there. -/
def addDirectories (perm : Int) (keys : List Key) (d : Disk) : Disk :=
  keys.foldl (addDirectory perm) d

/-- The disk with directories on the way to a key, the key included. -/
def withDirectory (k : Key) (d : Disk) : Disk :=
  d.addDirectories defaultPerm k.steps

variable (d : Disk)

@[simp] theorem mapStore_store (f) : (d.mapStore f).store = f d.store := rfl
@[simp] theorem mapStore_clock (f) : (d.mapStore f).clock = d.clock := rfl
@[simp] theorem mapStore_supply (f) : (d.mapStore f).supply = d.supply := rfl
@[simp] theorem mapHandles_tree (f) : (d.mapHandles f).store.tree = d.store.tree := rfl
@[simp] theorem mapHandles_handles (f) :
    (d.mapHandles f).store.handles = d.store.handles.map f := rfl
@[simp] theorem mapHandles_clock (f) : (d.mapHandles f).clock = d.clock := rfl
@[simp] theorem mapHandles_supply (f) : (d.mapHandles f).supply = d.supply := rfl
@[simp] theorem putFile_handles (k c m) : (d.putFile k c m).store.handles = d.store.handles := rfl
@[simp] theorem putFile_supply (k c m) : (d.putFile k c m).supply = d.supply := rfl
@[simp] theorem putDirectory_handles (k p) :
    (d.putDirectory k p).store.handles = d.store.handles := rfl
@[simp] theorem putDirectory_supply (k p) : (d.putDirectory k p).supply = d.supply := rfl
@[simp] theorem addHandle_tree (h) : (d.addHandle h).store.tree = d.store.tree := rfl
@[simp] theorem addHandle_handles (h) :
    (d.addHandle h).store.handles = d.store.handles ++ [h] := rfl
@[simp] theorem addHandle_supply (h) : (d.addHandle h).supply = d.supply := rfl
@[simp] theorem setHandle_tree (id h) : (d.setHandle id h).store.tree = d.store.tree := rfl
@[simp] theorem setHandle_handles (id h) :
    (d.setHandle id h).store.handles = d.store.handles.set id h := rfl
@[simp] theorem setHandle_supply (id h) : (d.setHandle id h).supply = d.supply := rfl
@[simp] theorem withSupply_store (s) : (d.withSupply s).store = d.store := rfl
@[simp] theorem withSupply_clock (s) : (d.withSupply s).clock = d.clock := rfl
@[simp] theorem withSupply_supply (s) : (d.withSupply s).supply = s := rfl

theorem get?_putFile (k j : Key) (content : Bytes) (mode : Nat) :
    (d.putFile k content mode).store.tree.get? j =
      if j = k then some (.file content mode d.clock) else d.store.tree.get? j :=
  Store.get?_tree_putFile d.store k j content ⟨mode, d.clock⟩

end Disk

/-! ## Primitive computations -/

@[simp] theorem run_hasFile (k : Key) (d : Disk) :
    (hasFile k).run d = .ok (d.store.hasFile k) d := rfl

@[simp] theorem run_hasDirectory (k : Key) (d : Disk) :
    (hasDirectory k).run d = .ok (d.store.hasDirectory k) d := rfl

@[simp] theorem run_tick (d : Disk) :
    tick.run d = .ok d.clock { d with clock := d.clock + 1 } := rfl

@[simp] theorem run_draw (d : Disk) :
    draw.run d = .ok d.supply.draw.1 (d.withSupply d.supply.draw.2) := rfl

@[simp] theorem run_modifyStore (f : Store → Store) (d : Disk) :
    (modifyStore f).run d = .ok () (d.mapStore f) := rfl

@[simp] theorem run_modifyHandles (f : Handle → Handle) (d : Disk) :
    (modifyHandles f).run d = .ok () (d.mapHandles f) := rfl

@[simp] theorem run_setHandle (id : Nat) (h : Handle) (d : Disk) :
    (setHandle id h).run d = .ok () (d.setHandle id h) := rfl

@[simp] theorem run_putFile (k : Key) (content : Bytes) (mode : Nat) (d : Disk) :
    (putFile k content mode).run d = .ok () (d.putFile k content mode) := rfl

@[simp] theorem run_failMissing (k : Key) (path : String) (d : Disk) :
    (failMissing k path : MemoryM α).run d = .error (.onPath (d.store.missing k) path) d := rfl

@[simp] theorem liftStep_ok (a : α) : liftStep (.ok a) = (pure a : MemoryM α) := rfl

@[simp] theorem liftStep_error (f : Fault) : liftStep (.error f) = (throw f : MemoryM α) := rfl

theorem run_contentAt {k : Key} {content : Bytes} {d : Disk}
    (h : d.store.files.get? k = some content) : (contentAt k).run d = .ok content d := by
  rw [contentAt, run_bind_ok (EStateM.run_get d), h]
  rfl

theorem run_stampAt {k : Key} {stamp : Stamp} {d : Disk}
    (h : d.store.stamps.get? k = some stamp) : (stampAt k).run d = .ok stamp d := by
  rw [stampAt, run_bind_ok (EStateM.run_get d), h]
  rfl

/-- The mode that a commit to a key finds. -/
def modeAt (s : Store) (k : Key) : Nat :=
  ((s.stamps.get? k).map Stamp.mode).getD (Mode.regular + 0o644)

/-- A commit keeps the mode that it finds. -/
@[simp] theorem run_commit (k : Key) (content : Bytes) (d : Disk) :
    (commit k content).run d = .ok () (d.putFile k content (modeAt d.store k)) := rfl

theorem modeAt_of_get? {s : Store} {k : Key} {e : Entry} (hs : s.InStep)
    (h : s.tree.get? k = some e) : modeAt s k = e.mode := by
  rw [modeAt, hs.get?_stamps h]
  rfl

/-- What is in a list with one more element is that element, or it is in the list. -/
theorem getElem?_concat_eq_some {α : Type} {l : List α} {a b : α} {i : Nat}
    (h : (l ++ [a])[i]? = some b) : (i ≠ l.length ∧ l[i]? = some b) ∨ (i = l.length ∧ b = a) := by
  rw [List.getElem?_append] at h
  split at h
  · exact .inl ⟨by omega, h⟩
  · rw [List.getElem?_singleton] at h
    split at h
    · exact .inr ⟨by omega, (Option.some.inj h).symm⟩
    · cases h

/-! ## Directories on the way -/

theorem makeDirectory_of_hasFile {k : Key} {d : Disk} (h : d.store.hasFile k = true) (perm : Int) :
    (makeDirectory perm k).run d = .error (.onPath .notDirectory k.toString) d := by
  rw [makeDirectory, run_bind_ok (run_hasFile k d), if_pos h]
  rfl

theorem makeDirectory_of_not_hasFile {k : Key} {d : Disk} (h : d.store.hasFile k = false)
    (perm : Int) : (makeDirectory perm k).run d = .ok () (d.addDirectory perm k) := by
  rw [makeDirectory, run_bind_ok (run_hasFile k d), h, Disk.addDirectory, h]
  cases hd : d.store.hasDirectory k with
  | true => simp [hd]
  | false =>
    simp [hd]
    rfl

namespace Disk

variable {d : Disk} {j k : Key} {keys : List Key} (perm : Int)

@[simp] theorem addDirectory_handles :
    (d.addDirectory perm k).store.handles = d.store.handles := by
  unfold addDirectory
  split <;> rfl

@[simp] theorem addDirectory_supply : (d.addDirectory perm k).supply = d.supply := by
  unfold addDirectory
  split <;> rfl

@[simp] theorem addDirectories_handles :
    (d.addDirectories perm keys).store.handles = d.store.handles := by
  induction keys generalizing d with
  | nil => rfl
  | cons k keys ih => exact ih.trans (addDirectory_handles perm)

@[simp] theorem addDirectories_supply : (d.addDirectories perm keys).supply = d.supply := by
  induction keys generalizing d with
  | nil => rfl
  | cons k keys ih => exact ih.trans (addDirectory_supply perm)

theorem addDirectory_files : (d.addDirectory perm k).store.files = d.store.files := by
  unfold addDirectory
  split <;> rfl

theorem addDirectory_links : (d.addDirectory perm k).store.links = d.store.links := by
  unfold addDirectory
  split <;> rfl

theorem addDirectories_files : (d.addDirectories perm keys).store.files = d.store.files := by
  induction keys generalizing d with
  | nil => rfl
  | cons k keys ih => exact ih.trans (addDirectory_files perm)

theorem addDirectories_links : (d.addDirectories perm keys).store.links = d.store.links := by
  induction keys generalizing d with
  | nil => rfl
  | cons k keys ih => exact ih.trans (addDirectory_links perm)

theorem inStep_addDirectory (hs : d.store.InStep) : (d.addDirectory perm k).store.InStep := by
  unfold addDirectory
  split
  · exact hs
  · rename_i hk
    rw [Bool.or_eq_true, not_or, Bool.not_eq_true] at hk
    exact hs.putDirectory hk.1 _

/-- Where nothing is, a directory is made; all else stays. -/
theorem get?_addDirectory (hs : d.store.InStep) :
    (d.addDirectory perm k).store.tree.get? j =
      if j = k ∧ d.store.tree.get? k = none then
        some (.directory (Mode.directory + Mode.permissions perm) d.clock)
      else d.store.tree.get? j := by
  have hnone := hs.get?_tree_eq_none_iff (k := k)
  unfold addDirectory
  split
  · rename_i hk
    rw [if_neg]
    rintro ⟨-, hget⟩
    rw [hnone] at hget
    rw [hget.1, hget.2] at hk
    cases hk
  · rename_i hk
    rw [Bool.or_eq_true, not_or, Bool.not_eq_true, Bool.not_eq_true, ← hnone] at hk
    have hput := Store.get?_tree_putDirectory (hnone.1 hk).1 j
      ⟨Mode.directory + Mode.permissions perm, d.clock⟩
    exact hput.trans (if_congr (by simp [hk]) rfl rfl)

theorem inStep_addDirectories (hs : d.store.InStep) :
    (d.addDirectories perm keys).store.InStep := by
  induction keys generalizing d with
  | nil => exact hs
  | cons k keys ih => exact ih (inStep_addDirectory perm hs)

/-- What is there stays when directories are made. -/
theorem get?_addDirectories_of_isSome (hs : d.store.InStep)
    (h : (d.store.tree.get? j).isSome = true) :
    (d.addDirectories perm keys).store.tree.get? j = d.store.tree.get? j := by
  -- by induction on the keys, from any disk: each directory is made on the disk that the last left
  induction keys generalizing d with
  | nil => rfl
  | cons k keys ih =>
    have hstep : (d.addDirectory perm k).store.tree.get? j = d.store.tree.get? j := by
      rw [get?_addDirectory perm hs, if_neg]
      rintro ⟨rfl, hnone⟩
      rw [hnone] at h
      cases h
    exact (ih (inStep_addDirectory perm hs) (by rwa [hstep])).trans hstep

/-- Directories are made nowhere but at the keys. -/
theorem get?_addDirectories_of_not_mem (hs : d.store.InStep) (h : j ∉ keys) :
    (d.addDirectories perm keys).store.tree.get? j = d.store.tree.get? j := by
  induction keys generalizing d with
  | nil => rfl
  | cons k keys ih =>
    rw [List.mem_cons, not_or] at h
    apply (ih (inStep_addDirectory perm hs) h.2).trans
    rw [get?_addDirectory perm hs, if_neg fun hj => h.1 hj.1]

/-- At and below a key nothing changes when the directories on the way to its parent are made. -/
theorem get?_addDirectories_append (hs : d.store.InStep) (k rest : Key) :
    (d.addDirectories perm k.parent.steps).store.tree.get? (k ++ rest) =
      d.store.tree.get? (k ++ rest) :=
  get?_addDirectories_of_not_mem perm hs (Key.append_not_mem_steps_parent k rest)

theorem get?_addDirectories_self (hs : d.store.InStep) (k : Key) :
    (d.addDirectories perm k.parent.steps).store.tree.get? k = d.store.tree.get? k := by
  simpa using get?_addDirectories_append perm hs k []

/-- Where nothing is, a directory is made. -/
theorem get?_addDirectories_of_mem (hs : d.store.InStep) (hj : j ∈ keys)
    (h : d.store.tree.get? j = none) :
    ∃ now, (d.addDirectories perm keys).store.tree.get? j =
      some (.directory (Mode.directory + Mode.permissions perm) now) := by
  induction keys generalizing d with
  | nil => cases hj
  | cons k keys ih =>
    by_cases hjk : j = k
    · subst hjk
      have hstep : (d.addDirectory perm j).store.tree.get? j =
          some (.directory (Mode.directory + Mode.permissions perm) d.clock) := by
        rw [get?_addDirectory perm hs, if_pos ⟨rfl, h⟩]
      have hsome : ((d.addDirectory perm j).store.tree.get? j).isSome = true := by
        rw [hstep]
        rfl
      have hkept := @get?_addDirectories_of_isSome _ _ keys perm
        (inStep_addDirectory perm hs) hsome
      exact ⟨d.clock, hkept.trans hstep⟩
    · have hstep : (d.addDirectory perm k).store.tree.get? j = none := by
        rw [get?_addDirectory perm hs, if_neg fun hj => hjk hj.1, h]
      exact ih (inStep_addDirectory perm hs) ((List.mem_cons.1 hj).resolve_left hjk) hstep

/-- On the way to a key's parent, directories are made where nothing is above the key. -/
theorem get?_addDirectories_above {k : Key} (hs : d.store.InStep)
    (hroot : d.store.tree.IsDirectory []) (hj : Key.within j k = true) (hne : j ≠ k)
    (h : d.store.tree.get? j = none) :
    ∃ now, (d.addDirectories perm k.parent.steps).store.tree.get? j =
      some (.directory (Mode.directory + Mode.permissions perm) now) := by
  have htop : j ≠ [] := by
    rintro rfl
    exact not_isDirectory_of_none h hroot
  exact get?_addDirectories_of_mem perm hs (Key.mem_steps_parent.2 ⟨htop, hne, hj⟩) h

/-- Nothing else changes then. -/
theorem get?_addDirectories_other {k : Key} (hs : d.store.InStep)
    (h : (d.store.tree.get? j).isSome = true ∨ Key.within j k = false) :
    (d.addDirectories perm k.parent.steps).store.tree.get? j = d.store.tree.get? j := by
  rcases h with hsome | habove
  · exact get?_addDirectories_of_isSome perm hs hsome
  · refine get?_addDirectories_of_not_mem perm hs fun hmem => ?_
    rw [(Key.mem_steps_parent.1 hmem).2.2] at habove
    cases habove

/-- Making directories makes and changes no files. -/
theorem isFile_addDirectories (hs : d.store.InStep) :
    (d.addDirectories perm keys).store.tree.IsFile j ↔ d.store.tree.IsFile j := by
  by_cases hsome : (d.store.tree.get? j).isSome = true
  · exact IsFile.congr (get?_addDirectories_of_isSome perm hs hsome)
  rw [Bool.not_eq_true, Option.isSome_eq_false_iff, Option.isNone_iff_eq_none] at hsome
  by_cases hj : j ∈ keys
  · obtain ⟨now, hnow⟩ := get?_addDirectories_of_mem perm hs hj hsome
    exact iff_of_false (isDirectory_of_get? hnow).not_isFile (not_isFile_of_none hsome)
  · exact IsFile.congr (get?_addDirectories_of_not_mem perm hs hj)

/-- The directories are those that were there and those that were made. -/
theorem isDirectory_addDirectories (hs : d.store.InStep) :
    (d.addDirectories perm keys).store.tree.IsDirectory j ↔
      d.store.tree.IsDirectory j ∨ (j ∈ keys ∧ d.store.tree.get? j = none) := by
  by_cases hsome : (d.store.tree.get? j).isSome = true
  · rw [IsDirectory.congr (get?_addDirectories_of_isSome perm hs hsome), or_iff_left]
    rintro ⟨-, hnone⟩
    rw [hnone] at hsome
    cases hsome
  rw [Bool.not_eq_true, Option.isSome_eq_false_iff, Option.isNone_iff_eq_none] at hsome
  by_cases hj : j ∈ keys
  · obtain ⟨now, hnow⟩ := get?_addDirectories_of_mem perm hs hj hsome
    exact iff_of_true (isDirectory_of_get? hnow) (.inr ⟨hj, hsome⟩)
  · rw [IsDirectory.congr (get?_addDirectories_of_not_mem perm hs hj), or_iff_left]
    exact fun h => hj h.1

end Disk

/-! ## Sound stores -/

/-- A store in step with a sound tree, whose open handles are on files or on nothing. -/
structure Store.Sound (s : Store) : Prop where
  inStep : s.InStep
  tree : s.tree.Sound
  /-- An open handle is on a file, unless its file is gone. -/
  attached : ∀ h ∈ s.handles, h.closed = false → ∀ k, h.key = some k → s.tree.IsFile k

/-- With the same entries and with handles on files, a store stays sound. -/
theorem Store.Sound.of_files {s s' : Store} (hs : s.Sound) (hstep : s'.InStep)
    (htree : s'.tree.Sound) (hhandles : s'.handles = s.handles)
    (hfile : ∀ k, s.tree.IsFile k → s'.tree.IsFile k) : s'.Sound where
  inStep := hstep
  tree := htree
  attached := by
    intro h hh ho k hk
    rw [hhandles] at hh
    exact hfile k (hs.attached h hh ho k hk)

theorem permissions_lt (perm : Int) : Mode.permissions perm < 0o1000 := by
  unfold Mode.permissions
  omega

namespace Disk

variable {d : Disk} {k : Key}

theorem addDirectory_of_isSome (hs : d.store.InStep) (h : (d.store.tree.get? k).isSome = true)
    (perm : Int) : d.addDirectory perm k = d := by
  rw [hs.isSome_get?_tree] at h
  rw [addDirectory, if_pos h]

/-- Where something is at all keys, no directories are made. -/
theorem addDirectories_of_isSome {keys : List Key} (hs : d.store.InStep)
    (h : ∀ k ∈ keys, (d.store.tree.get? k).isSome = true) (perm : Int) :
    d.addDirectories perm keys = d := by
  induction keys with
  | nil => rfl
  | cons k keys ih =>
    rw [addDirectories, List.foldl_cons, addDirectory_of_isSome hs (h k List.mem_cons_self)]
    exact ih fun j hj => h j (List.mem_cons_of_mem k hj)

theorem isSome_addDirectories_of_mem {keys : List Key} (hs : d.store.InStep) (hk : k ∈ keys)
    (perm : Int) : ((d.addDirectories perm keys).store.tree.get? k).isSome = true := by
  by_cases hsome : (d.store.tree.get? k).isSome = true
  · rwa [get?_addDirectories_of_isSome perm hs hsome]
  · rw [Option.not_isSome_iff_eq_none] at hsome
    obtain ⟨now, hnow⟩ := get?_addDirectories_of_mem perm hs hk hsome
    rw [hnow]
    rfl

/-- Directories that have been made are not made again. -/
theorem addDirectories_addDirectories {keys keys' : List Key} (hs : d.store.InStep)
    (h : keys' ⊆ keys) (perm : Int) :
    (d.addDirectories perm keys).addDirectories perm keys' = d.addDirectories perm keys :=
  addDirectories_of_isSome (inStep_addDirectories perm hs)
    (fun _ hk => isSome_addDirectories_of_mem hs (h hk) perm) perm

/-- Directories on the first part of a way may be made before. -/
theorem addDirectories_steps_append (hs : d.store.InStep) (base k : Key) (perm : Int) :
    (d.addDirectories perm base.steps).addDirectories perm (base ++ k).steps =
      d.addDirectories perm (base ++ k).steps := by
  have hsteps : (base ++ k).steps = base.steps ++ Key.chain base k := Key.chain_append [] base k
  have happend : ∀ e : Disk, e.addDirectories perm (base ++ k).steps =
      (e.addDirectories perm base.steps).addDirectories perm (Key.chain base k) := by
    intro e
    rw [hsteps, addDirectories, List.foldl_append]
    rfl
  rw [happend, happend, addDirectories_addDirectories hs (List.Subset.refl _)]

theorem sound_addDirectory (hs : d.store.InStep) (ht : d.store.tree.Sound) {a : String}
    (hk : ∀ b ∈ k ++ [a], Path.IsName b) (hdir : d.store.tree.IsDirectory k) (perm : Int) :
    (d.addDirectory perm (k ++ [a])).store.tree.Sound := by
  by_cases hnone : d.store.tree.get? (k ++ [a]) = none
  · have hget : ∀ j, (d.addDirectory perm (k ++ [a])).store.tree.get? j =
        if j = k ++ [a] then some (.directory (Mode.directory + Mode.permissions perm) d.clock)
        else d.store.tree.get? j := by
      intro j
      rw [get?_addDirectory perm hs]
      exact if_congr (and_iff_left hnone) rfl rfl
    have htyped : (Entry.directory (Mode.directory + Mode.permissions perm) d.clock).Typed :=
      ⟨_, permissions_lt perm, rfl⟩
    refine ht.insert (by simp) hk ?_ (not_isDirectory_of_none hnone) htyped hget
    rwa [Key.parent_append_singleton]
  · rw [← ne_eq, Option.ne_none_iff_isSome] at hnone
    rwa [addDirectory_of_isSome hs hnone]

/-- Directories may be made one below the other, from a directory on. -/
theorem sound_addDirectories_chain (hs : d.store.InStep) (ht : d.store.tree.Sound) (top : Key)
    {l : List String} (hnames : ∀ a ∈ top ++ l, Path.IsName a) (htop : d.store.tree.IsDirectory top)
    (hfree : ∀ j ∈ Key.chain top l, ¬d.store.tree.IsFile j) (perm : Int) :
    (d.addDirectories perm (Key.chain top l)).store.tree.Sound := by
  -- by induction on the names below `top`, which is a directory all along
  induction l generalizing d top with
  | nil => exact ht
  | cons a l ih =>
    have happend : top ++ a :: l = top ++ [a] ++ l := List.append_cons top a l
    rw [happend] at hnames
    have hself : ¬d.store.tree.IsFile (top ++ [a]) := hfree _ List.mem_cons_self
    have hstep : d.addDirectory perm (top ++ [a]) = d.addDirectories perm [top ++ [a]] := rfl
    have hdir : (d.addDirectory perm (top ++ [a])).store.tree.IsDirectory (top ++ [a]) := by
      rw [hstep, isDirectory_addDirectories perm hs]
      by_cases hnone : d.store.tree.get? (top ++ [a]) = none
      · exact .inr ⟨List.mem_singleton_self _, hnone⟩
      · rw [← ne_eq, Option.ne_none_iff_isSome] at hnone
        exact .inl ((isFile_or_isDirectory hnone).resolve_left hself)
    have hsound := sound_addDirectory hs ht
      (fun b hb => hnames b (List.mem_append_left l hb)) htop perm
    apply ih (inStep_addDirectory perm hs) hsound _ hnames hdir
    intro j hj
    rw [hstep, isFile_addDirectories perm hs]
    exact hfree j (List.mem_cons_of_mem _ hj)

/-- Once the directories on the way to a key have been made, the key is a directory. -/
theorem isDirectory_addDirectories_self (hs : d.store.InStep) (ht : d.store.tree.Sound)
    (hfree : ∀ j ∈ k.steps, ¬d.store.tree.IsFile j) (perm : Int) :
    (d.addDirectories perm k.steps).store.tree.IsDirectory k := by
  rw [isDirectory_addDirectories perm hs]
  by_cases hk : k = []
  · exact .inl (hk ▸ ht.root)
  have hmem : k ∈ k.steps := Key.mem_steps.2 ⟨hk, List.prefix_rfl⟩
  by_cases hnone : d.store.tree.get? k = none
  · exact .inr ⟨hmem, hnone⟩
  · rw [← ne_eq, Option.ne_none_iff_isSome] at hnone
    exact .inl ((isFile_or_isDirectory hnone).resolve_left (hfree k hmem))

/-- Directories may be made on the way to a key when no file is in the way. -/
theorem sound_addDirectories (hs : d.store.Sound) (hnames : ∀ a ∈ k, Path.IsName a)
    (hfree : ∀ j ∈ k.steps, ¬d.store.tree.IsFile j) (perm : Int) :
    (d.addDirectories perm k.steps).store.Sound :=
  hs.of_files (inStep_addDirectories perm hs.inStep)
    (sound_addDirectories_chain hs.inStep hs.tree [] hnames hs.tree.root hfree perm)
    (addDirectories_handles perm) fun _ hfile => (isFile_addDirectories perm hs.inStep).2 hfile

end Disk

/-! ## Making directories -/

/-- With no file in the way, the missing directories are made. -/
theorem makeDirectoriesAt_of_not_isFile {k : Key} {d : Disk} (hs : d.store.InStep)
    (h : ∀ j ∈ k.steps, ¬d.store.tree.IsFile j) (perm : Int) :
    (makeDirectoriesAt k perm).run d = .ok () (d.addDirectories perm k.steps) := by
  unfold makeDirectoriesAt
  -- making directories makes no files, so that none gets in the way of the keys that follow
  generalize k.steps = keys at h
  induction keys generalizing d with
  | nil => rfl
  | cons k keys ih =>
    have hk := h k List.mem_cons_self
    rw [hs.isFile_tree, Bool.not_eq_true] at hk
    rw [List.forM_eq_forM, List.forM_cons, run_bind_ok (makeDirectory_of_not_hasFile hk perm)]
    apply ih (Disk.inStep_addDirectory perm hs)
    intro j hj
    have hstep : d.addDirectory perm k = d.addDirectories perm [k] := rfl
    rw [hstep, Disk.isFile_addDirectories perm hs]
    exact h j (List.mem_cons_of_mem k hj)

theorem forM_makeDirectory_of_isFile {d : Disk} (hs : d.store.Sound) (top : Key)
    {lead : Key} {l : List String} (hne : lead ≠ []) (hlead : lead <+: l)
    (h : d.store.tree.IsFile (top ++ lead)) (perm : Int) :
    ((Key.chain top l).forM (makeDirectory perm)).run d =
      .error (.onPath .notDirectory (Key.toString (top ++ lead))) d := by
  induction l generalizing top lead with
  | nil => exact absurd (List.prefix_nil.1 hlead) hne
  | cons a l ih =>
    obtain ⟨b, lead, rfl⟩ := List.exists_cons_of_ne_nil hne
    obtain ⟨rfl, htail⟩ := List.cons_prefix_cons.1 hlead
    rw [Key.chain, List.forM_eq_forM, List.forM_cons]
    by_cases hnil : lead = []
    · subst hnil
      exact run_bind_error (makeDirectory_of_hasFile (hs.inStep.isFile_tree.1 h) perm)
    · have happend : top ++ b :: lead = top ++ [b] ++ lead := List.append_cons top b lead
      rw [happend] at h ⊢
      have hdir : d.store.tree.IsDirectory (top ++ [b]) :=
        hs.tree.isDirectory_of_append hnil h.isSome
      have hfile := hdir.not_isFile
      rw [hs.inStep.isFile_tree, Bool.not_eq_true] at hfile
      rw [run_bind_ok (makeDirectory_of_not_hasFile hfile perm),
        Disk.addDirectory_of_isSome hs.inStep hdir.isSome]
      exact ih (top ++ [b]) hnil htail h

/-- With a file in the way, nothing is made: what leads to a file is there already. -/
theorem makeDirectoriesAt_of_isFile {j k : Key} {d : Disk} (hs : d.store.Sound)
    (hj : j ∈ k.steps) (h : d.store.tree.IsFile j) (perm : Int) :
    (makeDirectoriesAt k perm).run d = .error (.onPath .notDirectory j.toString) d := by
  obtain ⟨hne, hjk⟩ := Key.mem_steps.1 hj
  exact forM_makeDirectory_of_isFile hs [] hne hjk h perm

end RootedFS.Memory
