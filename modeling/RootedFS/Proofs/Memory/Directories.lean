import RootedFS.Proofs.Memory.Sound

/-!
# Making directories in memory

A path is made into a directory together with all that is missing on the way to it. A file at the
path or above it is in the way: then nothing is made, not even above the file, where everything is
there already. Otherwise just the missing directories are made, each with the permissions asked for
and with a tick of its own, and all that there was stays as it is. When they have been made once
there is nothing left to make, along the path as well as along any part of it.

## Main definitions

* `MadeWay`: what there is once the missing directories have been made
* `Making`: what making a path into a directory comes to

## Main results

* `Disk.clock_addDirectories`: a tick has passed for each directory that was missing
* `Reachable.makeDirectories_making`: on every store that calls lead to, making directories comes to
  the case that the tree tells
-/

namespace RootedFS

namespace Key

/-- The way to a key passes through each key once. -/
theorem nodup_chain (top : Key) (l : List String) : (chain top l).Nodup := by
  induction l generalizing top with
  | nil => exact List.nodup_nil
  | cons a l ih =>
    refine List.nodup_cons.2 ⟨fun hmem => ?_, ih (top ++ [a])⟩
    obtain ⟨lead, hne, -, heq⟩ := mem_chain.1 hmem
    exact hne (List.self_eq_append_right.1 heq)

theorem nodup_steps (k : Key) : (steps k).Nodup :=
  nodup_chain [] k

/-- The way to a key passes through the key and all keys above it, but for the top. -/
theorem mem_steps_iff_within {j k : Key} : j ∈ steps k ↔ j ≠ [] ∧ within j k = true := by
  rw [mem_steps, within_iff]
  exact and_congr_right fun _ => exists_congr fun rest => eq_comm

/-- The way to a key that leads to another is part of the way to that. -/
theorem steps_subset {j k : Key} (h : within j k = true) : steps j ⊆ steps k := by
  obtain ⟨rest, rfl⟩ := within_iff.1 h
  intro i hi
  obtain ⟨hne, hpre⟩ := mem_steps.1 hi
  exact mem_steps.2 ⟨hne, hpre.trans (List.prefix_append j rest)⟩

end Key

namespace Memory

open Tree

variable {s : Store} {d : Disk} {j k : Key}

/-! ## The clock -/

namespace Disk

variable (perm : Int) {keys : List Key}

/-- A directory that is missing takes a tick, and one that is there takes none. -/
theorem clock_addDirectory (hs : d.store.InStep) :
    (d.addDirectory perm k).clock = d.clock + if (d.store.tree.get? k).isNone then 1 else 0 := by
  have hsome := hs.isSome_get?_tree (k := k)
  unfold addDirectory
  split
  · rename_i hk
    rw [hk] at hsome
    rw [← Option.not_isSome, hsome]
    rfl
  · rename_i hk
    rw [Bool.not_eq_true] at hk
    rw [hk] at hsome
    rw [← Option.not_isSome, hsome]
    rfl

/-- A tick passes for each directory that is missing. -/
theorem clock_addDirectories (hs : d.store.InStep) (hkeys : keys.Nodup) :
    (d.addDirectories perm keys).clock =
      d.clock + keys.countP fun k => (d.store.tree.get? k).isNone := by
  -- by induction on the keys, from any disk: a directory that has been made is not met again
  induction keys generalizing d with
  | nil => rfl
  | cons k keys ih =>
    obtain ⟨hk, hkeys⟩ := List.nodup_cons.1 hkeys
    have hrest : (keys.countP fun j => ((d.addDirectory perm k).store.tree.get? j).isNone) =
        keys.countP fun j => (d.store.tree.get? j).isNone := by
      refine List.countP_congr fun j hj => ?_
      rw [get?_addDirectory perm hs, if_neg]
      rintro ⟨rfl, -⟩
      exact hk hj
    have hstep : d.addDirectories perm (k :: keys) =
        (d.addDirectory perm k).addDirectories perm keys := rfl
    rw [hstep, ih (inStep_addDirectory perm hs) hkeys, hrest, clock_addDirectory perm hs,
      List.countP_cons]
    omega

end Disk

/-! ## The cases -/

/-- The missing directories on the way to a key have been made, the key included. -/
structure MadeWay (d : Disk) (k : Key) (perm : Int) (d' : Disk) : Prop where
  /-- The directories are those that there were, the key, and all keys above it. -/
  directories : ∀ j, d'.store.hasDirectory j = true ↔
    d.store.hasDirectory j = true ∨ Key.within j k = true
  /-- Those that were missing have the permissions asked for. -/
  new : ∀ j, Key.within j k = true → d.store.hasDirectory j = false →
    ∃ now, d'.store.tree.get? j =
      some (.directory (Mode.directory + Mode.permissions perm) now)
  /-- Whatever there was, is as it was. -/
  kept : ∀ j, (d.store.tree.get? j).isSome = true →
    d'.store.tree.get? j = d.store.tree.get? j
  /-- No file has been made, and none has changed. -/
  files : d'.store.files = d.store.files
  handles : d'.store.handles = d.store.handles
  links : d'.store.links = d.store.links
  supply : d'.supply = d.supply
  /-- A tick has passed for each directory that was missing. -/
  ticks : d'.clock = d.clock + k.steps.countP fun j => (d.store.tree.get? j).isNone
  /-- There is nothing left to make, along the key or any part of it and with any permissions: that
  changes nothing, and takes no tick. -/
  again : ∀ path perm', Key.within (Key.resolve path) k = true →
    (makeDirectories path perm').run d' = .ok () d'

/-- What making a path into a directory comes to, by what the tree has there and above. -/
structure Making (d : Disk) (path : String) (perm : Int)
    (r : EStateM.Result Fault Disk Unit) : Prop where
  /-- A file at the path or above it is in the way, and nothing is made. -/
  blocked : ∀ j, Key.within j (Key.resolve path) = true → d.store.hasFile j = true →
    r = .error (.onPath .notDirectory j.toString) d
  /-- Otherwise the missing directories are made. -/
  made : (∀ j, Key.within j (Key.resolve path) = true → d.store.hasFile j = false) →
    ∃ d', r = .ok () d' ∧ MadeWay d (Key.resolve path) perm d'

section

variable (hs : d.store.Sound)
include hs

/-- With no file at a key or above it, none is met on the way to it. -/
theorem not_isFile_of_free (hfree : ∀ j, Key.within j k = true → d.store.hasFile j = false) :
    ∀ j ∈ k.steps, ¬d.store.tree.IsFile j := by
  intro j hj
  rw [hs.inStep.isFile_tree, hfree j (Key.mem_steps_iff_within.1 hj).2]
  exact Bool.false_ne_true

/-- What is missing at a key or above it is met on the way to it, and there is nothing. -/
theorem missing_of_free (hfree : ∀ j, Key.within j k = true → d.store.hasFile j = false)
    (hj : Key.within j k = true) (hdir : d.store.hasDirectory j = false) :
    j ∈ k.steps ∧ d.store.tree.get? j = none := by
  have hnone := hs.inStep.get?_tree_eq_none_iff.2 ⟨hfree j hj, hdir⟩
  refine ⟨Key.mem_steps_iff_within.2 ⟨?_, hj⟩, hnone⟩
  rintro rfl
  exact not_isDirectory_of_none hnone hs.tree.root

/-- With no file in the way, the missing directories are made. -/
theorem madeWay_addDirectories
    (hfree : ∀ j, Key.within j k = true → d.store.hasFile j = false) (perm : Int) :
    MadeWay d k perm (d.addDirectories perm k.steps) := by
  have hstep : (d.addDirectories perm k.steps).store.InStep :=
    Disk.inStep_addDirectories perm hs.inStep
  constructor
  case directories =>
    intro j
    rw [← hstep.isDirectory_tree, Disk.isDirectory_addDirectories perm hs.inStep,
      hs.inStep.isDirectory_tree]
    constructor
    · rintro (hdir | ⟨hmem, -⟩)
      · exact .inl hdir
      · exact .inr (Key.mem_steps_iff_within.1 hmem).2
    · rintro (hdir | hwithin)
      · exact .inl hdir
      · refine or_iff_not_imp_left.2 fun hdir => ?_
        exact missing_of_free hs hfree hwithin (by simpa using hdir)
  case new =>
    intro j hwithin hdir
    obtain ⟨hmem, hnone⟩ := missing_of_free hs hfree hwithin hdir
    exact Disk.get?_addDirectories_of_mem perm hs.inStep hmem hnone
  case kept => exact fun j hj => Disk.get?_addDirectories_of_isSome perm hs.inStep hj
  case files => exact Disk.addDirectories_files perm
  case handles => exact Disk.addDirectories_handles perm
  case links => exact Disk.addDirectories_links perm
  case supply => exact Disk.addDirectories_supply perm
  case ticks => exact Disk.clock_addDirectories perm hs.inStep (Key.nodup_steps k)
  case again =>
    intro path perm' hwithin
    have hnofile : ∀ j ∈ (Key.resolve path).steps,
        ¬(d.addDirectories perm k.steps).store.tree.IsFile j := by
      intro j hj
      rw [Disk.isFile_addDirectories perm hs.inStep]
      exact not_isFile_of_free hs hfree j (Key.steps_subset hwithin hj)
    have hmade : ∀ j ∈ (Key.resolve path).steps,
        ((d.addDirectories perm k.steps).store.tree.get? j).isSome = true := fun j hj =>
      Disk.isSome_addDirectories_of_mem hs.inStep (Key.steps_subset hwithin hj) perm
    have hagain := makeDirectoriesAt_of_not_isFile hstep hnofile perm'
    rwa [Disk.addDirectories_of_isSome hstep hmade] at hagain

end

/-- Whatever calls have been made before, making a path into a directory comes to what the tree
tells, for any spelling of the path and for any integer as permissions. -/
theorem Reachable.makeDirectories_making (hs : Reachable s) (clock : Nat) (supply : Supply)
    (path : String) (perm : Int) :
    Making ⟨s, clock, supply⟩ path perm
      ((makeDirectories path perm).run ⟨s, clock, supply⟩) where
  blocked j hwithin hfile := by
    have hfile := hs.sound.inStep.isFile_tree.2 hfile
    have hne : j ≠ [] := by
      rintro rfl
      exact hs.sound.tree.root.not_isFile hfile
    exact makeDirectoriesAt_of_isFile (d := ⟨s, clock, supply⟩) hs.sound
      (Key.mem_steps_iff_within.2 ⟨hne, hwithin⟩) hfile perm
  made hfree := by
    have hnofile := not_isFile_of_free (d := ⟨s, clock, supply⟩) hs.sound hfree
    have hrun := makeDirectoriesAt_of_not_isFile (d := ⟨s, clock, supply⟩) hs.sound.inStep hnofile
    exact ⟨_, hrun perm, madeWay_addDirectories (d := ⟨s, clock, supply⟩) hs.sound hfree perm⟩

/-- On the way is a directory that is there, and the permissions are the integer `-1`. The path goes
up and down, and leads past a file. -/
theorem Reachable.makeDirectories_making_beside :
    let s := (after (Event.call (.create "a/f")).run ⟨.empty 0, 0, {}⟩).store
    Reachable s ∧ s.hasFile (Key.resolve "a/f") = true ∧
      Making ⟨s, 7, {}⟩ "a/f/../d//./e/" (-1)
        ((makeDirectories "a/f/../d//./e/" (-1)).run ⟨s, 7, {}⟩) := by
  intro s
  have hs : Reachable s := .step (.new 0) 0 {} _
  exact ⟨hs, by decide, hs.makeDirectories_making 7 {} "a/f/../d//./e/" (-1)⟩

end Memory

end RootedFS
