import RootedFS.Proofs.Memory.Search
import RootedFS.Proofs.Memory.Sound
import RootedFS.Proofs.Memory.Supply

/-!
# Temporary files are made

Whatever numbers are drawn, a temporary file is made unless a file is on the way to its directory or
directories have the names of its candidates. It is empty, nothing was in its place before, and the
directories on the way to it are all that is made besides.

## Main definitions

* `tempHandle`, `Disk.withTemp`: the handle on a temporary file, and a disk on which
  one has been made
* `Store.Gains`: what a store gains with a temporary file
* `Store.Admits`: nothing is in the way of temporary files in a directory

## Main results

* `gains_withTemp`: with a temporary file where nothing was, a store gains it
* `exists_withTemp_of_run`: a temporary file that is made is made where nothing was
* `exists_run_createTemp`: a temporary file is made, where nothing was
* `Store.Admits.withTemp`: and then another one may be made
-/

namespace RootedFS.Memory

open Tree

variable {d : Disk} {directory lead : String}

/-- The handle on a temporary file. -/
def tempHandle (directory lead : String) (number : Int) : Handle :=
  newHandle (Key.resolve (candidate directory lead number)) (candidate directory lead number) .fresh
    []

/-- The disk with an empty temporary file and a handle on it, once a number has been found. -/
def Disk.withTemp (directory lead : String) (number : Int) (supply : Supply) (d : Disk) : Disk :=
  (((d.withDirectory (Key.resolve directory)).withSupply supply).putFile
    (Key.resolve (candidate directory lead number)) []
    (Mode.regular + Mode.permissions tempPerm)).addHandle (tempHandle directory lead number)

namespace Disk

variable (d : Disk) (directory lead : String) (number : Int) (supply : Supply)

@[simp] theorem withTemp_handles : (d.withTemp directory lead number supply).store.handles =
    d.store.handles ++ [tempHandle directory lead number] := by
  simp [withTemp, withDirectory]

theorem getElem?_withTemp :
    (d.withTemp directory lead number supply).store.handles[d.store.handles.length]? =
      some (tempHandle directory lead number) := by
  simp

/-- The handles that there were stay. -/
theorem getElem?_withTemp_of_some {id : Nat} {h : Handle} (hid : d.store.handles[id]? = some h) :
    (d.withTemp directory lead number supply).store.handles[id]? = some h := by
  obtain ⟨hlt, -⟩ := List.getElem?_eq_some_iff.1 hid
  rw [withTemp_handles, List.getElem?_append_left hlt, hid]

/-- The file is where nothing was, and all else is in directories on the way to it. -/
theorem get?_withTemp (k : Key) :
    (d.withTemp directory lead number supply).store.tree.get? k =
      if k = Key.resolve (candidate directory lead number) then
        some (.file [] (Mode.regular + Mode.permissions tempPerm)
          (d.withDirectory (Key.resolve directory)).clock)
      else (d.withDirectory (Key.resolve directory)).store.tree.get? k := by
  rw [withTemp, addHandle_tree, get?_putFile, withSupply_store, withSupply_clock]

end Disk

/-- What a store gains with a temporary file: where nothing was there is an empty file that its
owner may read and write, in a directory that is there with all on the way to it; all that was there
is as it was, and nothing else is new. -/
structure Store.Gains (s s' : Store) (directory : Key) (a : String) : Prop where
  absent : s.tree.get? (directory ++ [a]) = none
  file : ∃ modified, s'.tree.get? (directory ++ [a]) =
    some (.file [] (Mode.regular + 0o600) modified)
  directories : ∀ j, Key.within j directory = true → s'.tree.IsDirectory j
  kept : ∀ j e, s.tree.get? j = some e → s'.tree.get? j = some e
  only : ∀ j, s.tree.get? j = none → (s'.tree.get? j).isSome = true →
    j = directory ++ [a] ∨ Key.within j directory = true

section

variable (hs : d.store.Sound)
  (hfree : ∀ j ∈ (Key.resolve directory).steps, ¬d.store.tree.IsFile j) (hlead : '/' ∉ lead.toList)
include hs hfree hlead

/-- The directory of a temporary file is there afterwards, with all on the way to it. -/
theorem isDirectory_withTemp_above (number : Int) (supply : Supply) {j : Key}
    (hj : Key.within j (Key.resolve directory) = true) :
    (d.withTemp directory lead number supply).store.tree.IsDirectory j := by
  obtain ⟨rest, hrest⟩ := Key.within_iff.1 hj
  have hne : j ≠ Key.resolve (candidate directory lead number) := by
    rw [resolve_candidate hlead, hrest]
    simp
  have hget := Disk.get?_withTemp d directory lead number supply j
  rw [if_neg hne] at hget
  have hsound := (sound_tempDirectory hs hfree supply).tree
  have hself : (d.withDirectory (Key.resolve directory)).store.tree.IsDirectory
      (Key.resolve directory) :=
    Disk.isDirectory_addDirectories_self hs.inStep hs.tree hfree defaultPerm
  refine (IsDirectory.congr hget).2 ?_
  by_cases hjk : j = Key.resolve directory
  · rw [hjk]
    exact hself
  · exact hsound.isDirectory_of_prefix ⟨rest, hrest.symm⟩ hjk hself.isSome

theorem isDirectory_withTemp (number : Int) (supply : Supply) :
    (d.withTemp directory lead number supply).store.tree.IsDirectory (Key.resolve directory) :=
  isDirectory_withTemp_above hs hfree hlead number supply (Key.within_self _)

/-- Opening a candidate where nothing is makes the file, as the directories have been made
before. -/
theorem openOutcome_candidate {number : Int}
    (hnone : d.store.tree.get? (Key.resolve (candidate directory lead number)) = none)
    (supply : Supply) :
    OpenOutcome ((d.withDirectory (Key.resolve directory)).withSupply supply)
      (Key.resolve (candidate directory lead number)) (candidate directory lead number) .fresh
      tempPerm (.ok d.store.handles.length (d.withTemp directory lead number supply)) := by
  have hparent : (Key.resolve (candidate directory lead number)).parent =
      Key.resolve directory := by
    rw [resolve_candidate hlead, Key.parent_append_singleton]
  have hstill : (d.withDirectory (Key.resolve directory)).store.tree.get?
      (Key.resolve (candidate directory lead number)) = none := by
    rw [← hnone, ← hparent]
    exact Disk.get?_addDirectories_self defaultPerm hs.inStep _
  have hway : ∀ j ∈ (Key.resolve (candidate directory lead number)).parent.steps,
      ¬(d.withDirectory (Key.resolve directory)).store.tree.IsFile j := by
    intro j hj
    rw [hparent] at hj
    rw [Disk.withDirectory, Disk.isFile_addDirectories defaultPerm hs.inStep]
    exact hfree j hj
  rw [← Disk.withSupply_store _ supply] at hstill hway
  have hopen : OpenOutcome ((d.withDirectory (Key.resolve directory)).withSupply supply)
      (Key.resolve (candidate directory lead number)) (candidate directory lead number) .fresh
      tempPerm _ := .made hstill rfl hway
  have hmade : ((d.withDirectory (Key.resolve directory)).withSupply supply).addDirectories
      defaultPerm (Key.resolve directory).steps =
        (d.withDirectory (Key.resolve directory)).withSupply supply := by
    rw [Disk.addDirectories_withSupply, Disk.withDirectory,
      Disk.addDirectories_addDirectories hs.inStep (List.Subset.refl _)]
  have hlength :
      ((d.withDirectory (Key.resolve directory)).withSupply supply).store.handles.length =
        d.store.handles.length := by
    simp [Disk.withDirectory]
  rwa [hparent, hmade, hlength] at hopen

/-- With a temporary file where nothing was, a store gains it and the directories on the way. -/
theorem gains_withTemp {number : Int}
    (hnone : d.store.tree.get? (Key.resolve (candidate directory lead number)) = none)
    (supply : Supply) : d.store.Gains (d.withTemp directory lead number supply).store
      (Key.resolve directory) (lead ++ toString number) := by
  have hkey : Key.resolve (candidate directory lead number) =
      Key.resolve directory ++ [lead ++ toString number] := resolve_candidate hlead number
  have hget := Disk.get?_withTemp d directory lead number supply
  rw [hkey] at hnone hget
  refine ⟨hnone, ⟨_, (hget _).trans (if_pos rfl)⟩,
    fun j => isDirectory_withTemp_above hs hfree hlead number supply, ?_, ?_⟩
  · intro j e he
    have hne : j ≠ Key.resolve directory ++ [lead ++ toString number] := by
      rintro rfl
      rw [hnone] at he
      cases he
    rw [hget, if_neg hne, Disk.withDirectory,
      Disk.get?_addDirectories_of_isSome defaultPerm hs.inStep (by rw [he]; rfl), he]
  · intro j hj hsome
    by_contra hnot
    rw [not_or] at hnot
    have hmem : j ∉ (Key.resolve directory).steps := fun hmem =>
      hnot.2 (Key.within_iff.2 ((Key.mem_steps.1 hmem).2.imp fun _ h => h.symm))
    rw [hget, if_neg hnot.1, Disk.withDirectory,
      Disk.get?_addDirectories_of_not_mem defaultPerm hs.inStep hmem, hj] at hsome
    cases hsome

end

/-- What a call opens that must make its file, it has made. -/
theorem OpenOutcome.get?_eq_none {k : Key} {path : String} {flags : OpenFlags} {perm : Int}
    {id : Nat} {e : Disk} (hx : (flags.create && flags.exclusive) = true)
    (h : OpenOutcome d k path flags perm (.ok id e)) : d.store.tree.get? k = none := by
  cases h with
  | emptied h hx' ht => exact absurd (hx.symm.trans hx') (by simp)
  | kept h hx' ht => exact absurd (hx.symm.trans hx') (by simp)
  | made h hc hfree => exact h

/-- A temporary file that is made is made where nothing was, beyond no file. -/
theorem exists_withTemp_of_run {r : Nat × String} {e : Disk} (hs : d.store.Sound)
    (hlead : '/' ∉ lead.toList) (hrun : (createTemp directory lead).run d = .ok r e) :
    ∃ number supply, r = (d.store.handles.length, candidate directory lead number) ∧
      e = d.withTemp directory lead number supply ∧
      e.store.Sound ∧ (∀ j ∈ (Key.resolve directory).steps, ¬d.store.tree.IsFile j) ∧
      d.store.tree.get? (Key.resolve (candidate directory lead number)) = none := by
  obtain ⟨outcome, houtcome⟩ := tempOutcome d directory lead
  rw [houtcome.run hs] at hrun
  subst hrun
  have hmade : e.store.Sound := houtcome.sound hs
  cases houtcome with
  | @opened number supply id _ hfree hsearch hopen =>
    have hnone := hopen.get?_eq_none fresh_exclusive
    have hparent : (Key.resolve (candidate directory lead number)).parent =
        Key.resolve directory := by
      rw [resolve_candidate hlead, Key.parent_append_singleton]
    rw [Disk.withSupply_store, ← hparent,
      Disk.get?_addDirectories_self defaultPerm hs.inStep] at hnone
    have hsound := sound_tempDirectory hs hfree supply
    have hrun := (openOutcome_candidate hs hfree hlead hnone supply).run hsound
    obtain ⟨rfl, rfl⟩ := EStateM.Result.ok.inj ((hopen.run hsound).symm.trans hrun)
    exact ⟨number, supply, rfl, rfl, hmade, hfree, hnone⟩

/-! ## Directories without directories in them -/

/-- Temporary files may be made in a directory: nothing is in the way to it, and no directories are
where they may be. -/
structure Store.Admits (s : Store) (k : Key) : Prop where
  free : ∀ j ∈ k.steps, ¬s.tree.IsFile j
  room : ∀ a, ¬s.tree.IsDirectory (k ++ [a])

theorem Store.admits_empty (now : Nat) (k : Key) : (Store.empty now).Admits k where
  free := fun j _ => Store.not_isFile_empty now j
  room := fun a => not_isDirectory_of_none (by rw [Store.get?_tree_empty, if_neg (by simp)])

section

variable (hs : d.store.Sound) (hadmits : d.store.Admits (Key.resolve directory))
  (hlead : '/' ∉ lead.toList)
include hs hadmits hlead

/-- Another temporary file may be made. -/
theorem Store.Admits.withTemp (number : Int) (supply : Supply) :
    (d.withTemp directory lead number supply).store.Admits (Key.resolve directory) where
  free := by
    intro j hj hfile
    have hne : j ≠ Key.resolve (candidate directory lead number) := by
      rintro rfl
      have hlength := (Key.mem_steps.1 hj).2.length_le
      rw [resolve_candidate hlead, List.length_append, List.length_singleton] at hlength
      omega
    have hget := Disk.get?_withTemp d directory lead number supply j
    rw [if_neg hne] at hget
    rw [IsFile.congr hget, Disk.withDirectory, Disk.isFile_addDirectories _ hs.inStep] at hfile
    exact hadmits.free j hj hfile
  room := by
    intro a hdir
    have hget := Disk.get?_withTemp d directory lead number supply (Key.resolve directory ++ [a])
    by_cases hkey : Key.resolve directory ++ [a] = Key.resolve (candidate directory lead number)
    · rw [if_pos hkey] at hget
      exact (isFile_of_get? hget).not_isDirectory hdir
    · have hout : Key.resolve directory ++ [a] ∉ (Key.resolve directory).steps := by
        have hparent := Key.append_not_mem_steps_parent (Key.resolve directory ++ [a]) []
        rwa [List.append_nil, Key.parent_append_singleton] at hparent
      rw [if_neg hkey, Disk.withDirectory,
        Disk.get?_addDirectories_of_not_mem _ hs.inStep hout] at hget
      exact hadmits.room a ((IsDirectory.congr hget).1 hdir)

/-- A number that is found is free of files, and there are no directories. -/
theorem get?_candidate_of_search {number : Int} {supply : Supply}
    (hsearch : searchFrom d directory lead = (some number, supply)) :
    d.store.tree.get? (Key.resolve (candidate directory lead number)) = none := by
  have hfile := not_taken_of_search hsearch
  rw [taken, ← Bool.not_eq_true, ← hs.inStep.isFile_tree] at hfile
  have hdir := hadmits.room (lead ++ toString number)
  rw [← resolve_candidate hlead] at hdir
  by_contra hsome
  rw [← ne_eq, Option.ne_none_iff_isSome] at hsome
  exact (isFile_or_isDirectory hsome).elim hfile hdir

/-- A temporary file is made. -/
theorem exists_run_createTemp :
    ∃ number supply, d.store.tree.get? (Key.resolve (candidate directory lead number)) = none ∧
      (d.withTemp directory lead number supply).store.Sound ∧
      (createTemp directory lead).run d =
        .ok (d.store.handles.length, candidate directory lead number)
          (d.withTemp directory lead number supply) := by
  obtain ⟨number, supply, hsearch⟩ := exists_searchFrom d directory hlead
  have hnone := get?_candidate_of_search hs hadmits hlead hsearch
  have htemp := TempOutcome.opened hadmits.free hsearch
    (openOutcome_candidate hs hadmits.free hlead hnone supply)
  exact ⟨number, supply, hnone, htemp.sound hs, htemp.run hs⟩

end

end RootedFS.Memory
