import RootedFS.Proofs.Calls
import RootedFS.Proofs.Memory.Move

/-!
# What calls on a store come to

For each call the cases in which it can end, with the fault or the answer and the disk afterwards.
On a sound store every run ends in one of the cases, and a case that applies tells how the run ends.

## Main definitions

* `OpenOutcome`, `TempOutcome`, `RenameOutcome`, `RemoveOutcome`, `DirectoriesOutcome`,
  `StatOutcome`, `ListOutcome`: the cases of the calls

## Main results

* `OpenOutcome.run`, `openOutcome`, and so on: a case tells how the run ends, and one applies
-/

namespace RootedFS.Memory

open Tree

variable {d : Disk} {k : Key} {path : String} {flags : OpenFlags} {perm : Int}

/-! ## Making directories -/

/-- What making directories comes to. -/
inductive DirectoriesOutcome (d : Disk) (k : Key) (perm : Int) :
    EStateM.Result Fault Disk Unit → Prop where
  | blocked {j : Key} (hj : j ∈ k.steps) (h : d.store.tree.IsFile j) :
    DirectoriesOutcome d k perm (.error (.onPath .notDirectory j.toString) d)
  | made (h : ∀ j ∈ k.steps, ¬d.store.tree.IsFile j) :
    DirectoriesOutcome d k perm (.ok () (d.addDirectories perm k.steps))

theorem DirectoriesOutcome.run {r} (hs : d.store.Sound) (h : DirectoriesOutcome d k perm r) :
    (makeDirectoriesAt k perm).run d = r := by
  cases h with
  | blocked hj h => exact makeDirectoriesAt_of_isFile hs hj h perm
  | made h => exact makeDirectoriesAt_of_not_isFile hs.inStep h perm

theorem directoriesOutcome (d : Disk) (k : Key) (perm : Int) :
    ∃ r, DirectoriesOutcome d k perm r := by
  by_cases h : ∃ j ∈ k.steps, d.store.tree.IsFile j
  · obtain ⟨j, hj, hfile⟩ := h
    exact ⟨_, .blocked hj hfile⟩
  · refine ⟨_, .made fun j hj hfile => h ⟨j, hj, hfile⟩⟩

/-! ## Opening files -/

theorem run_attach {content : Bytes} {mode modified : Nat} (hs : d.store.InStep)
    (h : d.store.tree.get? k = some (.file content mode modified)) (name : String)
    (flags : OpenFlags) :
    (attach k name flags).run d =
      .ok d.store.handles.length (d.addHandle (newHandle k name flags content)) := by
  rw [attach, run_bind_ok (run_contentAt (hs.get?_of_file h).1)]
  rfl

/-- What opening a file comes to. -/
inductive OpenOutcome (d : Disk) (k : Key) (path : String) (flags : OpenFlags) (perm : Int) :
    EStateM.Result Fault Disk Nat → Prop where
  | directory (h : d.store.tree.IsDirectory k) :
    OpenOutcome d k path flags perm (.error (.onPath .isDirectory path) d)
  | present (h : d.store.tree.IsFile k) (hx : (flags.create && flags.exclusive) = true) :
    OpenOutcome d k path flags perm (.error (.onPath .present path) d)
  | emptied {content : Bytes} {mode modified : Nat}
    (h : d.store.tree.get? k = some (.file content mode modified))
    (hx : (flags.create && flags.exclusive) = false)
    (ht : (flags.truncate && flags.writable) = true) :
    OpenOutcome d k path flags perm
      (.ok d.store.handles.length ((d.putFile k [] mode).addHandle (newHandle k path flags [])))
  | kept {content : Bytes} {mode modified : Nat}
    (h : d.store.tree.get? k = some (.file content mode modified))
    (hx : (flags.create && flags.exclusive) = false)
    (ht : (flags.truncate && flags.writable) = false) :
    OpenOutcome d k path flags perm
      (.ok d.store.handles.length (d.addHandle (newHandle k path flags content)))
  | missing (h : d.store.tree.get? k = none) (hc : flags.create = false) :
    OpenOutcome d k path flags perm (.error (.onPath (d.store.missing k) path) d)
  | blocked {j : Key} (h : d.store.tree.get? k = none) (hc : flags.create = true)
    (hj : j ∈ k.parent.steps) (hfile : d.store.tree.IsFile j) :
    OpenOutcome d k path flags perm (.error (.onPath .notDirectory j.toString) d)
  | made (h : d.store.tree.get? k = none) (hc : flags.create = true)
    (hfree : ∀ j ∈ k.parent.steps, ¬d.store.tree.IsFile j) :
    OpenOutcome d k path flags perm
      (.ok d.store.handles.length
        (((d.addDirectories defaultPerm k.parent.steps).putFile k []
          (Mode.regular + Mode.permissions perm)).addHandle (newHandle k path flags [])))

theorem OpenOutcome.run {r} (hs : d.store.Sound)
    (h : OpenOutcome d (Key.resolve path) path flags perm r) :
    (openFile path flags perm).run d = r := by
  rw [openFile, run_bind_ok (run_hasDirectory _ d)]
  cases h with
  | directory h =>
    rw [if_pos (hs.inStep.isDirectory_tree.1 h)]
    rfl
  | present h hx =>
    have hd := (hs.inStep.disjoint _ (hs.inStep.isFile_tree.1 h))
    simp [hs.inStep.isFile_tree.1 h, hd, hx]
  | @emptied content mode modified h hx ht =>
    have hf := hs.inStep.isFile_tree.1 (isFile_of_get? h)
    have hd := hs.inStep.disjoint _ hf
    have hput := Disk.get?_putFile d (Key.resolve path) (Key.resolve path) [] mode
    rw [if_pos rfl] at hput
    simp [hf, hd, hx, ht, modeAt_of_get? hs.inStep h, Entry.mode,
      run_attach (hs.inStep.putFile hd _ _) hput]
  | kept h hx ht =>
    have hf := hs.inStep.isFile_tree.1 (isFile_of_get? h)
    have hd := hs.inStep.disjoint _ hf
    simp [hf, hd, hx, ht, run_attach hs.inStep h]
  | missing h hc =>
    obtain ⟨hf, hd⟩ := hs.inStep.get?_tree_eq_none_iff.1 h
    simp [hf, hd, hc]
  | blocked h hc hj hfile =>
    obtain ⟨hf, hd⟩ := hs.inStep.get?_tree_eq_none_iff.1 h
    simp [hf, hd, hc, makeDirectoriesAt_of_isFile hs hj hfile]
  | made h hc hfree =>
    obtain ⟨hf, hd⟩ := hs.inStep.get?_tree_eq_none_iff.1 h
    have hstep : (d.addDirectories defaultPerm (Key.resolve path).parent.steps).store.InStep :=
      Disk.inStep_addDirectories defaultPerm hs.inStep
    have hd' := h
    rw [← Disk.get?_addDirectories_self defaultPerm hs.inStep,
      hstep.get?_tree_eq_none_iff] at hd'
    have hput := Disk.get?_putFile
      (d.addDirectories defaultPerm (Key.resolve path).parent.steps) (Key.resolve path)
      (Key.resolve path) [] (Mode.regular + Mode.permissions perm)
    rw [if_pos rfl] at hput
    have hattach := run_attach (hstep.putFile hd'.2 _ _) hput path flags
    rw [Disk.putFile_handles, Disk.addDirectories_handles] at hattach
    simp only [hf, hd, hc, Bool.false_eq_true, if_false, if_true, EStateM.run_bind, run_hasFile,
      makeDirectoriesAt_of_not_isFile hs.inStep hfree, run_putFile]
    exact hattach

/-- The number of a new handle is the number of handles that there were. -/
theorem OpenOutcome.number_of_ok {id : Nat} {e : Disk}
    (h : OpenOutcome d k path flags perm (.ok id e)) : id = d.store.handles.length := by
  cases h <;> rfl

/-- Opening ends in one of the cases. -/
theorem openOutcome (d : Disk) (k : Key) (path : String) (flags : OpenFlags) (perm : Int) :
    ∃ r, OpenOutcome d k path flags perm r := by
  cases h : d.store.tree.get? k with
  | none =>
    cases hc : flags.create with
    | false => exact ⟨_, .missing h hc⟩
    | true =>
      by_cases hfile : ∃ j ∈ k.parent.steps, d.store.tree.IsFile j
      · obtain ⟨j, hj, hfile⟩ := hfile
        exact ⟨_, .blocked h hc hj hfile⟩
      · exact ⟨_, .made h hc fun j hj hf => hfile ⟨j, hj, hf⟩⟩
  | some e =>
    cases e with
    | directory p modified => exact ⟨_, .directory ⟨p, modified, h⟩⟩
    | file content p modified =>
      cases hx : flags.create && flags.exclusive with
      | true => exact ⟨_, .present ⟨content, p, modified, h⟩ hx⟩
      | false =>
        cases ht : flags.truncate && flags.writable with
        | true => exact ⟨_, .emptied h hx ht⟩
        | false => exact ⟨_, .kept h hx ht⟩

/-! ## Files with free names -/

/-- The first of `n` numbers of a supply that is not taken, with the supply after it. -/
def search (taken : Int → Bool) : Nat → Supply → Option Int × Supply
  | 0, s => (none, s)
  | n + 1, s => if taken s.draw.1 then search taken n s.draw.2 else (some s.draw.1, s.draw.2)

/-- Trying numbers ends with the first one that is not taken. -/
theorem run_firstFree {α : Type} {attempt : Int → MemoryM α} {taken : Int → Bool}
    (htaken : ∀ number s, taken number = true → ∃ f, f.kind = .present ∧
      (attempt number).run (d.withSupply s) = .error f (d.withSupply s))
    (hfree : ∀ number s f e, taken number = false →
      (attempt number).run (d.withSupply s) = .error f e → f.kind ≠ .present) (n : Nat)
    (s : Supply) :
    (firstFree attempt n).run (d.withSupply s) =
      match search taken n s with
      | (some number, s') => (attempt number).run (d.withSupply s')
      | (none, s') => .error (.unnamed .noFreeName) (d.withSupply s') := by
  -- by induction on the attempts, from any supply: an attempt at a taken number leaves the disk as
  -- it is but for the supply
  induction n generalizing s with
  | zero => rfl
  | succ n ih =>
    rw [firstFree, search, run_bind_ok (run_draw _), run_tryCatch]
    have hdisk : (d.withSupply s).withSupply s.draw.2 = d.withSupply s.draw.2 := rfl
    rw [Disk.withSupply_supply, hdisk]
    cases ht : taken s.draw.1 with
    | true =>
      obtain ⟨f, hkind, hrun⟩ := htaken s.draw.1 s.draw.2 ht
      rw [hrun, if_pos rfl]
      simp only [if_pos hkind]
      exact ih s.draw.2
    | false =>
      rw [if_neg (by simp)]
      cases hrun : (attempt s.draw.1).run (d.withSupply s.draw.2) with
      | ok a e => simp [hrun]
      | error f e => simp [hrun, hfree s.draw.1 s.draw.2 f e ht hrun]

/-- The path of the candidate for a temporary file with a number. -/
def candidate (directory lead : String) (number : Int) : String :=
  Path.join [directory, lead ++ toString number]

/-- The candidates for a temporary file are in its directory. -/
theorem resolve_candidate {directory lead : String} (hlead : '/' ∉ lead.toList) (n : Int) :
    Key.resolve (candidate directory lead n) = Key.resolve directory ++ [lead ++ toString n] :=
  Path.resolve_join_name directory (Path.isName_append_number hlead n)

/-- Opens the candidate with a number, which must not exist. -/
def openCandidate (directory lead : String) (number : Int) : MemoryM (Nat × String) := do
  return (← openFile (candidate directory lead number) .fresh tempPerm,
    candidate directory lead number)

/-- Whether the candidate with a number is a file. -/
def taken (s : Store) (directory lead : String) (number : Int) : Bool :=
  s.hasFile (Key.resolve (candidate directory lead number))

theorem fresh_exclusive : (OpenFlags.fresh.create && OpenFlags.fresh.exclusive) = true := by decide

/-- Opening a file that must not exist finds one only if one is there. -/
theorem OpenOutcome.kind_ne_present {f : Fault} {e : Disk} (hfile : ¬d.store.tree.IsFile k)
    (h : OpenOutcome d k path flags perm (.error f e)) : f.kind ≠ .present := by
  cases h with
  | directory h => simp [Fault.onPath, Fault.kind, Refusal.kind, Refusal.number]
  | present h hx => exact absurd h hfile
  | missing h hc =>
    unfold Store.missing
    split <;> simp [Fault.onPath, Fault.kind, Refusal.kind, Refusal.number]
  | blocked h hc hj hfile => simp [Fault.onPath, Fault.kind, Refusal.kind, Refusal.number]

/-- The search for a free number, once the directory has been made. -/
def searchFrom (d : Disk) (directory lead : String) : Option Int × Supply :=
  search (taken d.store directory lead)
    (attempts (d.addDirectories defaultPerm (Key.resolve directory).steps)) d.supply

/-- What creating a file with a free name comes to. -/
inductive TempOutcome (d : Disk) (directory lead : String) :
    EStateM.Result Fault Disk (Nat × String) → Prop where
  | blocked {j : Key} (hj : j ∈ (Key.resolve directory).steps) (h : d.store.tree.IsFile j) :
    TempOutcome d directory lead (.error (.onPath .notDirectory j.toString) d)
  | exhausted {s : Supply} (hfree : ∀ j ∈ (Key.resolve directory).steps, ¬d.store.tree.IsFile j)
    (hs : searchFrom d directory lead = (none, s)) :
    TempOutcome d directory lead (.error (.unnamed .noFreeName)
      ((d.addDirectories defaultPerm (Key.resolve directory).steps).withSupply s))
  | failed {number : Int} {s : Supply} {f : Fault} {e : Disk}
    (hfree : ∀ j ∈ (Key.resolve directory).steps, ¬d.store.tree.IsFile j)
    (hs : searchFrom d directory lead = (some number, s))
    (h : OpenOutcome
      ((d.addDirectories defaultPerm (Key.resolve directory).steps).withSupply s)
      (Key.resolve (candidate directory lead number)) (candidate directory lead number) .fresh
      tempPerm (.error f e)) :
    TempOutcome d directory lead (.error f e)
  | opened {number : Int} {s : Supply} {id : Nat} {e : Disk}
    (hfree : ∀ j ∈ (Key.resolve directory).steps, ¬d.store.tree.IsFile j)
    (hs : searchFrom d directory lead = (some number, s))
    (h : OpenOutcome
      ((d.addDirectories defaultPerm (Key.resolve directory).steps).withSupply s)
      (Key.resolve (candidate directory lead number)) (candidate directory lead number) .fresh
      tempPerm (.ok id e)) :
    TempOutcome d directory lead (.ok (id, candidate directory lead number) e)

/-- The store is sound once the directory of a temporary file has been made. -/
theorem sound_tempDirectory {directory : String} (hs : d.store.Sound)
    (hfree : ∀ j ∈ (Key.resolve directory).steps, ¬d.store.tree.IsFile j) (s : Supply) :
    ((d.addDirectories defaultPerm (Key.resolve directory).steps).withSupply s).store.Sound :=
  Disk.sound_addDirectories hs (Path.isName_resolve directory) hfree defaultPerm

/-- Creating a file with a free name makes the directory, searches for a number and opens the
candidate with that number. -/
theorem run_createTemp (hs : d.store.Sound) {directory lead : String}
    (hfree : ∀ j ∈ (Key.resolve directory).steps, ¬d.store.tree.IsFile j) :
    (createTemp directory lead).run d =
      match searchFrom d directory lead with
      | (some number, s) =>
        (openCandidate directory lead number).run
          ((d.addDirectories defaultPerm (Key.resolve directory).steps).withSupply s)
      | (none, s) => .error (.unnamed .noFreeName)
        ((d.addDirectories defaultPerm (Key.resolve directory).steps).withSupply s) := by
  have hsound := sound_tempDirectory hs hfree
  have hdirs : (makeDirectories directory defaultPerm).run d = _ :=
    makeDirectoriesAt_of_not_isFile hs.inStep hfree defaultPerm
  have hfile : ∀ k,
      (d.addDirectories defaultPerm (Key.resolve directory).steps).store.tree.IsFile k ↔
        d.store.hasFile k = true := by
    intro k
    rw [Disk.isFile_addDirectories defaultPerm hs.inStep, hs.inStep.isFile_tree]
  have hsupply : (d.addDirectories defaultPerm (Key.resolve directory).steps).supply = d.supply :=
    Disk.addDirectories_supply defaultPerm
  rw [searchFrom, createTemp, run_bind_ok hdirs, ← hsupply]
  -- from here on it only matters that the disk has the same files
  generalize d.addDirectories defaultPerm (Key.resolve directory).steps = d' at hsound hfile
  rw [run_bind_ok (EStateM.run_get d')]
  have htaken : ∀ number s, taken d.store directory lead number = true → ∃ f, f.kind = .present ∧
      (openCandidate directory lead number).run (d'.withSupply s) =
        .error f (d'.withSupply s) := by
    intro number s ht
    have hopen : (openFile (candidate directory lead number) .fresh tempPerm).run
        (d'.withSupply s) =
          .error (.onPath .present (candidate directory lead number)) (d'.withSupply s) :=
      OpenOutcome.run (hsound s) (.present ((hfile _).2 ht) fresh_exclusive)
    refine ⟨.onPath .present (candidate directory lead number), ?_, ?_⟩
    · simp [Fault.onPath, Fault.kind, Refusal.kind, Refusal.number]
    · rw [openCandidate, run_bind_error hopen]
  have hother : ∀ number s f e, taken d.store directory lead number = false →
      (openCandidate directory lead number).run (d'.withSupply s) = .error f e →
      f.kind ≠ .present := by
    intro number s f e ht hrun
    have hf : ¬(d'.withSupply s).store.tree.IsFile
        (Key.resolve (candidate directory lead number)) := by
      rw [Disk.withSupply_store, hfile, Bool.not_eq_true]
      exact ht
    obtain ⟨r, hr⟩ := openOutcome (d'.withSupply s) (Key.resolve (candidate directory lead number))
      (candidate directory lead number) .fresh tempPerm
    have hopen := hr.run (hsound s)
    cases r with
    | ok id e' =>
      rw [openCandidate, run_bind_ok hopen] at hrun
      cases hrun
    | error f' e' =>
      rw [openCandidate, run_bind_error hopen] at hrun
      cases hrun
      exact hr.kind_ne_present hf
  exact run_firstFree htaken hother (attempts d') d'.supply

theorem TempOutcome.run {directory lead : String} {r} (hs : d.store.Sound)
    (h : TempOutcome d directory lead r) : (createTemp directory lead).run d = r := by
  cases h with
  | blocked hj h =>
    have hdirs := makeDirectoriesAt_of_isFile hs hj h defaultPerm
    exact run_bind_error hdirs
  | exhausted hfree hsearch => rw [run_createTemp hs hfree, hsearch]
  | failed hfree hsearch h =>
    rw [run_createTemp hs hfree, hsearch]
    exact run_bind_error (h.run (sound_tempDirectory hs hfree _))
  | opened hfree hsearch h =>
    rw [run_createTemp hs hfree, hsearch]
    exact run_bind_ok (h.run (sound_tempDirectory hs hfree _))

theorem TempOutcome.number_of_ok {directory lead : String} {a : Nat × String} {e : Disk}
    (h : TempOutcome d directory lead (.ok a e)) : a.1 = d.store.handles.length := by
  cases h with
  | opened hfree hsearch h =>
    have hid := h.number_of_ok
    rwa [Disk.withSupply_store, Disk.addDirectories_handles] at hid

/-- Creating a file with a free name ends in one of the cases. -/
theorem tempOutcome (d : Disk) (directory lead : String) : ∃ r, TempOutcome d directory lead r := by
  by_cases hfile : ∃ j ∈ (Key.resolve directory).steps, d.store.tree.IsFile j
  · obtain ⟨j, hj, hfile⟩ := hfile
    exact ⟨_, .blocked hj hfile⟩
  have hfree : ∀ j ∈ (Key.resolve directory).steps, ¬d.store.tree.IsFile j := by
    intro j hj hf
    exact hfile ⟨j, hj, hf⟩
  cases hsearch : searchFrom d directory lead with
  | mk number s =>
    cases number with
    | none => exact ⟨_, .exhausted hfree hsearch⟩
    | some number =>
      obtain ⟨r, hr⟩ := openOutcome
        ((d.addDirectories defaultPerm (Key.resolve directory).steps).withSupply s)
        (Key.resolve (candidate directory lead number)) (candidate directory lead number) .fresh
        tempPerm
      cases r with
      | ok id e => exact ⟨_, .opened hfree hsearch hr⟩
      | error f e => exact ⟨_, .failed hfree hsearch hr⟩

/-! ## Moving entries -/

/-- A file other than its destination may be moved there, once the directories on the way have been
made, when no file is in the way. -/
theorem movable_of_isFile {src dst : Key} (hs : d.store.Sound) (hne : src ≠ dst)
    (hsrc : d.store.tree.IsFile src) (hdst : ¬d.store.tree.IsDirectory dst)
    (hfree : ∀ j ∈ dst.parent.steps, ¬d.store.tree.IsFile j) :
    (d.addDirectories defaultPerm dst.parent.steps).store.tree.Movable src dst where
  src_ne := by
    rintro rfl
    exact hsrc.not_isDirectory hs.tree.root
  dst_ne := by
    rintro rfl
    exact hdst hs.tree.root
  out := by
    by_contra hin
    rw [Bool.not_eq_false] at hin
    obtain ⟨rest, rfl⟩ := Key.within_iff.1 hin
    -- the file would lead to its own destination
    have hrest : rest ≠ [] := fun hnil => hne (by rw [hnil, List.append_nil])
    have hsrc_ne : src ≠ [] := by
      rintro rfl
      exact hsrc.not_isDirectory hs.tree.root
    refine hfree src (Key.mem_steps.2 ⟨hsrc_ne, ?_⟩) hsrc
    rw [Key.parent_append hrest]
    exact List.prefix_append src _
  source := by
    rw [Disk.get?_addDirectories_of_isSome _ hs.inStep hsrc.isSome]
    exact hsrc.isSome
  parent := Disk.isDirectory_addDirectories_self hs.inStep hs.tree hfree defaultPerm
  below := by
    intro rest hrest
    rw [Disk.get?_addDirectories_append _ hs.inStep]
    exact hs.tree.get?_append_eq_none hdst hrest

/-- A directory may be moved to an empty place outside it, once the directories on the way have been
made, when no file is in the way. -/
theorem movable_of_isDirectory {src dst : Key} (hs : d.store.Sound) (hroot : src ≠ [])
    (hsrc : d.store.tree.IsDirectory src) (hout : Key.within src dst = false)
    (hchildren : d.store.children dst = [])
    (hfree : ∀ j ∈ dst.parent.steps, ¬d.store.tree.IsFile j) :
    (d.addDirectories defaultPerm dst.parent.steps).store.tree.Movable src dst where
  src_ne := hroot
  dst_ne := by
    rintro rfl
    have hnone := hs.inStep.children_eq_nil_iff.1 hchildren src hroot
    exact not_isDirectory_of_none hnone hsrc
  out := hout
  source := by
    rw [Disk.get?_addDirectories_of_isSome _ hs.inStep hsrc.isSome]
    exact hsrc.isSome
  parent := Disk.isDirectory_addDirectories_self hs.inStep hs.tree hfree defaultPerm
  below := by
    intro rest hrest
    rw [Disk.get?_addDirectories_append _ hs.inStep]
    exact hs.inStep.children_eq_nil_iff.1 hchildren rest hrest

/-- A file can be moved: the store is sound, and there is no directory at the destination. -/
structure FileMove (d : Disk) (src dst : Key) : Prop where
  sound : d.store.Sound
  names : ∀ a ∈ dst, Path.IsName a
  movable : d.store.tree.Movable src dst
  source : d.store.tree.IsFile src
  free : ¬d.store.tree.IsDirectory dst

/-- A directory can be moved: the store is sound, and there is no file at the destination. -/
structure DirectoryMove (d : Disk) (src dst : Key) : Prop where
  sound : d.store.Sound
  names : ∀ a ∈ dst, Path.IsName a
  movable : d.store.tree.Movable src dst
  source : d.store.tree.IsDirectory src
  free : ¬d.store.tree.IsFile dst

/-- A file can be moved once the directories on the way to its destination have been made. -/
theorem fileMove {src dst : Key} (hs : d.store.Sound) (hnames : ∀ a ∈ dst, Path.IsName a)
    (hne : src ≠ dst) (hsrc : d.store.tree.IsFile src) (hdst : ¬d.store.tree.IsDirectory dst)
    (hfree : ∀ j ∈ dst.parent.steps, ¬d.store.tree.IsFile j) :
    FileMove (d.addDirectories defaultPerm dst.parent.steps) src dst where
  sound := Disk.sound_addDirectories hs (Path.isName_parent hnames) hfree defaultPerm
  names := hnames
  movable := movable_of_isFile hs hne hsrc hdst hfree
  source := (Disk.isFile_addDirectories defaultPerm hs.inStep).2 hsrc
  free := mt (IsDirectory.congr (Disk.get?_addDirectories_self defaultPerm hs.inStep dst)).1 hdst

/-- A directory can be moved once they have been made. -/
theorem directoryMove {src dst : Key} (hs : d.store.Sound) (hnames : ∀ a ∈ dst, Path.IsName a)
    (hroot : src ≠ []) (hsrc : d.store.tree.IsDirectory src) (hdst : ¬d.store.tree.IsFile dst)
    (hout : Key.within src dst = false) (hchildren : d.store.children dst = [])
    (hfree : ∀ j ∈ dst.parent.steps, ¬d.store.tree.IsFile j) :
    DirectoryMove (d.addDirectories defaultPerm dst.parent.steps) src dst where
  sound := Disk.sound_addDirectories hs (Path.isName_parent hnames) hfree defaultPerm
  names := hnames
  movable := movable_of_isDirectory hs hroot hsrc hout hchildren hfree
  source := (Disk.isDirectory_addDirectories defaultPerm hs.inStep).2 (.inl hsrc)
  free := mt (Disk.isFile_addDirectories defaultPerm hs.inStep).1 hdst

/-- The entries after a file has been moved; handles that are on a file that has gone have been
taken off it before. -/
theorem FileMove.moved {src dst : Key} (h : FileMove d src dst) :
    Store.Moved (d.mapHandles (Handle.detach dst)).store
      ((d.mapHandles (Handle.detach dst)).store.movedFile src dst) src dst :=
  Store.moved_movedFile (h.sound.inStep.withHandles _) h.sound.tree h.movable h.source h.free

/-- The entries after a directory has been moved. -/
theorem DirectoryMove.moved {src dst : Key} (h : DirectoryMove d src dst) :
    Store.Moved d.store (d.store.movedAll src dst) src dst :=
  (run_moveAll h.sound.inStep h.movable h.source h.free).2

/-- What renaming comes to. -/
inductive RenameOutcome (d : Disk) (src dst : Key) (path target : String) :
    EStateM.Result Fault Disk Unit → Prop where
  | same (h : src = dst) : RenameOutcome d src dst path target (.ok () d)
  | missing (hne : src ≠ dst) (h : d.store.tree.get? src = none) :
    RenameOutcome d src dst path target (.error (.onPath (d.store.missing src) path) d)
  | ontoDirectory (hsrc : d.store.tree.IsFile src) (hdst : d.store.tree.IsDirectory dst) :
    RenameOutcome d src dst path target (.error (.onPath .isDirectory target) d)
  | fileBlocked {j : Key} (hne : src ≠ dst) (hsrc : d.store.tree.IsFile src)
    (hdst : ¬d.store.tree.IsDirectory dst) (hj : j ∈ dst.parent.steps)
    (hfile : d.store.tree.IsFile j) :
    RenameOutcome d src dst path target (.error (.onPath .notDirectory j.toString) d)
  | fileMoved (hne : src ≠ dst) (hsrc : d.store.tree.IsFile src)
    (hdst : ¬d.store.tree.IsDirectory dst)
    (hfree : ∀ j ∈ dst.parent.steps, ¬d.store.tree.IsFile j) :
    RenameOutcome d src dst path target
      (.ok () ((((d.addDirectories defaultPerm dst.parent.steps).mapHandles
        (Handle.detach dst)).mapStore (Store.movedFile src dst)).mapHandles
          (Handle.follow src dst)))
  | root (hne : src ≠ dst) (h : src = []) :
    RenameOutcome d src dst path target (.error (.onPath .renameRoot path) d)
  | ontoFile (hroot : src ≠ []) (hsrc : d.store.tree.IsDirectory src)
    (hdst : d.store.tree.IsFile dst) :
    RenameOutcome d src dst path target (.error (.onPath .notDirectory target) d)
  | intoItself (hne : src ≠ dst) (hroot : src ≠ []) (hsrc : d.store.tree.IsDirectory src)
    (hdst : ¬d.store.tree.IsFile dst) (hin : Key.within src dst = true) :
    RenameOutcome d src dst path target (.error (.onPath .intoItself target) d)
  | notEmpty (hroot : src ≠ []) (hsrc : d.store.tree.IsDirectory src)
    (hdst : d.store.tree.IsDirectory dst) (hout : Key.within src dst = false)
    (hchildren : d.store.children dst ≠ []) :
    RenameOutcome d src dst path target (.error (.onPath .notEmpty target) d)
  | directoryBlocked {j : Key} (hroot : src ≠ []) (hsrc : d.store.tree.IsDirectory src)
    (hdst : ¬d.store.tree.IsFile dst) (hout : Key.within src dst = false)
    (hchildren : d.store.children dst = []) (hj : j ∈ dst.parent.steps)
    (hfile : d.store.tree.IsFile j) :
    RenameOutcome d src dst path target (.error (.onPath .notDirectory j.toString) d)
  | directoryMoved (hroot : src ≠ []) (hsrc : d.store.tree.IsDirectory src)
    (hdst : ¬d.store.tree.IsFile dst) (hout : Key.within src dst = false)
    (hchildren : d.store.children dst = [])
    (hfree : ∀ j ∈ dst.parent.steps, ¬d.store.tree.IsFile j) :
    RenameOutcome d src dst path target
      (.ok () (((d.addDirectories defaultPerm dst.parent.steps).mapStore
        (Store.movedAll src dst)).mapHandles (Handle.follow src dst)))

/-- A directory whose destination is outside it, no file, and empty is moved once the directories
there are made. -/
theorem run_renameDirectory {src dst : Key} (hs : d.store.Sound) (hroot : src ≠ [])
    (hdst : ¬d.store.tree.IsFile dst) (hout : Key.within src dst = false)
    (hchildren : d.store.children dst = []) (path target : String) :
    (renameDirectory src dst path target).run d =
      (do
        makeDirectoriesAt dst.parent defaultPerm
        moveAll src dst
        modifyHandles (Handle.follow src dst) : MemoryM Unit).run d := by
  rw [hs.inStep.isFile_tree, Bool.not_eq_true] at hdst
  rw [renameDirectory, if_neg hroot]
  cases hd : d.store.hasDirectory dst <;> simp [hdst, hd, hout, hchildren, moveAll]

theorem RenameOutcome.run {target : String} {r} (hs : d.store.Sound)
    (h : RenameOutcome d (Key.resolve path) (Key.resolve target) path target r) :
    (rename path target).run d = r := by
  have hfile : ∀ {k}, d.store.tree.IsFile k → d.store.hasFile k = true := hs.inStep.isFile_tree.1
  have hdir : ∀ {k}, d.store.tree.IsDirectory k → d.store.hasDirectory k = true :=
    hs.inStep.isDirectory_tree.1
  have hnofile : ∀ {k}, d.store.tree.IsDirectory k → d.store.hasFile k = false :=
    hs.inStep.hasFile_of_isDirectory
  have hnodir : ∀ {k}, ¬d.store.tree.IsDirectory k → d.store.hasDirectory k = false :=
    hs.inStep.hasDirectory_of_not_isDirectory
  rw [rename]
  cases h with
  | same h => simp [h]
  | missing hne h =>
    obtain ⟨hf, hd⟩ := hs.inStep.get?_tree_eq_none_iff.1 h
    simp [hne, hf, hd]
  | ontoDirectory hsrc hdst =>
    have hne : Key.resolve path ≠ Key.resolve target := by
      intro heq
      exact hsrc.not_isDirectory (heq ▸ hdst)
    simp [hne, hfile hsrc, hdir hdst, renameFile]
  | fileBlocked hne hsrc hdst hj hblock =>
    simp [hne, hfile hsrc, hnodir hdst, renameFile, makeDirectoriesAt_of_isFile hs hj hblock]
  | fileMoved hne hsrc hdst hfree =>
    have hmove := run_moveFile_mapHandles
      (d := d.addDirectories defaultPerm (Key.resolve target).parent.steps)
      (Disk.inStep_addDirectories defaultPerm hs.inStep)
      ((Disk.isFile_addDirectories defaultPerm hs.inStep).2 hsrc)
      (Handle.detach (Key.resolve target)) (Key.resolve target)
    simp [hne, hfile hsrc, hnodir hdst, renameFile,
      makeDirectoriesAt_of_not_isFile hs.inStep hfree, hmove]
  | root hne h =>
    rw [h] at hne ⊢
    simp [hne, hnofile hs.tree.root, hdir hs.tree.root, renameDirectory]
  | ontoFile hroot hsrc hdst =>
    have hne : Key.resolve path ≠ Key.resolve target := by
      intro heq
      exact hsrc.not_isFile (heq ▸ hdst)
    simp [hne, hnofile hsrc, hdir hsrc, hfile hdst, hroot, renameDirectory]
  | intoItself hne hroot hsrc hdst hin =>
    rw [hs.inStep.isFile_tree, Bool.not_eq_true] at hdst
    simp [hne, hnofile hsrc, hdir hsrc, hdst, hin, hroot, renameDirectory]
  | notEmpty hroot hsrc hdst hout hchildren =>
    have hne := Key.ne_of_within_eq_false hout
    simp [hne, hnofile hsrc, hdir hsrc, hnofile hdst, hdir hdst, hroot, hout, hchildren,
      renameDirectory]
  | directoryBlocked hroot hsrc hdst hout hchildren hj hblock =>
    have hne := Key.ne_of_within_eq_false hout
    simp [hne, hnofile hsrc, hdir hsrc, run_renameDirectory hs hroot hdst hout hchildren,
      makeDirectoriesAt_of_isFile hs hj hblock]
  | directoryMoved hroot hsrc hdst hout hchildren hfree =>
    have hne := Key.ne_of_within_eq_false hout
    have h := directoryMove hs (Path.isName_resolve target) hroot hsrc hdst hout hchildren hfree
    have hmove := (run_moveAll h.sound.inStep h.movable h.source h.free).1
    simp [hne, hnofile hsrc, hdir hsrc, run_renameDirectory hs hroot hdst hout hchildren,
      makeDirectoriesAt_of_not_isFile hs.inStep hfree, hmove]

/-- Renaming ends in one of the cases. -/
theorem renameOutcome (hs : d.store.Sound) (src dst : Key) (path target : String) :
    ∃ r, RenameOutcome d src dst path target r := by
  by_cases hne : src = dst
  · exact ⟨_, .same hne⟩
  cases hsrc : d.store.tree.get? src with
  | none => exact ⟨_, .missing hne hsrc⟩
  | some e =>
    rcases isFile_or_isDirectory (t := d.store.tree) (k := src) (by simp [hsrc]) with hf | hd
    · by_cases hdst : d.store.tree.IsDirectory dst
      · exact ⟨_, .ontoDirectory hf hdst⟩
      by_cases hfile : ∃ j ∈ dst.parent.steps, d.store.tree.IsFile j
      · obtain ⟨j, hj, hfile⟩ := hfile
        exact ⟨_, .fileBlocked hne hf hdst hj hfile⟩
      · exact ⟨_, .fileMoved hne hf hdst fun j hj hfj => hfile ⟨j, hj, hfj⟩⟩
    by_cases hroot : src = []
    · exact ⟨_, .root hne hroot⟩
    by_cases hdst : d.store.tree.IsFile dst
    · exact ⟨_, .ontoFile hroot hd hdst⟩
    cases hin : Key.within src dst with
    | true => exact ⟨_, .intoItself hne hroot hd hdst hin⟩
    | false =>
      by_cases hchildren : d.store.children dst = []
      · by_cases hfile : ∃ j ∈ dst.parent.steps, d.store.tree.IsFile j
        · obtain ⟨j, hj, hfile⟩ := hfile
          exact ⟨_, .directoryBlocked hroot hd hdst hin hchildren hj hfile⟩
        · exact ⟨_, .directoryMoved hroot hd hdst hin hchildren fun j hj hfj => hfile ⟨j, hj, hfj⟩⟩
      · have hdir : d.store.tree.IsDirectory dst := by
          by_contra hnot
          exact hchildren (hs.inStep.children_eq_nil_iff.2 fun rest hrest =>
            hs.tree.get?_append_eq_none hnot hrest)
        exact ⟨_, .notEmpty hroot hd hdir hin hchildren⟩

/-! ## Removing entries -/

/-- What removing comes to. -/
inductive RemoveOutcome (d : Disk) (k : Key) (path : String) :
    EStateM.Result Fault Disk Unit → Prop where
  | file (h : d.store.tree.IsFile k) :
    RemoveOutcome d k path (.ok () ((d.mapStore (·.eraseFile k)).mapHandles (Handle.detach k)))
  | root (h : k = []) : RemoveOutcome d k path (.error (.onPath .removeRoot path) d)
  | notEmpty (hroot : k ≠ []) (h : d.store.tree.IsDirectory k)
    (hchildren : d.store.children k ≠ []) :
    RemoveOutcome d k path (.error (.onPath .notEmpty path) d)
  | directory (hroot : k ≠ []) (h : d.store.tree.IsDirectory k)
    (hchildren : d.store.children k = []) :
    RemoveOutcome d k path (.ok () (d.mapStore (·.eraseDirectory k)))
  | missing (h : d.store.tree.get? k = none) :
    RemoveOutcome d k path (.error (.onPath (d.store.missing k) path) d)

theorem RemoveOutcome.run {r} (hs : d.store.Sound)
    (h : RemoveOutcome d (Key.resolve path) path r) : (remove path).run d = r := by
  have hdir : ∀ {k}, d.store.tree.IsDirectory k → d.store.hasDirectory k = true :=
    hs.inStep.isDirectory_tree.1
  have hnofile : ∀ {k}, d.store.tree.IsDirectory k → d.store.hasFile k = false :=
    hs.inStep.hasFile_of_isDirectory
  rw [remove, run_bind_ok (run_hasFile _ d)]
  cases h with
  | file h =>
    obtain ⟨content, mode, modified, hget⟩ := h
    have hf := hs.inStep.isFile_tree.1 (isFile_of_get? hget)
    simp [hf, run_stampAt (hs.inStep.get?_of_file hget).2]
  | root h =>
    rw [h]
    simp [hnofile hs.tree.root, hdir hs.tree.root]
  | notEmpty hroot h hchildren => simp [hnofile h, hdir h, hroot, hchildren]
  | directory hroot h hchildren =>
    obtain ⟨stamp, hstamp, -⟩ := hs.inStep.directory_of_hasDirectory (hdir h)
    simp [hnofile h, hdir h, hroot, hchildren, run_stampAt hstamp]
  | missing h =>
    obtain ⟨hf, hd⟩ := hs.inStep.get?_tree_eq_none_iff.1 h
    simp [hf, hd]

/-- Removing ends in one of the cases. -/
theorem removeOutcome (d : Disk) (k : Key) (path : String) : ∃ r, RemoveOutcome d k path r := by
  cases hk : d.store.tree.get? k with
  | none => exact ⟨_, .missing hk⟩
  | some e =>
    rcases isFile_or_isDirectory (t := d.store.tree) (k := k) (by simp [hk]) with hf | hd
    · exact ⟨_, .file hf⟩
    by_cases hroot : k = []
    · exact ⟨_, .root hroot⟩
    by_cases hchildren : d.store.children k = []
    · exact ⟨_, .directory hroot hd hchildren⟩
    · exact ⟨_, .notEmpty hroot hd hchildren⟩

/-! ## Metadata -/

/-- The metadata of an entry at a key. -/
def Entry.info {σ : Type} (k : Key) (e : Entry) : FileInfo σ where
  name := k.name
  size := e.size
  mode := e.mode
  modified := some (.ofTick e.modified)
  payload := none

theorem run_info {σ : Type} {e : Entry} (hs : d.store.InStep) (h : d.store.tree.get? k = some e) :
    (info (σ := σ) k).run d = .ok (e.info k) d := by
  rw [info, run_bind_ok (run_stampAt (hs.get?_stamps h)), run_bind_ok (EStateM.run_get d)]
  cases e with
  | file content mode modified =>
    rw [(hs.get?_of_file h).1]
    rfl
  | directory mode modified =>
    have hf := (isDirectory_of_get? h).not_isFile
    rw [hs.isFile_tree, Bool.not_eq_true, Store.hasFile, Option.isSome_eq_false_iff,
      Option.isNone_iff_eq_none] at hf
    rw [hf]
    rfl

/-- What asking for metadata comes to. -/
inductive StatOutcome {σ : Type} (d : Disk) (k : Key) (path : String) :
    EStateM.Result Fault Disk (FileInfo σ) → Prop where
  | present {e : Entry} (h : d.store.tree.get? k = some e) : StatOutcome d k path (.ok (e.info k) d)
  | missing (h : d.store.tree.get? k = none) :
    StatOutcome d k path (.error (.onPath (d.store.missing k) path) d)

theorem StatOutcome.run {σ : Type} {r : EStateM.Result Fault Disk (FileInfo σ)}
    (hs : d.store.Sound) (h : StatOutcome d (Key.resolve path) path r) :
    (stat path).run d = r := by
  rw [stat, run_bind_ok (run_hasFile _ d), run_bind_ok (run_hasDirectory _ d)]
  cases h with
  | @present e h =>
    have hsome : (d.store.tree.get? (Key.resolve path)).isSome = true := by
      rw [h]
      rfl
    rw [hs.inStep.isSome_get?_tree] at hsome
    rw [if_pos hsome, run_info hs.inStep h]
  | missing h =>
    obtain ⟨hf, hd⟩ := hs.inStep.get?_tree_eq_none_iff.1 h
    simp [hf, hd]

/-- Asking for metadata ends in one of the cases. -/
theorem statOutcome {σ : Type} (d : Disk) (k : Key) (path : String) :
    ∃ r : EStateM.Result Fault Disk (FileInfo σ), StatOutcome d k path r := by
  cases h : d.store.tree.get? k with
  | none => exact ⟨_, .missing h⟩
  | some e => exact ⟨_, .present h⟩

/-- The metadata of the entries with names below a key. -/
def infos {σ : Type} (t : Tree Entry) (k : Key) (names : List String) : List (FileInfo σ) :=
  names.filterMap fun name => (t.get? (k ++ [name])).map (Entry.info (k ++ [name]))

/-- What listing comes to. -/
inductive ListOutcome {σ : Type} (d : Disk) (k : Key) (path : String) :
    EStateM.Result Fault Disk (List (FileInfo σ)) → Prop where
  | file (h : d.store.tree.IsFile k) :
    ListOutcome d k path (.error (.onPath .notDirectory path) d)
  | directory (h : d.store.tree.IsDirectory k) :
    ListOutcome d k path (.ok (infos d.store.tree k (d.store.children k)) d)
  | missing (h : d.store.tree.get? k = none) :
    ListOutcome d k path (.error (.onPath (d.store.missing k) path) d)

/-- No name of a directory's entry is without an entry. -/
theorem isSome_of_mem_children {s : Store} (hs : s.Sound) {name : String}
    (h : name ∈ s.children k) : (s.tree.get? (k ++ [name])).isSome = true := by
  obtain ⟨rest, hrest⟩ := hs.inStep.mem_children.1 h
  cases rest with
  | nil => exact hrest
  | cons b rest =>
    rw [List.append_cons] at hrest
    exact (hs.tree.isDirectory_of_append (by simp) hrest).isSome

theorem run_mapM_info {σ : Type} (hs : d.store.InStep) {names : List String}
    (h : ∀ name ∈ names, (d.store.tree.get? (k ++ [name])).isSome = true) :
    (names.mapM fun name => info (σ := σ) (k ++ [name])).run d =
      .ok (infos d.store.tree k names) d := by
  induction names with
  | nil => rfl
  | cons name names ih =>
    obtain ⟨e, he⟩ := Option.isSome_iff_exists.1 (h name List.mem_cons_self)
    rw [List.mapM_cons, run_bind_ok (run_info hs he),
      run_bind_ok (ih fun n hn => h n (List.mem_cons_of_mem name hn)), infos, infos,
      List.filterMap_cons, he]
    rfl

theorem ListOutcome.run {σ : Type} {r : EStateM.Result Fault Disk (List (FileInfo σ))}
    (hs : d.store.Sound) (h : ListOutcome d (Key.resolve path) path r) :
    (list path).run d = r := by
  rw [list, run_bind_ok (run_hasFile _ d)]
  cases h with
  | file h => simp [hs.inStep.isFile_tree.1 h]
  | directory h =>
    have hf := h.not_isFile
    rw [hs.inStep.isFile_tree, Bool.not_eq_true] at hf
    have hnames := run_mapM_info (σ := σ) hs.inStep fun name hname =>
      isSome_of_mem_children hs (k := Key.resolve path) hname
    simp [hf, hs.inStep.isDirectory_tree.1 h, hnames]
  | missing h =>
    obtain ⟨hf, hd⟩ := hs.inStep.get?_tree_eq_none_iff.1 h
    simp [hf, hd]

/-- Listing ends in one of the cases. -/
theorem listOutcome {σ : Type} (d : Disk) (k : Key) (path : String) :
    ∃ r : EStateM.Result Fault Disk (List (FileInfo σ)), ListOutcome d k path r := by
  cases hk : d.store.tree.get? k with
  | none => exact ⟨_, .missing hk⟩
  | some e =>
    rcases isFile_or_isDirectory (t := d.store.tree) (k := k) (by simp [hk]) with hf | hd
    · exact ⟨_, .file hf⟩
    · exact ⟨_, .directory hd⟩

/-! ## Calls -/

/-- A result with its answer changed. -/
def mapResult {α β : Type} (f : α → β) : EStateM.Result Fault Disk α → EStateM.Result Fault Disk β
  | .ok a d => .ok (f a) d
  | .error err d => .error err d

@[simp] theorem diskOf_mapResult {α β : Type} (f : α → β) (r : EStateM.Result Fault Disk α) :
    diskOf (mapResult f r) = diskOf r := by
  cases r <;> rfl

/-- What a call comes to. -/
inductive CallOutcome (d : Disk) :
    Call → EStateM.Result Fault Disk (Answer (Nat × String)) → Prop where
  | create {path r} (h : OpenOutcome d (Key.resolve path) path .rewriting 0o666 r) :
    CallOutcome d (.create path) (mapResult (fun id => .file (id, path)) r)
  | openRead {path r} (h : OpenOutcome d (Key.resolve path) path .reading 0 r) :
    CallOutcome d (.openRead path) (mapResult (fun id => .file (id, path)) r)
  | openFile {path flags perm r} (h : OpenOutcome d (Key.resolve path) path flags perm r) :
    CallOutcome d (.openFile path flags perm) (mapResult (fun id => .file (id, path)) r)
  | createTemp {directory lead r} (h : TempOutcome d directory lead r) :
    CallOutcome d (.createTemp directory lead) (mapResult .file r)
  | rename {path target r}
    (h : RenameOutcome d (Key.resolve path) (Key.resolve target) path target r) :
    CallOutcome d (.rename path target) (mapResult (fun _ => .done) r)
  | remove {path r} (h : RemoveOutcome d (Key.resolve path) path r) :
    CallOutcome d (.remove path) (mapResult (fun _ => .done) r)
  | makeDirectories {path perm r} (h : DirectoriesOutcome d (Key.resolve path) perm r) :
    CallOutcome d (.makeDirectories path perm) (mapResult (fun _ => .done) r)
  | stat {path r} (h : StatOutcome d (Key.resolve path) path r) :
    CallOutcome d (.stat path) (mapResult (fun i => .info (.plain i)) r)
  | list {path r} (h : ListOutcome d (Key.resolve path) path r) :
    CallOutcome d (.list path) (mapResult (fun l => .listing (l.map .plain)) r)

theorem run_bind_pure {α β : Type} {x : MemoryM α} {r : EStateM.Result Fault Disk α}
    (h : x.run d = r) (f : α → β) :
    (x >>= fun a => pure (f a)).run d = mapResult f r := by
  subst h
  rw [EStateM.run_bind]
  cases x.run d <;> rfl

/-- A case of a call that applies tells how it ends. -/
theorem CallOutcome.run {c : Call} {r} (hs : d.store.Sound) (h : CallOutcome d c r) :
    (perform c).run d = r := by
  cases h with
  | create h => exact run_bind_pure (h.run hs) _
  | openRead h => exact run_bind_pure (h.run hs) _
  | openFile h => exact run_bind_pure (h.run hs) _
  | createTemp h => exact run_bind_pure (h.run hs) _
  | rename h => exact run_bind_pure (h.run hs) _
  | remove h => exact run_bind_pure (h.run hs) _
  | makeDirectories h => exact run_bind_pure (h.run hs) _
  | stat h => exact run_bind_pure (h.run hs) _
  | list h => exact run_bind_pure (h.run hs) _

/-- Every call ends in one of its cases. -/
theorem callOutcome (hs : d.store.Sound) (c : Call) : CallOutcome d c ((perform c).run d) := by
  have hall : ∃ r, CallOutcome d c r := by
    cases c with
    | create path => exact (openOutcome d _ path .rewriting 0o666).elim fun _ h => ⟨_, .create h⟩
    | openRead path => exact (openOutcome d _ path .reading 0).elim fun _ h => ⟨_, .openRead h⟩
    | openFile path flags perm =>
      exact (openOutcome d _ path flags perm).elim fun _ h => ⟨_, .openFile h⟩
    | createTemp directory lead =>
      exact (tempOutcome d directory lead).elim fun _ h => ⟨_, .createTemp h⟩
    | rename path target => exact (renameOutcome hs _ _ path target).elim fun _ h => ⟨_, .rename h⟩
    | remove path => exact (removeOutcome d _ path).elim fun _ h => ⟨_, .remove h⟩
    | makeDirectories path perm =>
      exact (directoriesOutcome d _ perm).elim fun _ h => ⟨_, .makeDirectories h⟩
    | stat path => exact (statOutcome d _ path).elim fun _ h => ⟨_, .stat h⟩
    | list path => exact (listOutcome d _ path).elim fun _ h => ⟨_, .list h⟩
  obtain ⟨r, hr⟩ := hall
  rwa [hr.run hs]

end RootedFS.Memory
