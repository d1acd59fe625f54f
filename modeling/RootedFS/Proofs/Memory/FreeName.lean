import RootedFS.Proofs.Memory.TempFile
import RootedFS.Proofs.Session

/-!
# The first free name

A temporary file is made at the first number whose candidate is free, as long as only files stand at
the candidates before it. A directory at one of them is not passed over: creating the file ends
there, with a failure.

## Main definitions

* `Supply.number`, `Supply.after`: the numbers that a supply gives one after another, and what is
  left of it

## Main results

* `searchFrom_of_first`: the number that is found is the first whose candidate is no file
* `Reachable.createTemp_first`: a temporary file is made at the first free name, or a directory is
  in the way
-/

namespace RootedFS

/-- What is left of a supply when some numbers have been drawn. -/
def Supply.after (s : Supply) : Nat → Supply
  | 0 => s
  | n + 1 => s.draw.2.after n

/-- The number that a supply gives after some others. -/
def Supply.number (s : Supply) (n : Nat) : Int :=
  (s.after n).draw.1

namespace Memory

open Tree World

/-! ## The first number -/

/-- A search ends at the first number that is not taken. -/
theorem search_of_first {taken : Int → Bool} {s : Supply} {n : Nat}
    (hbefore : ∀ i < n, taken (s.number i) = true) (hn : taken (s.number n) = false) :
    search taken (n + 1) s = (some (s.number n), s.after (n + 1)) := by
  -- by induction on the numbers that are passed over, from any supply
  induction n generalizing s with
  | zero =>
    have hfirst : taken s.draw.1 = false := hn
    rw [search, hfirst]
    rfl
  | succ n ih =>
    have hfirst : taken s.draw.1 = true := hbefore 0 (Nat.zero_lt_succ n)
    rw [search, if_pos hfirst]
    exact ih (fun i hi => hbefore (i + 1) (Nat.succ_lt_succ hi)) hn

section

variable {d : Disk} {directory lead : String} {n : Nat}

/-- The number that is found is the first whose candidate is no file, however many attempts there
are. -/
theorem searchFrom_of_first (hlead : '/' ∉ lead.toList)
    (hbefore : ∀ i < n, taken d.store directory lead (d.supply.number i) = true)
    (hn : taken d.store directory lead (d.supply.number n) = false) :
    searchFrom d directory lead = (some (d.supply.number n), d.supply.after (n + 1)) := by
  -- the attempts are enough for some number, and enough attempts end at the same one
  obtain ⟨number, supply, hsearch⟩ := exists_searchFrom d directory hlead
  obtain ⟨hnumber, hsupply⟩ := search_unique (search_of_first hbefore hn) hsearch
  rw [hsearch, hnumber, hsupply]

variable (hs : d.store.Sound) (hlead : '/' ∉ lead.toList)
  (hbefore : ∀ i < n,
    d.store.tree.IsFile (Key.resolve (candidate directory lead (d.supply.number i))))
include hs hlead hbefore

theorem searchFrom_of_not_isFile
    (hn : ¬d.store.tree.IsFile (Key.resolve (candidate directory lead (d.supply.number n)))) :
    searchFrom d directory lead = (some (d.supply.number n), d.supply.after (n + 1)) := by
  refine searchFrom_of_first hlead (fun i hi => hs.inStep.isFile_tree.1 (hbefore i hi)) ?_
  rw [taken, ← Bool.not_eq_true, ← hs.inStep.isFile_tree]
  exact hn

variable (hfree : ∀ j ∈ (Key.resolve directory).steps, ¬d.store.tree.IsFile j)
include hfree

/-- After files alone, a temporary file is made where nothing is. -/
theorem run_createTemp_of_none
    (hn : d.store.tree.get? (Key.resolve (candidate directory lead (d.supply.number n))) = none) :
    (createTemp directory lead).run d =
      .ok (d.store.handles.length, candidate directory lead (d.supply.number n))
        (d.withTemp directory lead (d.supply.number n) (d.supply.after (n + 1))) := by
  have hsearch := searchFrom_of_not_isFile hs hlead hbefore (not_isFile_of_none hn)
  exact (TempOutcome.opened hfree hsearch
    (openOutcome_candidate hs hfree hlead hn (d.supply.after (n + 1)))).run hs

/-- After files alone, a directory is in the way. -/
theorem run_createTemp_of_isDirectory
    (hn : d.store.tree.IsDirectory (Key.resolve (candidate directory lead (d.supply.number n)))) :
    (createTemp directory lead).run d =
      .error (.onPath .isDirectory (candidate directory lead (d.supply.number n)))
        ((d.withDirectory (Key.resolve directory)).withSupply (d.supply.after (n + 1))) := by
  have hsearch := searchFrom_of_not_isFile hs hlead hbefore hn.not_isFile
  refine (TempOutcome.failed hfree hsearch (.directory ?_)).run hs
  rw [Disk.withSupply_store, Disk.isDirectory_addDirectories defaultPerm hs.inStep]
  exact .inl hn

end

/-! ## Temporary files in a world -/

variable {s : Store} {m n : Nat} {w : World} {directory lead : String}

/-- Whatever calls have been made before and whatever numbers are drawn, a temporary file is made at
the first candidate that is neither a file nor a directory, if none of the candidates before it is a
directory: it is empty, its owner may read and write it, the handle is on it, and nothing else has
changed but for missing directories on the way. Where a directory comes before all that is no file,
the call fails and tells its path. -/
theorem Reachable.createTemp_first (hs : Reachable s) (hm : w.stores[m]? = some s)
    (hlead : '/' ∉ lead.toList) (hfree : ∀ j ∈ (Key.resolve directory).steps, ¬s.tree.IsFile j)
    (hn : s.tree.get? (Key.resolve (candidate directory lead (w.supply.number n))) = none)
    (hbefore : ∀ i < n,
      (s.tree.get? (Key.resolve (candidate directory lead (w.supply.number i)))).isSome = true) :
    ((∀ i < n, ¬s.tree.IsDirectory (Key.resolve (candidate directory lead (w.supply.number i)))) →
      ∃ d, ((FileSystem.memory m .plain).createTemp directory lead).run w =
          .ok (.memory m s.handles.length (candidate directory lead (w.supply.number n)))
            (w.putDisk m d) ∧
        d.supply = w.supply.after (n + 1) ∧
        s.Gains d.store (Key.resolve directory) (lead ++ toString (w.supply.number n)) ∧
        d.store.handles = s.handles ++ [tempHandle directory lead (w.supply.number n)]) ∧
      ∀ i < n, (∀ j < i,
          s.tree.IsFile (Key.resolve (candidate directory lead (w.supply.number j)))) →
        s.tree.IsDirectory (Key.resolve (candidate directory lead (w.supply.number i))) →
        ∃ d, ((FileSystem.memory m .plain).createTemp directory lead).run w =
            .error (.onPath .isDirectory (candidate directory lead (w.supply.number i)))
              (w.putDisk m d) ∧
          ∀ j e, s.tree.get? j = some e → d.store.tree.get? j = some e := by
  constructor
  · intro hnot
    have hfiles : ∀ i < n,
        s.tree.IsFile (Key.resolve (candidate directory lead (w.supply.number i))) := fun i hi =>
      (isFile_or_isDirectory (hbefore i hi)).resolve_right (hnot i hi)
    have hrun := run_createTemp_of_none (d := w.disk s) hs.sound hlead hfiles hfree hn
    have htemp := run_createTemp_plain hm directory lead
    rw [hrun] at htemp
    refine ⟨_, htemp, rfl, ?_, Disk.withTemp_handles _ _ _ _ _⟩
    exact gains_withTemp (d := w.disk s) hs.sound hfree hlead hn _
  · intro i _ hfiles hdir
    have hrun := run_createTemp_of_isDirectory (d := w.disk s) hs.sound hlead hfiles hfree hdir
    have htemp := run_createTemp_plain hm directory lead
    rw [hrun] at htemp
    refine ⟨_, htemp, fun j e he => ?_⟩
    rw [Disk.withSupply_store, Disk.withDirectory, ← he]
    exact Disk.get?_addDirectories_of_isSome defaultPerm hs.sound.inStep (by
      rw [show (w.disk s).store = s from rfl, he]
      rfl)

/-- A file stands at the first candidate, and the temporary file is made at the second. -/
theorem Reachable.createTemp_first_taken :
    let s := (after (Event.call (.create "d/p5")).run ⟨.empty 0, 0, {}⟩).store
    let w : World := { stores := [s], supply := ⟨[5, 6], 0⟩, host := { tree := ⟨[]⟩ } }
    s.tree.IsFile (Key.resolve (candidate "x/../d" "p" (w.supply.number 0))) ∧
      s.tree.get? (Key.resolve (candidate "x/../d" "p" (w.supply.number 1))) = none ∧
      ∃ d, ((FileSystem.memory 0 .plain).createTemp "x/../d" "p").run w =
          .ok (.memory 0 1 (candidate "x/../d" "p" 6)) (w.putDisk 0 d) ∧
        s.Gains d.store ["d"] "p6" := by
  intro s w
  have hs : Reachable s := .step (.new 0) 0 {} _
  have hfree : ∀ j ∈ (Key.resolve "x/../d").steps, ¬s.tree.IsFile j := by
    simp only [hs.sound.inStep.isFile_tree]
    decide +kernel
  have hfile : s.tree.IsFile (Key.resolve (candidate "x/../d" "p" (w.supply.number 0))) :=
    hs.sound.inStep.isFile_tree.2 (by decide +kernel)
  have hnone : s.tree.get? (Key.resolve (candidate "x/../d" "p" (w.supply.number 1))) = none := by
    decide +kernel
  have hfirst : ∀ i < 1, i = 0 := by simp
  obtain ⟨d, hrun, -, hgains, -⟩ := (@Reachable.createTemp_first s 0 1 w "x/../d" "p" hs rfl
    (by decide) hfree hnone fun i hi => hfirst i hi ▸ hfile.isSome).1 fun i hi =>
      hfirst i hi ▸ hfile.not_isDirectory
  exact ⟨hfile, hnone, d, hrun, hgains⟩

/-- Although the second candidate is free, a directory at the first makes the call fail. -/
theorem Reachable.createTemp_first_directory :
    let s := (after (Event.call (.makeDirectories "p5" 0o755)).run ⟨.empty 0, 0, {}⟩).store
    let w : World := { stores := [s], supply := ⟨[5, 6], 0⟩, host := { tree := ⟨[]⟩ } }
    Reachable s ∧ s.tree.get? (Key.resolve (candidate "" "p" (w.supply.number 1))) = none ∧
      (s.tree.get? (Key.resolve (candidate "" "p" (w.supply.number 0)))).isSome = true ∧
      ∃ w', ((FileSystem.memory 0 .plain).createTemp "" "p").run w =
        .error (.onPath .isDirectory (candidate "" "p" 5)) w' := by
  intro s w
  have hs : Reachable s := .step (.new 0) 0 {} _
  have hdir : s.tree.IsDirectory (Key.resolve (candidate "" "p" (w.supply.number 0))) :=
    hs.sound.inStep.isDirectory_tree.2 (by decide +kernel)
  have hrun := @run_createTemp_of_isDirectory (w.disk s) "" "p" 0 hs.sound (by decide) (by simp)
    (by simp [show Key.resolve "" = [] from rfl, Key.steps, Key.chain]) hdir
  have htemp := @run_createTemp_plain w 0 s rfl "" "p"
  rw [hrun] at htemp
  exact ⟨hs, by decide +kernel, hdir.isSome, _, htemp⟩

end Memory

end RootedFS
