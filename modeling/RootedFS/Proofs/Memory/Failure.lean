import RootedFS.Proofs.Memory.Sound
import RootedFS.Proofs.Session

/-!
# Calls that fail

A call on a store either does all of its work or none. What could stop it half-way is a file in the
way of the directories that it makes one after another; but where a file is, everything above it is
there, so that none of them has been made when the file is met. The one exception is a temporary
file, whose directory is made before a name is searched for.

## Main results

* `CallOutcome.disk_of_error`: a call that fails leaves its disk as it was
* `Reachable.world_of_error`: on the filesystem in memory it leaves the whole world as it was
-/

namespace RootedFS

namespace Memory

variable {d e : Disk} {k : Key} {path : String} {f : Fault}

/-- Where opening fails, nothing is done. -/
theorem OpenOutcome.disk_of_error {flags : OpenFlags} {perm : Int}
    (h : OpenOutcome d k path flags perm (.error f e)) : e = d := by
  cases h <;> rfl

theorem RenameOutcome.disk_of_error {src dst : Key} {target : String}
    (h : RenameOutcome d src dst path target (.error f e)) : e = d := by
  cases h <;> rfl

theorem RemoveOutcome.disk_of_error (h : RemoveOutcome d k path (.error f e)) : e = d := by
  cases h <;> rfl

theorem DirectoriesOutcome.disk_of_error {perm : Int}
    (h : DirectoriesOutcome d k perm (.error f e)) : e = d := by
  cases h
  rfl

theorem StatOutcome.disk_of_error {σ : Type}
    (h : StatOutcome (σ := σ) d k path (.error f e)) : e = d := by
  cases h
  rfl

theorem ListOutcome.disk_of_error {σ : Type}
    (h : ListOutcome (σ := σ) d k path (.error f e)) : e = d := by
  cases h <;> rfl

/-- Where a call fails, nothing is done, unless it was to create a temporary file. -/
theorem CallOutcome.disk_of_error {c : Call} {r} (h : CallOutcome d c r)
    (hc : ∀ directory lead, c ≠ .createTemp directory lead) (hr : r = .error f e) : e = d := by
  cases h with
  | create h | openRead h | openFile h => exact (eq_error_of_mapResult hr ▸ h).disk_of_error
  | createTemp h => exact absurd rfl (hc _ _)
  | rename h => exact (eq_error_of_mapResult hr ▸ h).disk_of_error
  | remove h => exact (eq_error_of_mapResult hr ▸ h).disk_of_error
  | makeDirectories h => exact (eq_error_of_mapResult hr ▸ h).disk_of_error
  | stat h => exact (eq_error_of_mapResult hr ▸ h).disk_of_error
  | list h => exact (eq_error_of_mapResult hr ▸ h).disk_of_error

/-- Whatever calls have been made before, one that fails leaves the entries, what is noted of them,
and all handles as they were; so it does with everything else in the world. -/
theorem Reachable.world_of_error {w w' : World} {m : Nat} {s : Store} (hs : Reachable s)
    (hm : w.stores[m]? = some s) {c : Call}
    (hc : ∀ directory lead, c ≠ .createTemp directory lead)
    (h : ((FileSystem.memory m .plain).perform c).run w = .error f w') : w' = w := by
  rw [run_perform_plain hm] at h
  have hend := callOutcome (d := w.disk s) hs.sound c
  cases hr : (perform c).run (w.disk s) with
  | ok a d =>
    rw [hr] at h
    cases h
  | error g d =>
    rw [hr] at h hend
    cases h
    rw [hend.disk_of_error hc rfl, World.putDisk_disk hm]

/-- A file is renamed to a place below another file, where two directories are missing. -/
theorem Reachable.world_of_error_below :
    let s₁ := (after (Event.call (.create "a")).run ⟨.empty 0, 0, {}⟩).store
    let s₂ := (after (Event.call (.create "b/f")).run ⟨s₁, 1, {}⟩).store
    let w : World := { stores := [s₂], host := { tree := ⟨[]⟩ } }
    ∃ f w', ((FileSystem.memory 0 .plain).perform (.rename "a" "b/f/../f/c/d")).run w =
      .error f w' ∧ w' = w := by
  intro s₁ s₂ w
  have hs : Reachable s₂ := .step (.step (.new 0) 0 {} _) 1 {} _
  have hc : ∀ directory lead, Call.rename "a" "b/f/../f/c/d" ≠ .createTemp directory lead := by
    intro directory lead h
    cases h
  have hrun : ((FileSystem.memory 0 .plain).perform (.rename "a" "b/f/../f/c/d")).run w =
      .error (.onPath .notDirectory "/b/f") w := by
    rfl
  exact ⟨_, _, hrun, hs.world_of_error rfl hc hrun⟩

end Memory

end RootedFS
