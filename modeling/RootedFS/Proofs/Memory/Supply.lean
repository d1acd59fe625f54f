import RootedFS.Proofs.Memory.Outcome
import RootedFS.Proofs.Memory.Use

/-!
# The supply of numbers

Only temporary files draw numbers. Whatever else is called comes to the same with every supply, and
leaves the supply as it is.

## Main definitions

* `supplied`: an outcome with another supply

## Main results

* `OpenOutcome.supplied`, `RenameOutcome.supplied`, ...: what calls come to with another supply
* `run_use_supplied`: what calls on handles come to with another supply
-/

namespace RootedFS.Memory

variable {d : Disk} {k src dst : Key} {path target : String} {perm : Int} {keys : List Key}

/-- An outcome with another supply of numbers. -/
def supplied {α : Type} (x : Supply) : EStateM.Result Fault Disk α → EStateM.Result Fault Disk α
  | .ok a d => .ok a (d.withSupply x)
  | .error f d => .error f (d.withSupply x)

theorem Disk.addDirectories_withSupply (x : Supply) :
    (d.withSupply x).addDirectories perm keys = (d.addDirectories perm keys).withSupply x := by
  induction keys generalizing d with
  | nil => rfl
  | cons k keys ih =>
    have hfirst : (d.withSupply x).addDirectory perm k = (d.addDirectory perm k).withSupply x := by
      rw [addDirectory, addDirectory, apply_ite (withSupply x)]
      rfl
    have hrest := ih (d := d.addDirectory perm k)
    rwa [← hfirst] at hrest

theorem DirectoriesOutcome.supplied {r} (h : DirectoriesOutcome d k perm r) (x : Supply) :
    DirectoriesOutcome (d.withSupply x) k perm (supplied x r) := by
  cases h with
  | blocked hj h => exact .blocked hj h
  | made h =>
    rw [Memory.supplied, ← Disk.addDirectories_withSupply]
    exact .made h

theorem OpenOutcome.supplied {flags : OpenFlags} {r} (h : OpenOutcome d k path flags perm r)
    (x : Supply) : OpenOutcome (d.withSupply x) k path flags perm (supplied x r) := by
  cases h with
  | directory h => exact .directory h
  | present h hx => exact .present h hx
  | emptied h hx ht => exact .emptied h hx ht
  | kept h hx ht => exact .kept h hx ht
  | missing h hc => exact .missing h hc
  | blocked h hc hj hfile => exact .blocked h hc hj hfile
  | made h hc hfree =>
    have hmade : OpenOutcome (d.withSupply x) k path flags perm _ := .made h hc hfree
    rwa [Disk.addDirectories_withSupply] at hmade

theorem RenameOutcome.supplied {r} (h : RenameOutcome d src dst path target r) (x : Supply) :
    RenameOutcome (d.withSupply x) src dst path target (supplied x r) := by
  cases h with
  | same h => exact .same h
  | missing hne h => exact .missing hne h
  | ontoDirectory hsrc hdst => exact .ontoDirectory hsrc hdst
  | fileBlocked hne hsrc hdst hj hfile => exact .fileBlocked hne hsrc hdst hj hfile
  | fileMoved hne hsrc hdst hfree =>
    have hmoved : RenameOutcome (d.withSupply x) src dst path target _ :=
      .fileMoved hne hsrc hdst hfree
    rwa [Disk.addDirectories_withSupply] at hmoved
  | root hne h => exact .root hne h
  | ontoFile hroot hsrc hdst => exact .ontoFile hroot hsrc hdst
  | intoItself hne hroot hsrc hdst hin => exact .intoItself hne hroot hsrc hdst hin
  | notEmpty hroot hsrc hdst hout hchildren => exact .notEmpty hroot hsrc hdst hout hchildren
  | directoryBlocked hroot hsrc hdst hout hchildren hj hfile =>
    exact .directoryBlocked hroot hsrc hdst hout hchildren hj hfile
  | directoryMoved hroot hsrc hdst hout hchildren hfree =>
    have hmoved : RenameOutcome (d.withSupply x) src dst path target _ :=
      .directoryMoved hroot hsrc hdst hout hchildren hfree
    rwa [Disk.addDirectories_withSupply] at hmoved

theorem RemoveOutcome.supplied {r} (h : RemoveOutcome d k path r) (x : Supply) :
    RemoveOutcome (d.withSupply x) k path (supplied x r) := by
  cases h with
  | file h => exact .file h
  | root h => exact .root h
  | notEmpty hroot h hchildren => exact .notEmpty hroot h hchildren
  | directory hroot h hchildren => exact .directory hroot h hchildren
  | missing h => exact .missing h

theorem StatOutcome.supplied {σ : Type} {r} (h : StatOutcome (σ := σ) d k path r) (x : Supply) :
    StatOutcome (d.withSupply x) k path (supplied x r) := by
  cases h with
  | present h => exact .present h
  | missing h => exact .missing h

theorem ListOutcome.supplied {σ : Type} {r} (h : ListOutcome (σ := σ) d k path r) (x : Supply) :
    ListOutcome (d.withSupply x) k path (supplied x r) := by
  cases h with
  | file h => exact .file h
  | directory h => exact .directory h
  | missing h => exact .missing h

/-- A call on a handle comes to the same with every supply. -/
theorem run_use_supplied (id : Nat) (c : HandleCall) (x : Supply) :
    (use id c).run (d.withSupply x) = supplied x ((use id c).run d) := by
  cases hid : d.store.handles[id]? with
  | none => rw [run_use_none hid, run_use_none (d := d.withSupply x) hid, supplied]
  | some h =>
    have hcommitted : (d.withSupply x).committed h c = (d.committed h c).withSupply x := by
      rw [Disk.committed, Disk.committed]
      cases h.key with
      | none => rfl
      | some k =>
        rw [apply_ite (Disk.withSupply x)]
        rfl
    rw [run_use hid, run_use (d := d.withSupply x) hid, hcommitted]
    cases (h.use c).1 <;> rfl

end RootedFS.Memory
