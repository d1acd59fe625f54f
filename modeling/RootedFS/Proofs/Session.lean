import RootedFS.Proofs.Calls

/-!
# Sessions

What a caller does with filesystems and the handles that they give out, step by step: calls on one
of the filesystems, further views, and calls on one of the handles, all of them in one world.

## Main definitions

* `Session`, `Step`, `Session.step`: a session, and what a step does to it
* `Session.run`, `Session.after`: the outcomes of a sequence of steps, and the session afterwards

## Main results

* `run_perform_view`, `run_use_renamed`: calls through a view and its handles run on the store
-/

namespace RootedFS

open Memory World

/-- A world with the filesystems and the handles that a caller has in it. -/
structure Session where
  world : World
  systems : List FileSystem
  /-- The handles, in the order in which they were opened. -/
  files : List File

/-- A step of a session. -/
inductive Step where
  | call (system : Nat) (c : Call)
  /-- A view of the filesystem with a number, which is added to the filesystems. -/
  | dir (system : Nat) (path : String)
  | use (file : Nat) (c : HandleCall)
deriving DecidableEq, Repr

/-- The handle of an answer, if it has one. -/
def Answer.files {φ : Type} : Answer φ → List φ
  | file f => [f]
  | _ => []

namespace Session

/-- What a step comes to, and the session afterwards. A new handle is added to the handles; calls on
filesystems and handles that are not there fail. -/
def step (σ : Session) : Step → Except Fault (Answer File) × Session
  | .call v c =>
    match σ.systems[v]? with
    | none => (.error (.unnamed .missing), σ)
    | some fs =>
      match (fs.perform c).run σ.world with
      | .ok a world => (.ok a, { σ with world, files := σ.files ++ a.files })
      | .error f world => (.error f, { σ with world })
  | .dir v path =>
    match σ.systems[v]? with
    | none => (.error (.unnamed .missing), σ)
    | some fs => (.ok .done, { σ with systems := σ.systems ++ [fs.viewFrom path] })
  | .use i c =>
    match σ.files[i]? with
    | none => (.error (.closedHandle ""), σ)
    | some f =>
      match (f.use c).run σ.world with
      | .ok a world => (.ok a, { σ with world })
      | .error f world => (.error f, { σ with world })

/-- What the steps of a sequence come to, each with the session after it. -/
def run (σ : Session) : List Step → List (Except Fault (Answer File) × Session)
  | [] => []
  | st :: steps => σ.step st :: (σ.step st).2.run steps

/-- The session after a sequence of steps. -/
def after (σ : Session) (steps : List Step) : Session :=
  steps.foldl (fun σ st => (σ.step st).2) σ

end Session

/-! ## Calls in a world -/

section

variable {w : World} {m : Nat} {s : Store}

/-- The disk of a store in a world. -/
def World.disk (w : World) (s : Store) : Disk :=
  ⟨s, w.clock, w.supply⟩

/-- The outcome of a computation on a store, in the world. -/
def World.lift {α β : Type} (w : World) (m : Nat) (g : α → β) :
    EStateM.Result Fault Disk α → EStateM.Result Fault World β
  | .ok a d => .ok (g a) (w.putDisk m d)
  | .error f d => .error f (w.putDisk m d)

theorem World.stores_putDisk (hm : w.stores[m]? = some s) (d : Disk) :
    (w.putDisk m d).stores[m]? = some d.store := by
  obtain ⟨hlt, -⟩ := List.getElem?_eq_some_iff.1 hm
  exact List.getElem?_set_self (by simpa using hlt)

/-- The world in which a store gets back the disk that it has. -/
theorem World.putDisk_disk (hm : w.stores[m]? = some s) : w.putDisk m (w.disk s) = w := by
  obtain ⟨hlt, hget⟩ := List.getElem?_eq_some_iff.1 hm
  simp [World.putDisk, World.disk, ← hget]

/-- A store gets a disk in the place of any that it got before. -/
theorem World.putDisk_putDisk (w : World) (m : Nat) (d e : Disk) :
    (w.putDisk m d).putDisk m e = w.putDisk m e := by
  simp [World.putDisk]

/-- A computation on a store runs on its disk. -/
theorem run_onStore_id {α : Type} (hm : w.stores[m]? = some s) (act : MemoryM α) :
    (onStore m act).run w = w.lift m id (act.run (w.disk s)) := by
  simp only [EStateM.run, onStore, hm, World.disk]
  cases act ⟨s, w.clock, w.supply⟩ <;> rfl

theorem run_onStore {α β : Type} (hm : w.stores[m]? = some s) (g : α → β) (act : MemoryM α) :
    (onStore m (g <$> act)).run w = w.lift m g (act.run (w.disk s)) := by
  have hact := run_onStore_id hm act
  rw [EStateM.run] at hact
  rw [← map_onStore, EStateM.run, Functor.map]
  change EStateM.map g (onStore m act) w = _
  rw [EStateM.map, hact]
  cases act.run (w.disk s) <;> rfl

/-- A call on the filesystem in memory runs on its store. -/
theorem run_perform_plain (hm : w.stores[m]? = some s) (c : Call) :
    ((FileSystem.memory m .plain).perform c).run w =
      w.lift m (Answer.map (File.ofStore m)) ((Memory.perform c).run (w.disk s)) := by
  rw [FileSystem.perform_memory, run_onStore hm]

/-- A temporary file of the filesystem in memory is one of its store. -/
theorem run_createTemp_plain (hm : w.stores[m]? = some s) (directory lead : String) :
    ((FileSystem.memory m .plain).createTemp directory lead).run w =
      w.lift m (File.ofStore m) ((Memory.createTemp directory lead).run (w.disk s)) := by
  have htemp : (FileSystem.memory m .plain).createTemp directory lead =
      onStore m (File.ofStore m <$> Memory.createTemp directory lead) := by
    rw [← map_onStore, map_eq_pure_bind]
    rfl
  rw [htemp, run_onStore hm]

/-- What a view of a filesystem in memory makes of the store's answer. -/
def viewed (m : Nat) (base : String) (c : Call) (a : Answer (Nat × String)) : Answer File :=
  (FileSystem.memory m .plain).retell base c (a.map (File.ofStore m))

/-- A call on a view of the filesystem in memory runs on the store with its paths joined to the
base. -/
theorem run_perform_view (hm : w.stores[m]? = some s) (base : String) (c : Call) :
    ((FileSystem.view (.memory m .plain) base).perform c).run w =
      w.lift m (viewed m base c)
        ((Memory.perform (c.translate fun path => Path.join [base, path])).run (w.disk s)) := by
  have hperform : (FileSystem.view (.memory m .plain) base).perform c =
      onStore m (viewed m base c <$> Memory.perform (c.translate fun path =>
        Path.join [base, path])) := by
    rw [FileSystem.perform_view, FileSystem.perform_memory, map_onStore, ← comp_map]
    rfl
  rw [hperform, run_onStore hm]

/-- A call on a handle of the filesystem in memory runs on its store. -/
theorem run_use_memory (hm : w.stores[m]? = some s) (id : Nat) (name : String) (c : HandleCall) :
    ((File.memory m id name).use c).run w =
      w.lift m (Answer.map (File.ofStore m)) ((Memory.use id c).run (w.disk s)) := by
  rw [File.use_memory, run_onStore hm]

/-- A call on a handle of a view runs on the store. -/
theorem run_use_renamed (hm : w.stores[m]? = some s) (name inner : String) (id : Nat)
    (c : HandleCall) :
    ((File.renamed name (.memory m id inner)).use c).run w =
      w.lift m (Answer.map (File.ofStore m)) ((Memory.use id c).run (w.disk s)) := by
  rw [File.use_renamed, run_use_memory hm]

end

end RootedFS
