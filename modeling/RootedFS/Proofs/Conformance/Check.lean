import RootedFS.Conformance.Check
import RootedFS.Proofs.View.Fresh

/-!
# Checks in parallel

A scenario runs on two filesystems that are abreast. Whether a check is met there is decided by
answers that are the same, so that the scenario passes on the one as on the other. The first thing
that a scenario makes may be made in a store just made, where the directory that a view is based on
is not there yet.

## Main definitions

* `Setback.Alike`: two scenarios end early alike
* `Concur`: two checks in parallel, on filesystems abreast
* `Starts`: two computations in parallel that may be the first ones on stores just made

## Main results

* `parallel_call`, `parallel_expectFault`, `parallel_require`: the steps of scenarios in parallel
* `concur_withFile`, `concur_requireContent`, ...: the checks of scenarios in parallel
* `Starts.ends`: what starts on stores just made ends alike
-/

namespace RootedFS.Conformance

open FileSystem

/-- Scenarios end early alike: for the same reason, or since calls failed alike. -/
inductive Setback.Alike : Setback → Setback → Prop where
  | same (e : Setback) : Alike e e
  | fault {f f' : Fault} (h : f.Alike f') : Alike (.fault f) (.fault f')

section

variable {α α' : Type} {W : World → World → Prop} {R : α → α' → Prop} {x : WorldM α}
  {x' : WorldM α'}

theorem run_call (x : WorldM α) (w : World) :
    (call x).run w =
      match x.run w with
      | .ok a v => .ok a v
      | .error f v => .error (.fault f) v := rfl

theorem run_call_ok {a : α} {w v : World} (h : x.run w = .ok a v) :
    (call x).run w = .ok a v := by
  rw [run_call, h]

theorem run_expectFault (sort : Fault → Bool) (x : WorldM α) (w : World) :
    (expectFault sort x).run w =
      match x.run w with
      | .ok _ v => .error .unmet v
      | .error f v => if sort f then .ok () v else .error (.fault f) v := rfl

theorem run_expectMissing {w : World} {path : String}
    (h : x.run w = .error (.onPath .missing path) w) :
    (expectMissing x).run w = .ok () w := by
  rw [expectMissing, run_expectFault, h]
  rfl

theorem run_require {condition : Bool} (h : condition = true) (w : World) :
    (require condition).run w = .ok () w := by
  rw [h]
  rfl

theorem parallel_call (h : Parallel Fault.Alike W R x x') :
    Parallel Setback.Alike W R (call x) (call x') := by
  intro w w' hw
  have hend := h w w' hw
  rw [run_call, run_call]
  generalize x.run w = r at hend ⊢
  generalize x'.run w' = r' at hend ⊢
  cases hend with
  | ok ha hv => exact .ok ha hv
  | error hf hv => exact .error (.fault hf) hv

/-- Faults that are alike are of the sort alike. -/
def Sorts (sort : Fault → Bool) : Prop :=
  ∀ f f', f.Alike f' → sort f = sort f'

theorem sorts_kind (kind : FaultKind) : Sorts fun f => f.kind = kind := by
  intro f f' h
  exact congrArg (fun k => decide (k = kind)) h.1

/-- The errors of filesystems are those with numbers, and those about the access. -/
theorem isFilesystemError_eq (f : Fault) :
    f.isFilesystemError = (f.number.isSome || decide (f.kind = .unsupported)) := by
  cases f <;> rfl

theorem sorts_isFilesystemError : Sorts Fault.isFilesystemError := by
  rintro f f' ⟨hkind, hnumber⟩
  rw [isFilesystemError_eq, isFilesystemError_eq, hkind, hnumber]

theorem parallel_expectFault {sort : Fault → Bool} (hsort : Sorts sort)
    (h : Parallel Fault.Alike W R x x') :
    Parallel Setback.Alike W (fun _ _ => True) (expectFault sort x) (expectFault sort x') := by
  intro w w' hw
  have hend := h w w' hw
  rw [run_expectFault, run_expectFault]
  generalize x.run w = r at hend ⊢
  generalize x'.run w' = r' at hend ⊢
  cases hend with
  | ok ha hv => exact .error (.same _) hv
  | error hf hv =>
    dsimp only
    rw [hsort _ _ hf]
    split
    · exact .ok trivial hv
    · exact .error (.fault hf) hv

theorem parallel_require {condition condition' : Bool} (h : condition = condition') :
    Parallel Setback.Alike W (fun _ _ => True) (require condition) (require condition') := by
  subst h
  cases condition with
  | true => exact .pure trivial
  | false => exact .throw (.same _)

/-- A condition on an answer that is the same. -/
theorem parallel_requireAnswer {p : α → Bool} {x' : WorldM α} (h : Parallel Fault.Alike W Eq x x') :
    Parallel Setback.Alike W (fun _ _ => True) (call x >>= fun a => require (p a))
      (call x' >>= fun a => require (p a)) :=
  (parallel_call h).bind fun _ _ ha => parallel_require (congrArg p ha)

end

/-! ## Checks on filesystems abreast -/

/-- Two checks on stores beside one another concur: both are met, or both end early alike. -/
abbrev Concur (m m' : Nat) (base : Key) (x x' : CheckM Unit) : Prop :=
  Parallel Setback.Alike (World.Beside m m' base) (fun _ _ => True) x x'

section

variable {m m' : Nat} {base : Key} {fs fs' : FileSystem} {path text : String}

section

variable {f f' : File} (h : File.Beside m m' f f')
include h

theorem concur_close : Concur m m' base (discard (call f.close)) (discard (call f'.close)) :=
  (parallel_call h.close).discard

theorem concur_write (data : Bytes) :
    Concur m m' base (discard (call (f.write data))) (discard (call (f'.write data))) :=
  (parallel_call (h.write data)).discard

/-- The handles are closed also if the checks end early. -/
theorem concur_withFile {body body' : CheckM Unit} (hbody : Concur m m' base body body') :
    Concur m m' base (withFile f body) (withFile f' body') := by
  refine (hbody.tryCatch fun _ _ he => ?_).bind fun _ _ _ => concur_close h
  exact (concur_close h).bind fun _ _ _ => .throw he

end

variable (h : Abreast m m' base fs fs')
include h

theorem parallel_openFile {flags : OpenFlags} {perm : Int}
    (hpath : Path.LeadsBelow path) :
    Parallel Setback.Alike (World.Beside m m' base) (File.Beside m m')
      (call (fs.openFile path flags perm)) (call (fs'.openFile path flags perm)) :=
  parallel_call (h.openFile hpath flags perm)

theorem concur_put (hpath : Path.LeadsBelow path) :
    Concur m m' base (put fs path text) (put fs' path text) :=
  parallel_call (h.writeContent hpath _ _)

theorem concur_makeDirectory (hpath : Path.climbs path = false) :
    Concur m m' base (makeDirectory fs path) (makeDirectory fs' path) :=
  (parallel_call (h.makeDirectories hpath _)).imp fun _ _ _ => trivial

theorem concur_requireContent (hpath : Path.LeadsBelow path) :
    Concur m m' base (requireContent fs path text) (requireContent fs' path text) :=
  parallel_requireAnswer (h.readContent hpath)

/-- What is written through handles is in the files. -/
theorem concur_writeThrough {f f' : File} {data : Bytes} (hpath : Path.LeadsBelow path)
    (hf : File.Beside m m' f f') :
    Concur m m' base
      (withFile f (discard (call (f.write data))) >>= fun _ => requireContent fs path text)
      (withFile f' (discard (call (f'.write data))) >>= fun _ => requireContent fs' path text) :=
  (concur_withFile hf (concur_write hf data)).bind fun _ _ _ => concur_requireContent h hpath

theorem concur_requireDirectory (hpath : Path.LeadsBelow path) :
    Concur m m' base (requireDirectory fs path) (requireDirectory fs' path) :=
  (parallel_call (h.stat hpath)).bind fun _ _ hi => parallel_require hi.isDirectory

theorem concur_expectMissing_stat (hpath : Path.LeadsBelow path) :
    Concur m m' base (expectMissing (fs.stat path)) (expectMissing (fs'.stat path)) :=
  parallel_expectFault (sorts_kind _) (h.stat hpath)

end

/-! ## Checks on stores just made -/

/-- Two computations that may start on stores just made, and that run in parallel from there. -/
structure Starts {α α' : Type} (m m' : Nat) (base : Key) (R : α → α' → Prop) (x : CheckM α)
    (x' : CheckM α') : Prop where
  begins : Begins m base x
  parallel : Parallel Setback.Alike (World.Beside m m' base) R x x'

section

variable {m m' now now' : Nat} {base : Key} {fs fs' : FileSystem} {path text : String}
  {w w' : World} {α α' β β' : Type} {R : α → α' → Prop} {Q : β → β' → Prop} {x : CheckM α}
  {x' : CheckM α'}

theorem begins_call {act : WorldM α} (h : Begins m base act) : Begins m base (call act) := by
  intro w v hv
  rw [run_call, run_call, h w v hv]

namespace Starts

theorem bind {f : α → CheckM β} {f' : α' → CheckM β'} (h : Starts m m' base R x x')
    (hf : ∀ a a', R a a' → Parallel Setback.Alike (World.Beside m m' base) Q (f a) (f' a')) :
    Starts m m' base Q (x >>= f) (x' >>= f') :=
  ⟨h.begins.bind f, h.parallel.bind hf⟩

/-- What starts alike ends alike. -/
theorem ends (h : Starts m m' base R x x') (hnames : ∀ a ∈ base, Path.IsName a)
    (hm : w.stores[m]? = some (.empty now)) (hm' : w'.stores[m']? = some (.empty now')) :
    Ends Setback.Alike (World.Beside m m' base) R (x.run w) (x'.run w') := by
  -- with the directory made before, the two stores are beside one another
  have hv : World.WithDirectory m base w (w.putDisk m ((w.disk (.empty now)).withDirectory base)) :=
    ⟨now, hm, rfl⟩
  rw [← h.begins w _ hv]
  exact h.parallel _ _ (hv.beside hnames hm')

end Starts

variable (h : Abreast m m' base fs fs')
include h

theorem starts_openFile {flags : OpenFlags} {perm : Int} (hpath : Path.LeadsBelow path)
    (hc : flags.create = true) :
    Starts m m' base (File.Beside m m') (call (fs.openFile path flags perm))
      (call (fs'.openFile path flags perm)) :=
  ⟨begins_call (h.begins_openFile hpath hc perm), parallel_openFile h hpath⟩

theorem starts_put (hpath : Path.LeadsBelow path) :
    Starts m m' base (fun _ _ => True) (put fs path text) (put fs' path text) :=
  ⟨begins_call (h.begins_writeContent hpath _ _), concur_put h hpath⟩

theorem starts_makeDirectory (hpath : Path.climbs path = false) :
    Starts m m' base (fun _ _ => True) (makeDirectory fs path) (makeDirectory fs' path) :=
  ⟨begins_call (h.begins_makeDirectories hpath), concur_makeDirectory h hpath⟩

end

end RootedFS.Conformance
