import RootedFS.Proofs.Memory.Failure
import RootedFS.Proofs.Memory.Supply
import RootedFS.Proofs.Parallel
import RootedFS.Proofs.View.Removal
import RootedFS.Proofs.View.Stack

/-!
# Stores beside one another

One store has below a key what another has from its top on, and handles have been opened in both
under the same numbers. Calls below the key of the one and the same calls on the other run in
parallel and leave them so, whatever numbers temporary files are named after: no other call draws
any.

## Main definitions

* `Disk.Beside`, `World.Beside`, `File.Beside`: disks, worlds and handles beside one another

## Main results

* `parallel_openFile`, `parallel_rename`, ...: calls on disks beside one another
* `Mirror.prune`: what is at and below a key may go from both
* `Parallel.onStore`: calls on worlds beside one another
* `File.Beside.use`: calls on handles beside one another
-/

namespace RootedFS

open Memory World Tree

namespace Memory

variable {d d' e e' : Disk} {base k src dst : Key} {p q : Nat} {ps : List Pair}
  {path path' target target' : String} {flags : OpenFlags} {perm : Int}

/-! ## Numbers of handles -/

theorem OpenOutcome.length_of_ok {id : Nat} (h : OpenOutcome d k path flags perm (.ok id e)) :
    e.store.handles.length = d.store.handles.length + 1 := by
  cases h <;> simp

theorem DirectoriesOutcome.length_handles {r} (h : DirectoriesOutcome d k perm r) :
    (diskOf r).store.handles.length = d.store.handles.length := by
  cases h <;> simp

theorem RemoveOutcome.length_handles {r} (h : RemoveOutcome d k path r) :
    (diskOf r).store.handles.length = d.store.handles.length := by
  cases h <;> simp [Store.eraseFile, Store.eraseDirectory]

theorem RenameOutcome.length_handles {r} (h : RenameOutcome d src dst path target r) :
    (diskOf r).store.handles.length = d.store.handles.length := by
  cases h with
  | fileMoved =>
    have hfile : ∀ s : Store, (s.movedFile src dst).handles = s.handles := fun _ => rfl
    simp [hfile]
  | directoryMoved => simp [Store.movedAll_handles]
  | _ => rfl

theorem StatOutcome.diskOf_eq {σ : Type} {r} (h : StatOutcome (σ := σ) d k path r) :
    diskOf r = d := by
  cases h <;> rfl

theorem ListOutcome.diskOf_eq {σ : Type} {r} (h : ListOutcome (σ := σ) d k path r) :
    diskOf r = d := by
  cases h <;> rfl

/-! ## Disks beside one another -/

/-- A disk has below a key what another has from its top on, the supplies of numbers aside, and all
handles have been opened in both under the same numbers. -/
def Disk.Beside (base : Key) (d d' : Disk) : Prop :=
  ∃ p q ps, Mirror base p q ps d (d'.withSupply d.supply) ∧
    d'.store.handles.length = d.store.handles.length ∧
    ∀ i < d.store.handles.length, ∃ x ∈ ps, x.id = i ∧ x.id' = i

namespace Disk.Beside

theorem sound (h : d.Beside base d') : d.store.Sound := by
  obtain ⟨p, q, ps, hM, -⟩ := h
  exact hM.sound

theorem sound' (h : d.Beside base d') : d'.store.Sound := by
  obtain ⟨p, q, ps, hM, -⟩ := h
  exact hM.sound'

theorem of_mirror {x : Supply} (hM : Mirror base p q ps e (e'.withSupply x))
    (hlength : e'.store.handles.length = e.store.handles.length)
    (heven : ∀ i < e.store.handles.length, ∃ x ∈ ps, x.id = i ∧ x.id' = i) : e.Beside base e' := by
  have hsupply : e.supply = x := hM.supply
  rw [← hsupply] at hM
  exact ⟨p, q, ps, hM, hlength, heven⟩

/-- Runs that open no handles leave disks beside one another if they leave disks of which one
mirrors the other. -/
theorem ends {α α' : Type} {R : α → α' → Disk → Disk → Prop} {Q : α → α' → Prop} {r r'}
    (hlength : d'.store.handles.length = d.store.handles.length)
    (heven : ∀ i < d.store.handles.length, ∃ x ∈ ps, x.id = i ∧ x.id' = i)
    (hr : (diskOf r).store.handles.length = d.store.handles.length)
    (hr' : (diskOf r').store.handles.length = d'.store.handles.length)
    (hend : EndAlike R (Mirror base p q ps) r (supplied d.supply r'))
    (hR : ∀ {a a' e e'}, r = .ok a e → r' = .ok a' e' → R a a' e (e'.withSupply d.supply) →
      Q a a' ∧ Mirror base p q ps e (e'.withSupply d.supply)) :
    Ends Fault.Alike (Disk.Beside base) Q r r' := by
  have hbeside : ∀ {e e'}, diskOf r = e → diskOf r' = e' →
      Mirror base p q ps e (e'.withSupply d.supply) → e.Beside base e' := by
    rintro e e' rfl rfl hM
    exact .of_mirror hM (hr'.trans (hlength.trans hr.symm)) (by rwa [hr])
  cases r' with
  | ok a' e' => cases hend with
    | ok h => exact .ok (hR rfl rfl h).1 (hbeside rfl rfl (hR rfl rfl h).2)
  | error f' e' => cases hend with
    | error hf hM => exact .error hf (hbeside rfl rfl hM)

end Disk.Beside

/-! ## Calls on both -/

/-- Opening a file below the top gives out handles with the same number. -/
theorem parallel_openFile (hkey : Key.resolve path = base ++ Key.resolve path')
    (hne : Key.resolve path' ≠ []) (flags : OpenFlags) (perm : Int) :
    Parallel Fault.Alike (Disk.Beside base) Eq (openFile path flags perm)
      (openFile path' flags perm) := by
  rintro d d' ⟨p, q, ps, hM, hlength, heven⟩
  have hs' : d'.store.Sound := hM.sound'
  obtain ⟨r', hr'⟩ := openOutcome d' (Key.resolve path') path' flags perm
  obtain ⟨r, hr, hend⟩ := hM.openFile (Path.isName_resolve path') hne path (hr'.supplied d.supply)
  rw [← hkey] at hr
  rw [hr.run hM.sound, hr'.run hs']
  cases r' with
  | error f' e' => cases hend with
    | error hf _ =>
      rw [hr.disk_of_error, hr'.disk_of_error]
      exact .error hf ⟨p, q, ps, hM, hlength, heven⟩
  | ok id' e' => cases hend with
    | @ok id _ e _ hafter =>
      have hid := hr.number_of_ok
      have hid' := hr'.number_of_ok
      refine .ok (hid.trans (hlength.symm.trans hid'.symm)) (.of_mirror (hafter "" "") ?_ ?_)
      · rw [hr.length_of_ok, hr'.length_of_ok, hlength]
      · intro i hi
        rw [hr.length_of_ok, Nat.lt_succ_iff_lt_or_eq] at hi
        rcases hi with hi | rfl
        · obtain ⟨x, hx, hids⟩ := heven i hi
          exact ⟨x, List.mem_append_left _ hx, hids⟩
        · exact ⟨_, List.mem_append_right _ (List.mem_singleton_self _), hid,
            hid'.trans hlength⟩

theorem parallel_makeDirectories (hkey : Key.resolve path = base ++ Key.resolve path')
    (perm : Int) :
    Parallel Fault.Alike (Disk.Beside base) Eq (makeDirectories path perm)
      (makeDirectories path' perm) := by
  rintro d d' ⟨p, q, ps, hM, hlength, heven⟩
  obtain ⟨r', hr'⟩ := directoriesOutcome d' (Key.resolve path') perm
  obtain ⟨r, hr, hend⟩ := hM.directories (Path.isName_resolve path') (hr'.supplied d.supply)
  rw [← hkey] at hr
  have hrun : (makeDirectories path perm).run d = r := hr.run hM.sound
  have hrun' : (makeDirectories path' perm).run d' = r' := hr'.run (d := d') hM.sound'
  rw [hrun, hrun']
  exact Disk.Beside.ends hlength heven hr.length_handles hr'.length_handles hend
    fun _ _ h => ⟨rfl, h⟩

theorem parallel_rename (hkey : Key.resolve path = base ++ Key.resolve path')
    (hne : Key.resolve path' ≠ []) (hkey' : Key.resolve target = base ++ Key.resolve target')
    (hne' : Key.resolve target' ≠ []) :
    Parallel Fault.Alike (Disk.Beside base) Eq (rename path target) (rename path' target') := by
  rintro d d' ⟨p, q, ps, hM, hlength, heven⟩
  have hs' : d'.store.Sound := hM.sound'
  obtain ⟨r', hr'⟩ := renameOutcome hs' (Key.resolve path') (Key.resolve target') path' target'
  obtain ⟨r, hr, hend⟩ := hM.rename hne hne' (Path.isName_resolve target') path target
    (hr'.supplied d.supply)
  rw [← hkey, ← hkey'] at hr
  rw [hr.run hM.sound, hr'.run hs']
  exact Disk.Beside.ends hlength heven hr.length_handles hr'.length_handles hend
    fun _ _ h => ⟨rfl, h⟩

theorem parallel_remove (hkey : Key.resolve path = base ++ Key.resolve path')
    (hne : Key.resolve path' ≠ []) :
    Parallel Fault.Alike (Disk.Beside base) Eq (remove path) (remove path') := by
  rintro d d' ⟨p, q, ps, hM, hlength, heven⟩
  have hs' : d'.store.Sound := hM.sound'
  obtain ⟨r', hr'⟩ := removeOutcome d' (Key.resolve path') path'
  obtain ⟨r, hr, hend⟩ := hM.remove hne path (hr'.supplied d.supply)
  rw [← hkey] at hr
  rw [hr.run hM.sound, hr'.run hs']
  exact Disk.Beside.ends hlength heven hr.length_handles hr'.length_handles hend
    fun _ _ h => ⟨rfl, h⟩

/-- The metadata of an entry below the top has the name of its key. -/
theorem parallel_stat {σ : Type} (hkey : Key.resolve path = base ++ Key.resolve path')
    (hne : Key.resolve path' ≠ []) :
    Parallel Fault.Alike (Disk.Beside base)
      (fun i i' => i.Alike i' ∧ i'.name = (Key.resolve path').name)
      (stat (σ := σ) path) (stat (σ := σ) path') := by
  rintro d d' ⟨p, q, ps, hM, hlength, heven⟩
  have hs' : d'.store.Sound := hM.sound'
  obtain ⟨r', hr'⟩ := statOutcome (σ := σ) d' (Key.resolve path') path'
  obtain ⟨r, hr, hend⟩ := hM.stat hne path (hr'.supplied d.supply)
  rw [← hkey] at hr
  rw [hr.run hM.sound, hr'.run hs']
  refine Disk.Beside.ends hlength heven (by rw [hr.diskOf_eq]) (by rw [hr'.diskOf_eq]) hend ?_
  rintro i i' e e' - rfl h
  exact ⟨⟨h.1, hr'.name_of_ok⟩, h.2⟩

/-- No names in a listing have slashes. -/
theorem parallel_list {σ : Type} (hkey : Key.resolve path = base ++ Key.resolve path') :
    Parallel Fault.Alike (Disk.Beside base)
      (List.Forall₂ fun i i' => '/' ∉ i.name.toList ∧ i.Alike i')
      (list (σ := σ) path) (list (σ := σ) path') := by
  rintro d d' ⟨p, q, ps, hM, hlength, heven⟩
  have hs' : d'.store.Sound := hM.sound'
  obtain ⟨r', hr'⟩ := listOutcome (σ := σ) d' (Key.resolve path') path'
  obtain ⟨r, hr, hend⟩ := hM.list path (hr'.supplied d.supply)
  rw [← hkey] at hr
  rw [hr.run hM.sound, hr'.run hs']
  refine Disk.Beside.ends hlength heven (by rw [hr.diskOf_eq]) (by rw [hr'.diskOf_eq]) hend ?_
  rintro l l' e e' rfl - h
  exact ⟨(List.forall₂_and_left _ _).2 ⟨hr.no_slash hM.sound, h.1⟩, h.2⟩

/-- A call on the handles with a number. -/
theorem parallel_use (id : Nat) (c : HandleCall) :
    Parallel Fault.Alike (Disk.Beside base) Eq (Memory.use id c) (Memory.use id c) := by
  rintro d d' ⟨p, q, ps, hM, hlength, heven⟩
  by_cases hid : id < d.store.handles.length
  · obtain ⟨x, hx, rfl, hx'⟩ := heven id hid
    have hend := hM.use hx c
    rw [hx', run_use_supplied] at hend
    exact Disk.Beside.ends hlength heven (length_handles_use x.id c)
      (length_handles_use x.id c) hend fun _ _ h => h
  · have hnone : d.store.handles[id]? = none := List.getElem?_eq_none (Nat.not_lt.1 hid)
    have hnone' : d'.store.handles[id]? = none := List.getElem?_eq_none (hlength ▸ Nat.not_lt.1 hid)
    rw [run_use_none hnone, run_use_none hnone']
    exact .error ⟨rfl, rfl⟩ ⟨p, q, ps, hM, hlength, heven⟩

/-! ## Pruning both -/

theorem Handle.Mirrors.lose {h h' : Handle} (hm : h.Mirrors base h') :
    (h.lose (Key.within (base ++ k))).Mirrors base (h'.lose (Key.within k)) := by
  have hkey := hm.key
  rw [Handle.lose, Handle.lose, hm.closed]
  cases ho : h'.closed with
  | true => exact hm
  | false =>
    -- the one is lost as the other, since their places are the same from the key on
    have hgone : h.key.any (Key.within (base ++ k)) = h'.key.any (Key.within k) := by
      rw [hkey (hm.closed.trans ho), Option.any_map]
      congr 1
      funext j
      exact Key.within_append_append
    rw [hgone]
    split
    · exact ⟨hm.flags, hm.buffer, hm.dirty, rfl, fun _ => rfl⟩
    · exact hm

/-- What is at and below a key has gone from both. -/
theorem Mirror.prune (hM : Mirror base p q ps d d') (hk : k ≠ []) :
    Mirror base p q ps (d.mapStore (Store.prune (base ++ k))) (d'.mapStore (Store.prune k)) := by
  have hwithin : ∀ j, Key.within (base ++ k) (base ++ j) = Key.within k j :=
    fun j => Key.within_append_append
  have htop : Key.within k [] = false := Key.within_nil hk
  have htree : Subtree base p q (d.store.prune (base ++ k)).tree (d'.store.prune k).tree := by
    refine ⟨?_, ?_, ?_⟩
    · obtain ⟨now, hself⟩ := hM.subtree.self
      have hout := hwithin []
      rw [List.append_nil, htop] at hout
      exact ⟨now, by rw [Store.prune, Store.get?_tree_without, if_neg (by simp [hout]), hself]⟩
    · obtain ⟨now, hself⟩ := hM.subtree.top
      exact ⟨now, by rw [Store.prune, Store.get?_tree_without, if_neg (by simp [htop]), hself]⟩
    · intro j hj
      rw [Store.prune, Store.prune, Store.get?_tree_without, Store.get?_tree_without, hwithin]
      split
      · rfl
      · exact hM.subtree.below j hj
  exact hM.of_map _ _ (hM.sound.prune (by simp [hk])) (hM.sound'.prune hk) hM.supply htree rfl rfl
    fun _ _ hm => hm.lose

theorem Disk.Beside.prune (h : d.Beside base d') (hk : k ≠ []) :
    (d.mapStore (Store.prune (base ++ k))).Beside base (d'.mapStore (Store.prune k)) := by
  obtain ⟨p, q, ps, hM, hlength, heven⟩ := h
  have hkept : ∀ (d : Disk) (k : Key), (d.mapStore (Store.prune k)).store.handles.length =
      d.store.handles.length := fun _ _ => List.length_map _
  exact .of_mirror (hM.prune hk) (by rw [hkept, hkept, hlength]) (by rwa [hkept])

end Memory

/-! ## Worlds beside one another -/

/-- In two worlds are stores beside one another. -/
def World.Beside (m m' : Nat) (base : Key) (w w' : World) : Prop :=
  ∃ s s', w.stores[m]? = some s ∧ w'.stores[m']? = some s' ∧ (w.disk s).Beside base (w'.disk s')

variable {m m' : Nat} {base : Key} {w w' v v' : World} {s s' : Store} {f f' : File}
  {α α' : Type} {R : α → α' → Prop}

/-- Notices are left aside. -/
theorem World.Beside.of_hushed (h : World.Beside m m' base w w') (hv : v.hushed = w.hushed)
    (hv' : v'.hushed = w'.hushed) : World.Beside m m' base v v' := by
  obtain ⟨s, s', hm, hm', hd⟩ := h
  have hstores : v.stores = w.stores := congrArg (·.stores) hv
  have hstores' : v'.stores = w'.stores := congrArg (·.stores) hv'
  have hdisk : v.disk s = w.disk s := congrArg (·.disk s) hv
  have hdisk' : v'.disk s' = w'.disk s' := congrArg (·.disk s') hv'
  exact ⟨s, s', hstores ▸ hm, hstores' ▸ hm', hdisk ▸ hdisk' ▸ hd⟩

/-- Results that are the same without their notices answer the same, or fail alike. -/
theorem World.ends_of_hush {r r₁ : EStateM.Result Fault World α} (h : hush r = hush r₁) :
    Ends Eq (fun w w₁ : World => w.hushed = w₁.hushed) Eq r r₁ := by
  cases r with
  | ok a w =>
    cases r₁ with
    | ok a₁ w₁ =>
      obtain ⟨ha, hw⟩ := EStateM.Result.ok.inj h
      exact .ok ha hw
    | error f₁ w₁ => cases h
  | error f w =>
    cases r₁ with
    | ok a₁ w₁ => cases h
    | error f₁ w₁ =>
      obtain ⟨hf, hw⟩ := EStateM.Result.error.inj h
      exact .error hf hw

theorem Ends.of_hush {r r₁ : EStateM.Result Fault World α} {r' r₁' : EStateM.Result Fault World α'}
    (h : Ends Fault.Alike (World.Beside m m' base) R r₁ r₁') (hr : hush r = hush r₁)
    (hr' : hush r' = hush r₁') : Ends Fault.Alike (World.Beside m m' base) R r r' := by
  have hend := World.ends_of_hush hr
  have hend' := World.ends_of_hush hr'
  cases h with
  | ok ha hw =>
    cases hend with
    | ok heq hv => cases hend' with
      | ok heq' hv' => exact .ok (heq ▸ heq' ▸ ha) (hw.of_hushed hv hv')
  | error he hw =>
    cases hend with
    | error heq hv => cases hend' with
      | error heq' hv' => exact .error (heq ▸ heq' ▸ he) (hw.of_hushed hv hv')

/-- What removing the trees at a path comes to in both. -/
theorem World.Beside.removal {full full' : String} (hm : w.stores[m]? = some s)
    (hm' : w'.stores[m']? = some s') (hd : (w.disk s).Beside base (w'.disk s'))
    (hkey : Key.resolve full = base ++ Key.resolve full') (hne : Key.resolve full' ≠ []) :
    Ends Fault.Alike (World.Beside m m' base) Eq (w.removal m s full)
      (w'.removal m' s' full') := by
  have hprune := hd.prune hne
  have hsame : World.Beside m m' base w w' := ⟨s, s', hm, hm', hd⟩
  obtain ⟨p, q, ps, hM, -⟩ := hd
  have hsome : (s.tree.get? (Key.resolve full)).isSome = true ↔
      (s'.tree.get? (Key.resolve full')).isSome = true := by
    rw [hkey]
    exact hM.subtree.isSome
  have hmissing : s.missing (Key.resolve full) = s'.missing (Key.resolve full') := by
    rw [hkey]
    exact hM.missing hne
  rw [← hkey] at hprune
  unfold World.removal
  by_cases hs : (s'.tree.get? (Key.resolve full')).isSome = true
  · rw [if_pos (hsome.2 hs), if_pos hs]
    exact .ok rfl ⟨_, _, World.stores_putDisk hm _, World.stores_putDisk hm' _, hprune⟩
  · rw [if_neg (mt hsome.1 hs), if_neg hs, hmissing]
    split
    · exact .ok rfl hsame
    · exact .error (alike_onPath ..) hsame

theorem Parallel.onStore {x : MemoryM α} {x' : MemoryM α'}
    (h : Parallel Fault.Alike (Disk.Beside base) R x x') :
    Parallel Fault.Alike (World.Beside m m' base) R (World.onStore m x)
      (World.onStore m' x') := by
  rintro w w' ⟨s, s', hm, hm', hd⟩
  have hend := h _ _ hd
  rw [run_onStore_id hm, run_onStore_id hm']
  generalize x.run (w.disk s) = r at hend ⊢
  generalize x'.run (w'.disk s') = r' at hend ⊢
  cases hend with
  | ok ha hd => exact .ok ha ⟨_, _, World.stores_putDisk hm _, World.stores_putDisk hm' _, hd⟩
  | error hf hd =>
    exact .error hf ⟨_, _, World.stores_putDisk hm _, World.stores_putDisk hm' _, hd⟩

/-! ## Handles beside one another -/

/-- Two handles have the same name, and the same number under all views. -/
structure File.Beside (m m' : Nat) (f f' : File) : Prop where
  name : f.name = f'.name
  inmost : ∃ id n n', f.inmost = .memory m id n ∧ f'.inmost = .memory m' id n'

namespace File.Beside

variable (h : File.Beside m m' f f')
include h

theorem use (c : HandleCall) :
    Parallel Fault.Alike (World.Beside m m' base) Answer.Alike (f.use c) (f'.use c) := by
  obtain ⟨id, n, n', hinmost, hinmost'⟩ := h.inmost
  rw [f.use_inmost, f'.use_inmost, hinmost, hinmost', File.use_memory, File.use_memory]
  refine .onStore ((parallel_use id c).map ?_)
  rintro a _ rfl
  exact a.alike_map m m'

/-- A call on the handles, with what its answers tell. -/
theorem of_use {c : HandleCall} {x x' : WorldM α} {Q : α → α → Prop} {g : α → Answer File}
    (hx : f.use c = g <$> x) (hx' : f'.use c = g <$> x')
    (hg : ∀ a a', (g a).Alike (g a') → Q a a') :
    Parallel Fault.Alike (World.Beside m m' base) Q x x' := by
  have huse : Parallel Fault.Alike (World.Beside m m' base) _ (f.use c) (f'.use c) := h.use c
  rw [hx, hx'] at huse
  exact huse.of_map.imp hg

theorem read (size : Option Int) :
    Parallel Fault.Alike (World.Beside m m' base) Eq (f.read size) (f'.read size) := by
  refine h.of_use (c := .read size) (g := .bytes) (bind_pure_comp ..) (bind_pure_comp ..) ?_
  rintro b b' ⟨⟩
  rfl

theorem write (data : Bytes) :
    Parallel Fault.Alike (World.Beside m m' base) Eq (f.write data) (f'.write data) := by
  refine h.of_use (c := .write data) (g := fun n => .number n) (bind_pure_comp ..)
    (bind_pure_comp ..) ?_
  rintro n n' hn
  cases hn
  rfl

theorem seek (offset origin : Int) :
    Parallel Fault.Alike (World.Beside m m' base) Eq (f.seek offset origin)
      (f'.seek offset origin) := by
  refine h.of_use (c := .seek offset origin) (g := .number) (bind_pure_comp ..)
    (bind_pure_comp ..) ?_
  rintro n n' ⟨⟩
  rfl

theorem tell : Parallel Fault.Alike (World.Beside m m' base) Eq f.tell f'.tell := by
  refine h.of_use (c := .tell) (g := fun n => .number n) (bind_pure_comp ..) (bind_pure_comp ..) ?_
  rintro n n' hn
  cases hn
  rfl

theorem close :
    Parallel Fault.Alike (World.Beside m m' base) (fun _ _ => True) f.close f'.close :=
  h.of_use (c := .close) (g := fun _ => .done) (bind_pure_comp ..) (bind_pure_comp ..)
    fun _ _ _ => trivial

/-- Computations are followed by closing the handles, also if they fail. -/
theorem closing {body : WorldM α} {body' : WorldM α'}
    (hbody : Parallel Fault.Alike (World.Beside m m' base) R body body') :
    Parallel Fault.Alike (World.Beside m m' base) R (f.closing body) (f'.closing body') :=
  (hbody.tryCatch fun _ _ he => h.close.discard.bind fun _ _ _ => .throw he).bind
    fun _ _ ha => h.close.discard.bind fun _ _ _ => .pure ha

end File.Beside

end RootedFS
