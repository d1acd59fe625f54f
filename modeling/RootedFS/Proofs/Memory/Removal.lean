import RootedFS.Proofs.Memory.Lookup
import RootedFS.Proofs.Together
import RootedFS.Proofs.View.Removal

/-!
# Removing trees from a filesystem in memory

Removing the tree at a path takes out one subtree and nothing else. The files among the entries that
go are lost to the handles on them, and all other entries stay as they are, however alike their
names are. At the top, everything below it goes before the top itself is refused. Where the path
leads nowhere, nothing is done, and it is a failure only if a file stands above.

There is no bound on the levels of directories: any number of levels of calls above the number of
entries comes to the same.

## Main definitions

* `Handle.Released`: a handle after files have been removed, beside the handle before
* `Store.Cleared`: a store after entries have been removed, beside the store before
* `TreeOutcome`: what removing the tree at a path comes to, by what is at the path

## Main results

* `keeps_notices_removeLevels`: removing from a filesystem in memory gives no notice
* `run_removeLevels_top`: removing from the top leaves the top alone
* `Reachable.removeTree_outcome`: what removing comes to on every store that calls lead to
-/

namespace RootedFS

open Memory World Tree

variable {w : World} {m n : Nat} {s : Store} {path : String}

namespace Memory

/-! ## What is taken out -/

/-- A handle before and after the entries at some keys have been removed. -/
structure Handle.Released (gone : Key → Prop) (h h' : Handle) : Prop where
  /-- At most the file is lost. -/
  frame : h' = { h with key := h'.key }
  /-- An open handle on a file that has gone has lost it. -/
  lost : h.closed = false → ∀ k, h.key = some k → gone k → h'.key = none
  /-- All others stay as they are. -/
  kept : (h.closed = false → ∀ k, h.key = some k → ¬gone k) → h' = h

/-- A store before and after the entries at some keys have been removed. -/
structure Store.Cleared (gone : Key → Prop) (s s' : Store) : Prop where
  removed : ∀ j, gone j → s'.tree.get? j = none
  /-- All other entries keep their kind, their content, their mode and the tick of their last
  change. -/
  kept : ∀ j, ¬gone j → s'.tree.get? j = s.tree.get? j
  handles : List.Forall₂ (Handle.Released gone) s.handles s'.handles

theorem Handle.released_lose (gone : Key → Bool) (h : Handle) :
    h.Released (gone · = true) (h.lose gone) where
  frame := by
    unfold lose
    split <;> rfl
  lost := by
    intro ho k hk hgone
    simp [lose, ho, hk, hgone]
  kept := by
    intro hk
    exact lose_eq_self fun ho k hkey => Bool.eq_false_iff.2 (hk ho k hkey)

theorem Store.cleared_without (s : Store) (gone : Key → Bool) :
    Store.Cleared (gone · = true) s (s.without gone) where
  removed := by
    intro j hj
    rw [get?_tree_without, if_pos hj]
  kept := by
    intro j hj
    rw [get?_tree_without, if_neg hj]
  handles := by
    have hreleased : ∀ h ∈ s.handles, h.Released (gone · = true) (h.lose gone) :=
      fun h _ => h.released_lose gone
    simpa [Store.without] using hreleased

/-- When all children of the top have gone, everything but the top has. -/
theorem Store.Sound.cleared_hollow_top (hs : s.Sound) : Store.Cleared (· ≠ []) s (s.hollow []) := by
  have hbelow : (fun j : Key => (Key.within [] j && j != []) = true) = (· ≠ []) := by
    funext j
    simp [Key.within_iff]
  rw [hs.hollow_eq, ← hbelow]
  exact s.cleared_without _

/-- What removing the tree at a path of a filesystem in memory comes to, by what is at the path. -/
structure TreeOutcome (w : World) (m : Nat) (s : Store) (path : String)
    (r : EStateM.Result Fault World Unit) : Prop where
  /-- An entry other than the top goes with all that is below it. -/
  entry : Key.resolve path ≠ [] → (s.tree.get? (Key.resolve path)).isSome = true →
    ∃ s', Store.Cleared (fun j => Key.within (Key.resolve path) j = true) s s' ∧
      r = .ok () { w with stores := w.stores.set m s' }
  absent : s.tree.get? (Key.resolve path) = none → ¬s.Obstructed (Key.resolve path) → r = .ok () w
  obstructed : s.Obstructed (Key.resolve path) → r = .error (.onPath .notDirectory path) w
  /-- All that is below the top goes, and the top does not. -/
  top : Key.resolve path = [] →
    ∃ s', Store.Cleared (· ≠ []) s s' ∧
      r = .error (.onPath .removeRoot path) { w with stores := w.stores.set m s' }

end Memory

/-! ## Notices -/

namespace World

variable {α : Type} {x : WorldM α} {l : List Notice}

/-- The notices that have been given when a computation ends. -/
def told : EStateM.Result Fault World α → List Notice
  | .ok _ w => w.notices
  | .error _ w => w.notices

/-- Ends that are the same but for notices, and have the same notices, are the same. -/
theorem eq_of_hush {r r' : EStateM.Result Fault World α} (h : hush r = hush r')
    (htold : told r = told r') : r = r' := by
  have hworld : ∀ {v v' : World}, v.hushed = v'.hushed → v.notices = v'.notices → v = v' := by
    intro v v' hhushed hnotices
    have hv : ∀ u : World, u = { u.hushed with notices := u.notices } := fun _ => rfl
    rw [hv v, hv v', hhushed, hnotices]
  cases r with
  | ok a v =>
    cases r' with
    | ok a' v' =>
      obtain ⟨rfl, hhushed⟩ := EStateM.Result.ok.inj h
      rw [hworld hhushed htold]
    | error f' v' => cases h
  | error f v =>
    cases r' with
    | ok a' v' => cases h
    | error f' v' =>
      obtain ⟨rfl, hhushed⟩ := EStateM.Result.error.inj h
      rw [hworld hhushed htold]

theorem told_run (hx : ∀ l, Keeps (·.notices = l) x) (w : World) : told (x.run w) = w.notices := by
  have hrun := hx w.notices w w ⟨rfl, rfl⟩
  generalize x.run w = r at hrun
  cases hrun with
  | ok h => exact h.2
  | error h => exact h.2

@[simp] theorem told_removal (w : World) (m : Nat) (s : Store) (full : String) :
    told (w.removal m s full) = w.notices := by
  unfold removal
  dsimp only
  split
  · rfl
  · split <;> rfl

theorem keeps_notices_onStore (m : Nat) (act : MemoryM α) :
    Keeps (·.notices = l) (onStore m act) := by
  rintro w _ ⟨rfl, hw⟩
  rw [EStateM.run, onStore]
  cases w.stores[m]? with
  | none => exact .error ⟨rfl, hw⟩
  | some s =>
    dsimp only
    cases act.run ⟨s, w.clock, w.supply⟩ with
    | ok a d => exact .ok ⟨rfl, hw⟩
    | error f d => exact .error ⟨rfl, hw⟩

end World

namespace FileSystem

/-- Removing from a filesystem in memory gives no notice. -/
theorem keeps_notices_removeLevels (m n : Nat) (path : String) (l : List Notice) :
    Keeps (·.notices = l) ((FileSystem.memory m .plain).removeLevels n path) := by
  have hlink : ∀ path, (FileSystem.memory m .plain).isSymlink path = pure false := fun _ => rfl
  -- by induction on the levels: each makes calls on the store and removes one level less
  induction n generalizing path with
  | zero => exact .throw _
  | succ n ih =>
    have hremove : Keeps (·.notices = l) ((FileSystem.memory m .plain).remove path) :=
      keeps_notices_onStore m _
    rw [removeLevels]
    refine .bind (.tryCatch ?_ fun f => ?_) fun info? => ?_
    · exact .bind (.bind (keeps_notices_onStore m _) fun _ => .pure _) fun _ => .pure _
    · split
      · exact .pure _
      · exact .throw _
    cases info? with
    | none =>
      rw [hlink, pure_bind]
      exact .pure _
    | some info =>
      simp only [hlink, pure_bind, Bool.false_eq_true, if_false]
      split
      · refine .bind (.bind (keeps_notices_onStore m _) fun _ => .pure _) fun infos => ?_
        exact .bind (.forM fun i _ => ih _) fun _ => hremove
      · exact hremove

/-! ## Whole removals -/

variable (hm : w.stores[m]? = some s) (hs : s.Sound)
include hm hs

/-- Removing from the top takes out all that is below it, and fails. -/
theorem run_removeLevels_top (htop : Key.resolve path = []) (hn : w.size < n) :
    hush (((FileSystem.memory m .plain).removeLevels n path).run w) =
      hush (.error (.onPath .removeRoot path) (w.putDisk m (w.disk (s.hollow [])))) := by
  obtain ⟨n, rfl⟩ := Nat.exists_eq_succ_of_ne_zero (Nat.ne_of_gt (Nat.zero_lt_of_lt hn))
  have hsees : Sees m (.memory m .plain) path path := .store path
  have hdir : s.tree.IsDirectory (Key.resolve path) := htop ▸ hs.tree.root
  obtain ⟨w₁, hw₁, hrun⟩ := hsees.removeLevels_of_directory hm hs n hdir fun hm =>
    hsees.list hm hs hdir (.inl rfl)
  have hforM := Prunes.forM (prunes _ m n) hsees (.inl rfl) (hw₁.stores hm) hs (s.nodup_children _)
    fun a ha => isSome_of_mem_children hs ha
  have henough : ∀ a ∈ s.children (Key.resolve path), ∀ rest,
      (s.tree.get? (Key.resolve path ++ a :: rest)).isSome = true → rest.length < n := by
    intro a _ rest hrest
    have hlength := hs.length_lt_size hrest
    have hsize := size_le_size hm
    rw [List.length_append, List.length_cons] at hlength
    omega
  rw [hrun, EStateM.run_bind]
  -- the children go one after another, and then the top is refused
  generalize ((s.children (Key.resolve path)).forM fun a =>
    (FileSystem.memory m .plain).removeLevels n
      ((FileSystem.memory m .plain).join [path, a])).run w₁ = r at hforM
  cases hforM with
  | endless hnot => exact absurd henough hnot
  | @done w₂ hw₂ =>
    have hhollow : w.Becomes m (s.hollow (Key.resolve path)) w₂ := hw₁.trans hw₂
    rw [htop] at hhollow
    have houtcome : RemoveOutcome (w₂.disk (s.hollow [])) (Key.resolve path) path _ := .root htop
    dsimp only
    rw [hsees.run_remove (hhollow.stores hm), houtcome.run (hs.hollow []), World.lift,
      World.putDisk_disk (hhollow.stores hm)]
    exact congrArg (EStateM.Result.error _) hhollow

/-- What removing the tree at a path of a filesystem in memory comes to. -/
theorem run_removeLevels_memory (hn : w.size < n) :
    ((FileSystem.memory m .plain).removeLevels n path).run w =
      if Key.resolve path = [] then
        .error (.onPath .removeRoot path) (w.putDisk m (w.disk (s.hollow [])))
      else w.removal m s path := by
  have htold := told_run (keeps_notices_removeLevels m n path) w
  split
  · rename_i htop
    exact eq_of_hush (run_removeLevels_top hm hs htop hn) htold
  · rename_i htop
    refine eq_of_hush ((Sees.store path).removeLevels hm hs htop (.inl rfl) hn) ?_
    rw [htold, told_removal]

end FileSystem

namespace Memory

/-- Whatever calls have been made before, removing the tree at a path takes out what the path leads
to with all that is below it, and nothing else; and any number of levels of calls that is above the
number of entries comes to the same. -/
theorem Reachable.removeTree_outcome (hs : Reachable s) (hm : w.stores[m]? = some s)
    (path : String) :
    TreeOutcome w m s path (((FileSystem.memory m .plain).removeTree path).run w) ∧
      ∀ n, w.size < n → ((FileSystem.memory m .plain).removeLevels n path).run w =
        ((FileSystem.memory m .plain).removeTree path).run w := by
  have hrun : ∀ n, w.size < n → ((FileSystem.memory m .plain).removeLevels n path).run w = _ :=
    fun n hn => FileSystem.run_removeLevels_memory hm hs.sound hn
  have htree : ((FileSystem.memory m .plain).removeTree path).run w = _ :=
    hrun (w.size + 1) (Nat.lt_succ_self w.size)
  have hne : s.tree.get? (Key.resolve path) = none → Key.resolve path ≠ [] := by
    intro hnone htop
    rw [htop] at hnone
    exact not_isDirectory_of_none hnone hs.sound.tree.root
  refine ⟨?_, fun n hn => (hrun n hn).trans htree.symm⟩
  rw [htree]
  refine { entry := ?entry, absent := ?absent, obstructed := ?obstructed, top := ?top }
  case entry =>
    intro htop hsome
    rw [if_neg htop, World.removal, if_pos hsome]
    exact ⟨_, s.cleared_without _, rfl⟩
  case absent =>
    intro hnone hobstructed
    rw [if_neg (hne hnone), World.removal, hnone, hs.sound.missing_of_not_obstructed hobstructed]
    rfl
  case obstructed =>
    intro hobstructed
    have hnone := hs.sound.get?_of_obstructed hobstructed
    rw [if_neg (hne hnone), World.removal, hnone, hs.sound.missing_of_obstructed hobstructed]
    rfl
  case top =>
    intro htop
    rw [if_pos htop]
    exact ⟨_, hs.sound.cleared_hollow_top, rfl⟩

/-- A directory with a file that is open goes; the file next to it whose name begins alike stays. -/
theorem Reachable.removeTree_outcome_sibling :
    let s₁ := (after (Event.call (.create "a/f")).run ⟨.empty 0, 0, {}⟩).store
    let s₂ := (after (Event.call (.create "ab")).run ⟨s₁, 2, {}⟩).store
    let w : World := { stores := [s₂], host := { tree := ⟨[]⟩ } }
    Reachable s₂ ∧
      TreeOutcome w 0 s₂ "//x/../a/."
        (((FileSystem.memory 0 .plain).removeTree "//x/../a/.").run w) ∧
      ∃ s', Store.Cleared (fun j => Key.within ["a"] j = true) s₂ s' ∧
        ((FileSystem.memory 0 .plain).removeTree "//x/../a/.").run w =
          .ok () { w with stores := [s'] } := by
  intro s₁ s₂ w
  have hs : Reachable s₂ := .step (.step (.new 0) 0 {} _) 2 {} _
  have houtcome := (hs.removeTree_outcome (w := w) (m := 0) rfl "//x/../a/.").1
  have hkey : Key.resolve "//x/../a/." = ["a"] := by decide
  have hentry := houtcome.entry
  rw [hkey] at hentry
  exact ⟨hs, houtcome, hentry (by decide) (by decide)⟩

end Memory

end RootedFS
