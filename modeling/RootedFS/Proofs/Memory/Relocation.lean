import RootedFS.Proofs.Memory.Sound

/-!
# What renaming moves

A renaming that succeeds moves one subtree, and its handles with it. The entries at and below the
source are those at and below the destination afterwards, unchanged; what is missing on the way to
the destination is made; nothing else changes, however alike its name is.

## Main definitions

* `Handle.Relocated`: a handle after a renaming, beside the handle before
* `Store.Renamed`: a store after a renaming, beside the store before

## Main results

* `RenameOutcome.renamed`: each case in which a renaming to another key succeeds moves one subtree
* `Reachable.rename_moves`: so does every renaming that succeeds on a store that calls lead to
-/

namespace RootedFS

namespace Memory

open Tree

variable {s s' : Store} {d d' : Disk} {src dst j : Key} {path target : String}

/-- A handle before and after what stood at `src` has been moved to `dst`. -/
structure Handle.Relocated (src dst : Key) (h h' : Handle) : Prop where
  /-- At most the place of its file changes. -/
  frame : h' = { h with key := h'.key }
  /-- An open handle on a file that is moved goes along. -/
  carried : h.closed = false → ∀ rest, h.key = some (src ++ rest) → h'.key = some (dst ++ rest)
  /-- An open handle on a file that is replaced loses it. -/
  dropped : h.closed = false → h.key = some dst → h'.key = none
  /-- All others stay as they are. -/
  kept : (h.closed = false → ∀ k, h.key = some k → Key.within src k = false ∧ k ≠ dst) → h' = h

/-- A store before and after a renaming from `src` to `dst`. -/
structure Store.Renamed (src dst : Key) (s s' : Store) : Prop where
  source : (s.tree.get? src).isSome = true
  /-- What was at and below the source is at and below the destination, with its content, its mode
  and the tick of its last change. -/
  arrived : ∀ rest, s'.tree.get? (dst ++ rest) = s.tree.get? (src ++ rest)
  /-- Nothing is left behind. -/
  left : ∀ rest, s'.tree.get? (src ++ rest) = none
  /-- A file takes the place of nothing but a file. -/
  file : s.tree.IsFile dst → s.tree.IsFile src
  /-- A directory takes the place of nothing but an empty directory. -/
  directory : s.tree.IsDirectory dst →
    s.tree.IsDirectory src ∧ ∀ rest, rest ≠ [] → s.tree.get? (dst ++ rest) = none
  /-- What is missing on the way to the destination is made. -/
  way : ∀ j, Key.within j dst = true → j ≠ dst → s.tree.get? j = none →
    ∃ now, s'.tree.get? j = some (.directory (Mode.directory + 0o755) now)
  /-- All other entries stay as they are. -/
  others : ∀ j, Key.within src j = false → Key.within dst j = false →
    ((s.tree.get? j).isSome = true ∨ Key.within j dst = false) → s'.tree.get? j = s.tree.get? j
  handles : List.Forall₂ (Handle.Relocated src dst) s.handles s'.handles

/-! ## Handles -/

namespace Handle

/-- A handle that first loses a file that is replaced, and then follows what is moved. -/
theorem relocated_follow_detach (hout : Key.within src dst = false) (h : Handle) :
    h.Relocated src dst ((h.detach dst).follow src dst) where
  frame := by
    unfold follow detach
    split <;> split <;> rfl
  carried := by
    intro ho rest hkey
    have hne : src ++ rest ≠ dst := by
      rintro rfl
      simp at hout
    rw [follow_key (by simpa using ho), detach_key ho, hkey]
    simp [Option.filter, hne, rebase_append]
  dropped := by
    intro ho hkey
    rw [follow_key (by simpa using ho), detach_key ho, hkey]
    simp [Option.filter]
  kept := by
    intro hkey
    rw [detach_eq_self fun ho hdst => (hkey ho dst hdst).2 rfl,
      follow_eq_self fun ho k hk => (hkey ho k hk).1]

end Handle

/-! ## Entries -/

/-- Once the directories on the way to its destination have been made, what is moved is one
subtree. -/
theorem Store.Moved.renamed {s₁ : Store} (hmoved : Store.Moved s₁ s' src dst) (hs : d.store.Sound)
    (htree : s₁.tree = (d.addDirectories defaultPerm dst.parent.steps).store.tree)
    (hmovable : s₁.tree.Movable src dst)
    (hfile : d.store.tree.IsFile dst → d.store.tree.IsFile src)
    (hdirectory : d.store.tree.IsDirectory dst → d.store.tree.IsDirectory src)
    (hsrc : (d.store.tree.get? src).isSome = true) {handles : List Handle}
    (hhandles : List.Forall₂ (Handle.Relocated src dst) d.store.handles handles) :
    Store.Renamed src dst d.store { s' with handles } := by
  have hstep := hs.inStep
  have hout := hmovable.out
  have hsource : ∀ rest, s₁.tree.get? (src ++ rest) = d.store.tree.get? (src ++ rest) := by
    intro rest
    rw [htree, Disk.get?_addDirectories_of_not_mem _ hstep]
    intro hmem
    obtain ⟨-, -, hwithin⟩ := Key.mem_steps_parent.1 hmem
    obtain ⟨more, rfl⟩ := Key.within_iff.1 hwithin
    simp [List.append_assoc] at hout
  refine {
    source := hsrc
    arrived := fun rest => (hmoved.target rest).trans (hsource rest)
    left := ?left
    file := hfile
    directory := fun h => ⟨hdirectory h, ?empty⟩
    way := ?way
    others := ?others
    handles := hhandles }
  case left =>
    intro rest
    have hget := hmoved.other (src ++ rest)
      (Key.within_append_of_not_within hout hmovable.not_within rest)
    rwa [Key.within_append, if_pos rfl] at hget
  case empty =>
    intro rest hrest
    have hnone := hmovable.below rest hrest
    rwa [htree, Disk.get?_addDirectories_append _ hstep] at hnone
  case way =>
    intro j hj hne hnone
    obtain ⟨now, hnow⟩ :=
      Disk.get?_addDirectories_above defaultPerm hstep hs.tree.root hj hne hnone
    obtain ⟨rest, rfl⟩ := Key.within_iff.1 hj
    have hget := hmoved.other j (Key.not_within_of_append fun hnil => hne (by simp [hnil]))
    rw [Key.within_of_append hout, if_neg (by simp)] at hget
    exact ⟨now, (hget.trans (congrArg (fun t => t.get? j) htree)).trans hnow⟩
  case others =>
    intro j hj hj' hor
    have hget := hmoved.other j hj'
    rw [hj, if_neg (by simp)] at hget
    exact hget.trans (htree ▸ Disk.get?_addDirectories_other defaultPerm hstep hor)

/-! ## Renaming -/

/-- A renaming to another key that succeeds moves one subtree. -/
theorem RenameOutcome.renamed (hs : d.store.Sound) (hnames : ∀ a ∈ dst, Path.IsName a)
    (hne : src ≠ dst) (h : RenameOutcome d src dst path target (.ok () d')) :
    Store.Renamed src dst d.store d'.store := by
  cases h with
  | same h => exact absurd h hne
  | fileMoved hne hsrc hdst hfree =>
    have hmove := fileMove hs hnames hne hsrc hdst hfree
    refine hmove.moved.renamed hs rfl hmove.movable (fun _ => hsrc) (fun h => absurd h hdst)
      hsrc.isSome ?_
    have hhandles : ∀ h ∈ d.store.handles,
        h.Relocated src dst ((h.detach dst).follow src dst) :=
      fun h _ => h.relocated_follow_detach hmove.movable.out
    simpa [Store.movedFile, Store.putFile, Store.eraseFile] using hhandles
  | directoryMoved hroot hsrc hdst hout hchildren hfree =>
    have hmove := directoryMove hs hnames hroot hsrc hdst hout hchildren hfree
    refine hmove.moved.renamed hs rfl hmove.movable (fun h => absurd h hdst) (fun _ => hsrc)
      hsrc.isSome ?_
    have hhandles : ∀ h ∈ d.store.handles, h.Relocated src dst (h.follow src dst) := by
      intro h hh
      have hdetach : h.detach dst = h := by
        refine Handle.detach_eq_self fun ho hkey => ?_
        exact hdst (hs.attached h hh ho dst hkey)
      have hrelocated := h.relocated_follow_detach hout
      rwa [hdetach] at hrelocated
    change List.Forall₂ _ _ (List.map _ (Store.handles (Store.movedAll ..)))
    rw [hmove.moved.handles]
    simpa using hhandles

/-- Whatever calls have been made before, a renaming that succeeds between paths that lead to
different keys moves one subtree. -/
theorem Reachable.rename_moves (hs : Reachable s) (hne : Key.resolve path ≠ Key.resolve target)
    {clock : Nat} {supply : Supply}
    (h : (rename path target).run ⟨s, clock, supply⟩ = .ok () d') :
    Store.Renamed (Key.resolve path) (Key.resolve target) s d'.store := by
  obtain ⟨r, hr⟩ := renameOutcome (d := ⟨s, clock, supply⟩) hs.sound (Key.resolve path)
    (Key.resolve target) path target
  have hrun := hr.run hs.sound
  rw [h] at hrun
  subst hrun
  exact hr.renamed hs.sound (Path.isName_resolve target) hne

/-- A directory with a file that is open is moved past a file whose name begins alike. -/
theorem Reachable.rename_moves_sibling :
    let s₁ := (after (Event.call (.create "a/f")).run ⟨.empty 0, 0, {}⟩).store
    let s₂ := (after (Event.call (.create "ab")).run ⟨s₁, 2, {}⟩).store
    Key.resolve "/a/" ≠ Key.resolve "b/../x/y" ∧
      ∃ d', (rename "/a/" "b/../x/y").run ⟨s₂, 3, {}⟩ = .ok () d' ∧
        Store.Renamed (Key.resolve "/a/") (Key.resolve "b/../x/y") s₂ d'.store := by
  intro s₁ s₂
  have hs : Reachable s₂ := .step (.step (.new 0) 0 {} _) 2 {} _
  have hne : Key.resolve "/a/" ≠ Key.resolve "b/../x/y" := by decide
  have hrun : ((rename "/a/" "b/../x/y").run ⟨s₂, 3, {}⟩ matches .ok ..) = true := by
    decide +kernel
  refine ⟨hne, ?_⟩
  cases h : (rename "/a/" "b/../x/y").run ⟨s₂, 3, {}⟩ with
  | ok a d' => exact ⟨d', rfl, hs.rename_moves hne h⟩
  | error f d' =>
    rw [h] at hrun
    cases hrun

end Memory

end RootedFS
