import RootedFS.Proofs.Memory.Failure

/-!
# Paths that lead nowhere

A call that looks a path up fails where the path leads nowhere. It then tells one of two things:
that a file stands somewhere above, or that nothing is there. All calls tell this alike, and they
name the path as the caller spelt it, whatever else they are given.

A renaming between two spellings of one key is done before it has looked anything up, so that it
succeeds where the path leads nowhere.

## Main definitions

* `Call.LooksUp`: calls for which a path has to lead somewhere
* `Store.Obstructed`: a file stands above a key

## Main results

* `CallOutcome.of_looksUp`: what a call that looks a path up comes to where the path leads nowhere
* `Reachable.lookup_fails`: it fails, on every store that calls lead to
* `Reachable.rename_same`: a renaming between two spellings of one key changes nothing
-/

namespace RootedFS

/-- The calls for which a path has to lead somewhere; for a renaming it is the first of the two. -/
inductive Call.LooksUp (path : String) : Call → Prop
  | openRead : LooksUp path (.openRead path)
  | stat : LooksUp path (.stat path)
  | list : LooksUp path (.list path)
  | remove : LooksUp path (.remove path)
  | rename (target : String) : LooksUp path (.rename path target)

namespace Memory

open Tree

variable {s : Store} {d : Disk} {k : Key} {path target : String} {c : Call} {w : World} {m : Nat}

/-- A file stands above a key. -/
def Store.Obstructed (s : Store) (k : Key) : Prop :=
  ∃ j, Key.within j k = true ∧ j ≠ k ∧ s.hasFile j = true

namespace Store

/-- No file stands at the top, so that the way down from there tells whether one stands above. -/
theorem Sound.obstructed_iff (hs : s.Sound) :
    s.Obstructed k ↔ k.parent.steps.any s.hasFile = true := by
  rw [List.any_eq_true]
  constructor
  · rintro ⟨j, hwithin, hne, hfile⟩
    refine ⟨j, Key.mem_steps_parent.2 ⟨?_, hne, hwithin⟩, hfile⟩
    rintro rfl
    exact hs.tree.root.not_isFile (hs.inStep.isFile_tree.2 hfile)
  · rintro ⟨j, hj, hfile⟩
    obtain ⟨-, hne, hwithin⟩ := Key.mem_steps_parent.1 hj
    exact ⟨j, hwithin, hne, hfile⟩

theorem Sound.missing_of_obstructed (hs : s.Sound) (h : s.Obstructed k) :
    s.missing k = .notDirectory :=
  if_pos (hs.obstructed_iff.1 h)

theorem Sound.missing_of_not_obstructed (hs : s.Sound) (h : ¬s.Obstructed k) :
    s.missing k = .missing :=
  if_neg fun hany => h (hs.obstructed_iff.2 hany)

/-- Where a file stands above, nothing is. -/
theorem Sound.get?_of_obstructed (hs : s.Sound) (h : s.Obstructed k) : s.tree.get? k = none := by
  obtain ⟨j, hwithin, hne, hfile⟩ := h
  obtain ⟨rest, rfl⟩ := Key.within_iff.1 hwithin
  have hrest : rest ≠ [] := by
    rintro rfl
    exact hne (List.append_nil j).symm
  exact hs.tree.get?_append_eq_none (hs.inStep.isFile_tree.2 hfile).not_isDirectory hrest

end Store

/-- A path that leads nowhere is reported alike by all calls that look it up. -/
theorem CallOutcome.of_looksUp (hc : c.LooksUp path)
    (hself : ∀ target, c = .rename path target → Key.resolve path ≠ Key.resolve target)
    (hnone : d.store.tree.get? (Key.resolve path) = none) :
    CallOutcome d c (.error (.onPath (d.store.missing (Key.resolve path)) path) d) := by
  cases hc with
  | openRead => exact .openRead (.missing hnone rfl)
  | stat => exact .stat (.missing hnone)
  | list => exact .list (.missing hnone)
  | remove => exact .remove (.missing hnone)
  | rename target => exact .rename (.missing (hself target rfl) hnone)

/-- Whatever calls have been made before, a call that looks up a path without a file or a directory
fails, unless it renames a key to itself. The fault tells whether a file stands above and names the
path as it was spelt, and nothing has changed. -/
theorem Reachable.lookup_fails (hs : Reachable s) (hm : w.stores[m]? = some s)
    (hc : c.LooksUp path)
    (hself : ∀ target, c = .rename path target → Key.resolve path ≠ Key.resolve target)
    (hfile : s.hasFile (Key.resolve path) = false)
    (hdirectory : s.hasDirectory (Key.resolve path) = false) :
    (s.Obstructed (Key.resolve path) →
      ((FileSystem.memory m .plain).perform c).run w = .error (.onPath .notDirectory path) w) ∧
    (¬s.Obstructed (Key.resolve path) →
      ((FileSystem.memory m .plain).perform c).run w = .error (.onPath .missing path) w) := by
  have hnone := hs.sound.inStep.get?_tree_eq_none_iff.2 ⟨hfile, hdirectory⟩
  have hrun : ((FileSystem.memory m .plain).perform c).run w =
      .error (.onPath (s.missing (Key.resolve path)) path) w := by
    rw [run_perform_plain hm, (CallOutcome.of_looksUp (d := w.disk s) hc hself hnone).run hs.sound,
      World.lift, World.putDisk_disk hm]
    rfl
  constructor
  · intro hobstructed
    rw [hrun, hs.sound.missing_of_obstructed hobstructed]
  · intro hobstructed
    rw [hrun, hs.sound.missing_of_not_obstructed hobstructed]

/-- A file two levels above the source of a renaming, in a spelling that goes up and down. -/
theorem Reachable.lookup_fails_below :
    let s := (after (Event.call (.create "a/f")).run ⟨.empty 0, 0, {}⟩).store
    let w : World := { stores := [s], host := { tree := ⟨[]⟩ } }
    (Key.resolve "a/../a//f/x/./y" ≠ Key.resolve "b" ∧
        s.hasFile (Key.resolve "a/../a//f/x/./y") = false ∧
        s.hasDirectory (Key.resolve "a/../a//f/x/./y") = false ∧
        s.Obstructed (Key.resolve "a/../a//f/x/./y")) ∧
      ((FileSystem.memory 0 .plain).perform (.rename "a/../a//f/x/./y" "b")).run w =
        .error (.onPath .notDirectory "a/../a//f/x/./y") w := by
  intro s w
  have hs : Reachable s := .step (.new 0) 0 {} _
  have hne : Key.resolve "a/../a//f/x/./y" ≠ Key.resolve "b" := by decide
  have hfile : s.hasFile (Key.resolve "a/../a//f/x/./y") = false := by decide
  have hdirectory : s.hasDirectory (Key.resolve "a/../a//f/x/./y") = false := by decide
  have hobstructed : s.Obstructed (Key.resolve "a/../a//f/x/./y") :=
    ⟨["a", "f"], by decide, by decide, by decide⟩
  refine ⟨⟨hne, hfile, hdirectory, hobstructed⟩, ?_⟩
  refine (hs.lookup_fails rfl (.rename "b") ?_ hfile hdirectory).1 hobstructed
  intro target htarget
  cases htarget
  exact hne

/-! ## Renaming a key to itself -/

/-- A renaming between two spellings of one key looks nothing up and changes nothing. -/
theorem Reachable.rename_same (hs : Reachable s) (hm : w.stores[m]? = some s)
    (hself : Key.resolve path = Key.resolve target) :
    ((FileSystem.memory m .plain).perform (.rename path target)).run w = .ok .done w := by
  have hsame : CallOutcome (w.disk s) (.rename path target) _ := .rename (.same hself)
  rw [run_perform_plain hm, hsame.run hs.sound, mapResult, World.lift, World.putDisk_disk hm]
  rfl

/-- A path below a file leads nowhere, and renaming it to itself does not fail. -/
theorem Reachable.rename_same_below :
    let s := (after (Event.call (.create "f")).run ⟨.empty 0, 0, {}⟩).store
    let w : World := { stores := [s], host := { tree := ⟨[]⟩ } }
    Reachable s ∧ s.hasFile (Key.resolve "f/x") = false ∧
      s.hasDirectory (Key.resolve "f/x") = false ∧ s.Obstructed (Key.resolve "f/x") ∧
      ((FileSystem.memory 0 .plain).perform (.rename "f/x" "f/x")).run w = .ok .done w := by
  intro s w
  have hs : Reachable s := .step (.new 0) 0 {} _
  exact ⟨hs, by decide, by decide, ⟨["f"], by decide, by decide, by decide⟩,
    hs.rename_same rfl rfl⟩

end Memory

end RootedFS
