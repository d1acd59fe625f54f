import RootedFS.Conformance.Suite
import RootedFS.Proofs.Conformance.TempFiles
import RootedFS.Proofs.Conformance.Transfer

/-!
# The conformance suite accepts views

Every scenario on files, directories and temporary files passes on the view that a new filesystem in
memory gives of any path. Without temporary files, it carries over to the view from the filesystem
itself, where running it once shows that it passes. With temporary files it passes wherever it runs.

## Main results

* `Scenario.verdict_eq_passed_iff`: what it means that a scenario passes
* `verdict_newMemory`: the scenarios pass on a new filesystem in memory
* `carriesOver`: they carry over from there
* `verdict_viewFrom`: the suite accepts every view
-/

namespace RootedFS.Conformance

open FileSystem Memory

theorem Setback.verdict_ne_passed (e : Setback) : e.verdict ≠ .passed := by
  cases e <;> simp [Setback.verdict]

/-- A scenario passes if it applies and runs to its end on the filesystem that is made. -/
theorem Scenario.verdict_eq_passed_iff {s : Scenario} {hasSymlinks : Bool}
    {make : WorldM FileSystem} {fs : FileSystem} {w w₁ : World} (hmake : make.run w = .ok fs w₁) :
    s.verdict hasSymlinks make w = .passed ↔
      (s.needsSymlinks && !hasSymlinks) = false ∧ ∃ v, (s.run fs).run w₁ = .ok () v := by
  rw [Scenario.verdict]
  split
  next hall =>
    have hall := (run_bind_ok (run_call_ok hmake)).symm.trans hall
    cases hneeds : s.needsSymlinks && !hasSymlinks with
    | true => rw [hneeds] at hall; cases hall
    | false => rw [hneeds] at hall; exact ⟨fun _ => ⟨rfl, _, hall⟩, fun _ => rfl⟩
  next e _ hall =>
    have hall := (run_bind_ok (run_call_ok hmake)).symm.trans hall
    refine ⟨fun hpassed => absurd hpassed e.verdict_ne_passed, ?_⟩
    rintro ⟨hneeds, v, hpass⟩
    rw [hneeds] at hall
    exact nomatch hall.symm.trans hpass

/-- The store of a new filesystem in memory has just been made. -/
theorem exists_run_newMemory (variant : Variant) (w : World) :
    ∃ m v now, (newMemory variant).run w = .ok (.memory m variant) v ∧
      v.stores[m]? = some (.empty now) := by
  refine ⟨w.stores.length, _, w.clock, rfl, ?_⟩
  exact List.getElem?_concat_length

/-- A world with nothing in it. -/
def emptyWorld : World := { host := { tree := ⟨[]⟩ } }

set_option maxRecDepth 100000 in
/-- The scenarios on files and directories pass on a new filesystem in memory. -/
theorem verdict_newMemory : ∀ s ∈ fileScenarios ++ directoryScenarios,
    s.verdict false (newMemory .plain) emptyWorld = .passed := by
  decide +kernel

/-- They carry over to all filesystems that are abreast. -/
theorem carriesOver : ∀ s ∈ fileScenarios ++ directoryScenarios, s.CarriesOver := by
  simp only [fileScenarios, directoryScenarios, List.forall_mem_append]
  exact ⟨⟨⟨⟨⟨⟨⟨carriesOver_creation, carriesOver_opening⟩, carriesOver_handles⟩,
    carriesOver_metadata⟩, carriesOver_relocation⟩, carriesOver_removal⟩, carriesOver_joining⟩,
    ⟨⟨carriesOver_makingDirectories, carriesOver_listing⟩, carriesOver_viewing⟩,
    carriesOver_treeRemoval⟩

/-- The suite accepts the view that a new filesystem in memory gives of any path, whatever the
numbers that names of temporary files are made of. -/
theorem verdict_viewFrom {s : Scenario}
    (hs : s ∈ fileScenarios ++ directoryScenarios ++ tempFileScenarios) (hasSymlinks : Bool)
    (b : String) (w : World) :
    s.verdict hasSymlinks (do return (← newMemory .plain).viewFrom b) w = .passed := by
  obtain ⟨m, v, now, hnew, hm⟩ := exists_run_newMemory .plain w
  have hmake : (do return (← newMemory .plain).viewFrom b : WorldM FileSystem).run w =
      .ok ((memory m .plain).viewFrom b) v := run_bind_ok hnew
  have hview : Seat m ((memory m .plain).viewFrom b) := Seat.memory.viewFrom b
  rw [Scenario.verdict_eq_passed_iff hmake]
  rcases List.mem_append.1 hs with hs | hs
  · obtain ⟨m', v', now', hnew', hm'⟩ := exists_run_newMemory .plain emptyWorld
    obtain ⟨hneeds, hpass⟩ := (Scenario.verdict_eq_passed_iff hnew').1 (verdict_newMemory s hs)
    rw [Bool.not_false, Bool.and_true] at hneeds
    have habreast : Abreast m m' ((memory m .plain).viewFrom b).place
        ((memory m .plain).viewFrom b) (memory m' .plain) :=
      ⟨hview, .memory, (List.append_nil _).symm⟩
    exact ⟨by rw [hneeds, Bool.false_and],
      carriesOver s hs m m' _ _ _ habreast v v' now now' hm hm' hpass⟩
  · have hneeds : ∀ s ∈ tempFileScenarios, s.needsSymlinks = false := by
      simp [tempFileScenarios]
    exact ⟨by rw [hneeds s hs, Bool.false_and], passesOnNew_tempFiles s hs m _ v now hview hm⟩

/-- The scenario that makes two temporary files in one directory, with numbers that repeat, on the
view of a path that leads up on its way. -/
theorem verdict_viewFrom_dotted :
    let s := tempFileScenarios.getLast (List.cons_ne_nil _ _)
    let w : World := { emptyWorld with supply := { listed := [7, 7, -1] } }
    s ∈ fileScenarios ++ directoryScenarios ++ tempFileScenarios ∧
      s.verdict false (do return (← newMemory .plain).viewFrom "foo/../qux") w = .passed := by
  intro s w
  have hs : s ∈ fileScenarios ++ directoryScenarios ++ tempFileScenarios :=
    List.mem_append_right _ (List.getLast_mem _)
  exact ⟨hs, verdict_viewFrom hs false "foo/../qux" w⟩

end RootedFS.Conformance
