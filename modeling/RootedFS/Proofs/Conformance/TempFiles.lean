import RootedFS.Conformance.TempFiles
import RootedFS.Proofs.Conformance.Check
import RootedFS.Proofs.Memory.TempFile

/-!
# Scenarios on temporary files

The numbers that temporary files are named after are drawn from a supply for all stores of a world,
and which of them are taken depends on the files that are there. So the scenarios on temporary files
do not run in parallel on two filesystems. They are followed step by step, with the store as it is
after each step.

## Main definitions

* `Scenario.PassesOnNew`: a scenario passes in every store just made

## Main results

* `exists_run_createTemp`: a temporary file is made, with the name of its candidate
* `exists_run_withFile_write`: what is written to it is there afterwards
* `passesOnNew_tempFiles`: the scenarios pass
-/

namespace RootedFS

open Memory World Tree

namespace Conformance

open FileSystem

theorem beginsWith_of_toList {lead s : String} {rest : List Char}
    (h : s.toList = lead.toList ++ rest) : beginsWith lead s = true := by
  rw [beginsWith, h, Path.dropLead?_eq_some_iff.2 rfl]
  rfl

section

variable {α : Type} {m id : Nat} {fs : FileSystem} {w w₁ w₂ : World} {s : Store} {d : Disk}
  {f : File} {g : Handle} {name : String}

theorem run_withFile {body : CheckM Unit} (hbody : body.run w = .ok () w₁)
    (hclose : (discard (call f.close)).run w₁ = .ok () w₂) :
    (withFile f body).run w = .ok () w₂ := by
  have htry : (tryCatch body fun e => do
      discard (call f.close)
      throw e).run w = .ok () w₁ := by rw [run_tryCatch, hbody]
  exact (run_bind_ok htry).trans hclose

/-- An open handle is closed. -/
theorem run_close (hm : w.stores[m]? = some s) (hf : f.inmost = .memory m id name)
    (hid : d.store.handles[id]? = some g) (ho : g.closed = false) :
    (discard (call f.close)).run (w.putDisk m d) =
      .ok () (w.putDisk m ((d.committed g .close).setHandle id (g.use .close).2)) := by
  have hok : (g.use .close).1 = .ok .done := by
    rw [g.use_of_open .close ho]
    rfl
  have huse := run_use_putDisk hm hid hok name
  rw [← hf, ← File.use_inmost] at huse
  obtain ⟨a, ha, -⟩ := exists_of_run_map huse
  rw [discard_eq_bind, run_bind_ok (run_call_ok ha)]
  rfl

theorem run_write {data : Bytes} {n : Nat} (hm : w.stores[m]? = some s)
    (hf : f.inmost = .memory m id name) (hid : d.store.handles[id]? = some g)
    (hok : (g.use (.write data)).1 = .ok (.number n)) :
    (discard (call (f.write data))).run (w.putDisk m d) =
      .ok () (w.putDisk m (d.setHandle id (g.use (.write data)).2)) := by
  have huse := run_use_putDisk hm hid hok name
  rw [← hf, ← File.use_inmost, Disk.committed_of_not_commits rfl] at huse
  obtain ⟨a, ha, -⟩ := exists_of_run_map huse
  rw [discard_eq_bind, run_bind_ok (run_call_ok ha)]
  rfl

/-- A temporary file is made, and the handle on it has the name of its candidate. -/
theorem exists_run_createTemp (h : Seat m fs) (hm : w.stores[m]? = some s) (hs : d.store.Sound)
    {directory lead : String} (hadmits : d.store.Admits (Key.resolve (fs.reach directory)))
    (hlead : '/' ∉ lead.toList) :
    ∃ f number supply name,
      (call (fs.createTemp directory lead)).run (w.putDisk m d) =
        .ok f (w.putDisk m (d.withTemp (fs.reach directory) lead number supply)) ∧
      f.name = candidate directory lead number ∧
      f.inmost = .memory m d.store.handles.length name ∧
      d.store.tree.get? (Key.resolve (candidate (fs.reach directory) lead number)) = none ∧
      (d.withTemp (fs.reach directory) lead number supply).store.Sound := by
  obtain ⟨g, hg, heq⟩ := h.exists_createTemp directory hlead
  obtain ⟨number, supply, hnone, hsound, hrun⟩ := Memory.exists_run_createTemp hs hadmits hlead
  obtain ⟨hname, name, hinmost⟩ := hg d.store.handles.length number
  refine ⟨_, number, supply, name, run_call_ok ?_, hname, hinmost, hnone, hsound⟩
  have hdisk : (w.putDisk m d).disk d.store = d := rfl
  rw [heq, map_onStore, run_onStore (World.stores_putDisk hm d), hdisk, hrun, World.lift,
    World.putDisk_putDisk]

theorem run_requireDirectory {path : String} (h : Seat m fs) (hm : w.stores[m]? = some s)
    (hs : s.Sound) (hpath : Path.climbs path = false)
    (hdir : s.tree.IsDirectory (Key.resolve (fs.reach path))) :
    (requireDirectory fs path).run w = .ok () w := by
  obtain ⟨mode, modified, he⟩ := hdir
  obtain ⟨i, hstat, htells⟩ := (h.sees hpath).stat_of_some hm hs he
  have hi := (isDirectory_iff_of_tells htells hs he).2 ⟨mode, modified, he⟩
  exact (run_bind_ok (run_call_ok hstat)).trans (run_require hi w)

theorem exists_run_requireContent {path text : String} {mode modified : Nat} (h : Seat m fs)
    (hm : w.stores[m]? = some s) (hs : s.Sound)
    (hget : s.tree.get? (Key.resolve (fs.reach path)) =
      some (.file (ascii text) mode modified)) :
    ∃ v, (requireContent fs path text).run w = .ok () v := by
  have hopen : OpenOutcome (w.disk s) _ (fs.reach path) .reading 0 _ := .kept hget rfl rfl
  have hread := run_readContent_plain hm (hopen.run hs) (getElem?_addHandle (w.disk s) _)
  rw [← h.readContent_eq] at hread
  exact ⟨_, (run_bind_ok (run_call_ok hread)).trans (run_require (decide_eq_true rfl) _)⟩

/-- The candidates are where the names of the handles lead. -/
theorem resolve_reach_candidate {directory lead : String} (h : Seat m fs)
    (hdir : Path.climbs directory = false) (hlead : '/' ∉ lead.toList) (number : Int) :
    Key.resolve (fs.reach (candidate directory lead number)) =
      Key.resolve (candidate (fs.reach directory) lead number) := by
  have hclimbs : Path.climbs (candidate directory lead number) = false :=
    Path.climbs_join_name hdir (Path.isName_append_number hlead number)
  rw [h.resolve_reach hclimbs, resolve_candidate hlead, resolve_candidate hlead,
    h.resolve_reach hdir, List.append_assoc]

theorem sound_of_use (hs : d.store.Sound) (hid : d.store.handles[id]? = some g) (c : HandleCall) :
    ((d.committed g c).setHandle id (g.use c).2).store.Sound := by
  have hsound := use_sound hs id c
  rwa [after_use hid] at hsound

/-- A call on a handle leaves the others. -/
theorem getElem?_of_use {j : Nat} {g' : Handle} (hne : j ≠ id) (c : HandleCall)
    (hj : d.store.handles[j]? = some g') :
    ((d.committed g c).setHandle id (g.use c).2).store.handles[j]? = some g' := by
  rw [Disk.setHandle_handles, List.getElem?_set_ne hne.symm, Disk.committed_handles, hj]

/-- What has been written through a handle is in its file once the handle is closed. -/
theorem exists_run_withFile_write {data : Bytes} {n : Nat} {k : Key} {g' : Handle}
    (hm : w.stores[m]? = some s) (hf : f.inmost = .memory m id name) (hs : d.store.Sound)
    (hid : d.store.handles[id]? = some g) (huse : g.use (.write data) = (.ok (.number n), g'))
    (hk : g'.key = some k) (ho : g'.closed = false) (hdirty : g'.dirty = true) :
    ∃ e mode, (withFile f do discard <| call (f.write data)).run (w.putDisk m d) =
        .ok () (w.putDisk m e) ∧ e.store.Sound ∧
      e.store.tree.get? k = some (.file g'.buffer.content mode d.clock) := by
  have hok : (g.use (.write data)).1 = .ok (.number n) := by rw [huse]
  have hwrite := run_write hm hf hid hok
  have hsound := sound_of_use hs hid (.write data)
  rw [huse] at hwrite
  rw [huse, Disk.committed_of_not_commits rfl] at hsound
  have hid' := getElem?_setHandle hid g'
  have hclose := run_close hm hf hid' ho
  have hcommits : g'.commits .close = true := by simp [Handle.commits, ho, hdirty]
  have hget := Disk.get?_putFile (d.setHandle id g') k k g'.buffer.content
    (modeAt (d.setHandle id g').store k)
  rw [if_pos rfl] at hget
  refine ⟨_, modeAt d.store k, run_withFile hwrite hclose, sound_of_use hsound hid' .close, ?_⟩
  rw [Disk.setHandle_tree, Disk.committed, hk]
  simp only [hcommits, if_true]
  exact hget

end

theorem use_write_temporary (directory lead : String) (number : Int) :
    (tempHandle directory lead number).use (.write (ascii "temporary")) =
      (.ok (.number 9), { tempHandle directory lead number with
        buffer := ⟨ascii "temporary", 9⟩, dirty := true }) := rfl

/-- A scenario passes on filesystems in memory and views of them, in stores just made. -/
def Scenario.PassesOnNew (s : Scenario) : Prop :=
  ∀ (m : Nat) (fs : FileSystem) (w : World) (now : Nat), Seat m fs →
    w.stores[m]? = some (.empty now) → ∃ v, (s.run fs).run w = .ok () v

theorem passesOnNew_tempFiles : ∀ s ∈ tempFileScenarios, s.PassesOnNew := by
  have hlead : '/' ∉ "bar".toList := by decide
  have hname := Path.isName_append_number hlead
  suffices hpass : ∀ s ∈ tempFileScenarios, ∀ (m : Nat) (fs : FileSystem) (w : World) (s' : Store)
      (d : Disk), Seat m fs → w.stores[m]? = some s' → d.store.Sound → (∀ k, d.store.Admits k) →
      ∃ v, (s.run fs).run (w.putDisk m d) = .ok () v by
    intro s hs m fs w now h hm
    have hrun := hpass s hs m fs w _ (w.disk (.empty now)) h hm (Store.sound_empty now)
      (Store.admits_empty now)
    rwa [World.putDisk_disk hm] at hrun
  simp only [tempFileScenarios, List.forall_mem_cons]
  refine ⟨fun m fs w s' d h hm hs hadmits => ?temp_file,
    fun m fs w s' d h hm hs hadmits => ?temp_file_with_path,
    fun m fs w s' d h hm hs hadmits => ?temp_file_write_and_reopen,
    fun m fs w s' d h hm hs hadmits => ?temp_file_unique, List.forall_mem_nil _⟩
  case temp_file =>
    obtain ⟨f, number, supply, name, hcreate, hfname, hinmost, -⟩ :=
      exists_run_createTemp h hm hs (hadmits (Key.resolve (fs.reach ""))) hlead
    have hbegins : beginsWith "bar" (Path.baseName f.name) = true := by
      rw [hfname, candidate, Path.join_empty_name (hname number), Path.baseName_name (hname number)]
      exact beginsWith_of_toList String.toList_append
    have hid := Disk.getElem?_withTemp d (fs.reach "") "bar" number supply
    have hclose := run_close hm hinmost hid rfl
    exact ⟨_, (run_bind_ok hcreate).trans ((run_bind_ok (run_require hbegins _)).trans hclose)⟩
  case temp_file_with_path =>
    obtain ⟨f, number, supply, name, hcreate, hfname, hinmost, -, hsound⟩ :=
      exists_run_createTemp h hm hs (hadmits (Key.resolve (fs.reach "foo"))) hlead
    have hfoo : Path.IsName "foo" := ⟨by decide, by decide, by decide, by decide⟩
    have hbegins : beginsWith (fs.join ["foo", "bar"]) f.name = true := by
      have hjoin : fs.join ["foo", "bar"] = "foo/bar" := (h.join_eq _).trans (by decide)
      rw [hjoin, hfname, candidate]
      apply beginsWith_of_toList
      rw [Path.toList_join_names hfoo (hname number), String.toList_append, ← List.cons_append,
        ← List.append_assoc]
      rfl
    have hid := Disk.getElem?_withTemp d (fs.reach "foo") "bar" number supply
    have hclose := run_close hm hinmost hid rfl
    have hdir := isDirectory_withTemp hs (hadmits (Key.resolve (fs.reach "foo"))).free hlead number
      supply
    have hsound' := sound_of_use hsound hid .close
    rw [Disk.committed_of_not_commits rfl] at hclose hsound'
    have hfooClimbs : Path.climbs "foo" = false := by decide
    have hrequire := run_requireDirectory h (World.stores_putDisk hm _) hsound' hfooClimbs
      (by rwa [Disk.setHandle_tree])
    exact ⟨_, (run_bind_ok hcreate).trans ((run_bind_ok (run_require hbegins _)).trans
      ((run_bind_ok hclose).trans hrequire))⟩
  case temp_file_write_and_reopen =>
    obtain ⟨f, number, supply, name, hcreate, hfname, hinmost, -, hsound⟩ :=
      exists_run_createTemp h hm hs (hadmits (Key.resolve (fs.reach "foo"))) hlead
    have hid := Disk.getElem?_withTemp d (fs.reach "foo") "bar" number supply
    obtain ⟨e, mode, hwrite, he, hget⟩ :=
      exists_run_withFile_write hm hinmost hsound hid (use_write_temporary ..) rfl rfl rfl
    rw [← resolve_reach_candidate h (by decide) hlead, ← hfname] at hget
    obtain ⟨v, hread⟩ := exists_run_requireContent h (World.stores_putDisk hm e) he hget
    exact ⟨v, (run_bind_ok hcreate).trans ((run_bind_ok hwrite).trans hread)⟩
  case temp_file_unique =>
    obtain ⟨f, number, supply, name, hcreate, hfname, hinmost, -, hsound⟩ :=
      exists_run_createTemp h hm hs (hadmits (Key.resolve (fs.reach ""))) hlead
    have hadmits' := (hadmits (Key.resolve (fs.reach ""))).withTemp hs hlead number supply
    obtain ⟨g, number', supply', name', hcreate', hgname, hinmost', hnone, -⟩ :=
      exists_run_createTemp h hm hsound hadmits' hlead
    have hnames : f.name ≠ g.name := by
      intro heq
      rw [hfname, hgname] at heq
      rw [← resolve_reach_candidate h (by decide) hlead, ← heq,
        resolve_reach_candidate h (by decide) hlead, Disk.get?_withTemp, if_pos rfl] at hnone
      cases hnone
    have hid := Disk.getElem?_withTemp_of_some _ (fs.reach "") "bar" number' supply'
      (Disk.getElem?_withTemp d (fs.reach "") "bar" number supply)
    have hid' := Disk.getElem?_withTemp (d.withTemp (fs.reach "") "bar" number supply)
      (fs.reach "") "bar" number' supply'
    have hclose := run_close hm hinmost hid rfl
    have hne : (d.withTemp (fs.reach "") "bar" number supply).store.handles.length ≠
        d.store.handles.length := by simp
    have hafter := getElem?_of_use (g := tempHandle (fs.reach "") "bar" number) hne .close hid'
    have hclose' := run_close hm hinmost' hafter rfl
    have hrequire := run_require (decide_eq_true hnames)
    exact ⟨_, (run_bind_ok hcreate).trans ((run_bind_ok hcreate').trans
      ((run_bind_ok (hrequire _)).trans ((run_bind_ok hclose).trans hclose')))⟩

end Conformance

end RootedFS
