import RootedFS.Proofs.Memory.Listing
import RootedFS.Proofs.Path.Strip
import RootedFS.Proofs.Session

/-!
# What a view lists

A view of a filesystem in memory lists a directory with one entry for each child, in the order of
the underlying listing. It takes its own path of the directory off the names that are told to it,
and so it can stand before a filesystem that tells bare names as well as before one that tells
names with the path of the listing in front. Either way the names of the children are left, and they
lead to what was listed, with one exception: a bare name that is all of the text of the directory's
path is taken off whole.

## Main definitions

* `Variant.tell`: the metadata as a listing of a filesystem in memory tells it
* `Variant.swallows`: whether a view loses the name of a child
* `FileSystem.Leads`: the name of an entry leads to what was listed

## Main results

* `FileSystem.list_view`: the names that a view lists, and where they lead
* `FileSystem.list_view_swallowed`: a child whose name is lost
-/

namespace RootedFS

open Memory World

variable {w : World} {m : Nat} {s : Store} {v : Variant} {path name : String}

/-! ## Listings of filesystems in memory -/

/-- The metadata of an entry as the listing of a path tells it. -/
def Variant.tell {σ : Type} (v : Variant) (path : String) (i : FileInfo σ) : FileInfo σ :=
  if v = .fullNames then { i with name := Path.join [path, i.name] } else i

section

variable (hm : w.stores[m]? = some s) (hs : s.Sound) (hv : v = .plain ∨ v = .fullNames)
include hm hs hv

/-- The metadata of what is found at a path. -/
theorem run_stat {e : Entry} (h : s.tree.get? (Key.resolve path) = some e) :
    ((FileSystem.memory m v).stat path).run w = .ok (.plain (e.info (Key.resolve path))) w := by
  have hstat : (FileSystem.memory m v).stat path =
      onStore m (EntryInfo.plain <$> Memory.stat path) := by
    rcases hv with rfl | rfl <;> simp [FileSystem.stat, Variant.stat, map_onStore]
  have houtcome : StatOutcome (σ := Host.Status) (w.disk s) (Key.resolve path) path _ := .present h
  rw [hstat, run_onStore hm, houtcome.run hs, World.lift, World.putDisk_disk hm]

/-- The listing of a directory. -/
theorem run_list (h : s.tree.IsDirectory (Key.resolve path)) :
    ((FileSystem.memory m v).list path).run w =
      .ok ((infos s.tree (Key.resolve path) (s.children (Key.resolve path))).map
        fun i => .plain (v.tell path i)) w := by
  have hlist : (FileSystem.memory m v).list path =
      onStore m ((fun l => l.map fun i => EntryInfo.plain (v.tell path i)) <$>
        Memory.list path) := by
    rcases hv with rfl | rfl <;>
      simp [FileSystem.list, Variant.list, map_onStore, Variant.tell, Function.comp_def]
  have houtcome : ListOutcome (σ := Host.Status) (w.disk s) (Key.resolve path) path _ :=
    .directory h
  rw [hlist, run_onStore hm, houtcome.run hs, World.lift, World.putDisk_disk hm]
  rfl

end

/-! ## Listings of views -/

/-- Whether a view that reaches a directory at a path loses the name of one of its children: a bare
name that is all of the path. -/
def Variant.swallows (v : Variant) (full name : String) : Prop :=
  v = .plain ∧ name = full

instance (v : Variant) (full name : String) : Decidable (v.swallows full name) :=
  inferInstanceAs (Decidable (_ ∧ _))

/-- The metadata are those of an entry. -/
def EntryInfo.Tells {σ : Type} (i : EntryInfo σ) (e : Entry) : Prop :=
  i.mode = (e.mode : Int) ∧ i.size = (e.size : Int)

/-- The name of an entry in a listing, joined to the path of the listing, leads to an entry with the
same mode and size. -/
def FileSystem.Leads (fs : FileSystem) (w : World) (path : String)
    (i : EntryInfo Host.Status) : Prop :=
  ∃ j, (fs.stat (fs.join [path, i.name])).run w = .ok j w ∧ j.mode = i.mode ∧ j.size = i.size

/-- What a view leaves of a name that is told to it. -/
theorem stripLead_tell {σ : Type} (hv : v = .plain ∨ v = .fullNames) {full : String}
    (hfull : full = "" ∨ Path.clean full = full) {i : FileInfo σ} (hname : Path.IsName i.name) :
    Path.stripLead (v.tell full i).name full = if v.swallows full i.name then "" else i.name := by
  rcases hv with rfl | rfl
  · simpa [Variant.tell, Variant.swallows] using Path.stripLead_of_no_slash hname.no_slash full
  · simpa [Variant.tell, Variant.swallows] using Path.stripLead_join_name hfull hname

section

variable (hm : w.stores[m]? = some s) (hs : s.Sound) (hv : v = .plain ∨ v = .fullNames)
  (base : String)
include hm hs hv

/-- The listing of a directory through a view. -/
theorem run_list_view (h : s.tree.IsDirectory (Key.resolve (Path.join [base, path]))) :
    ((FileSystem.view (.memory m v) base).list path).run w =
      .ok ((infos s.tree (Key.resolve (Path.join [base, path]))
          (s.children (Key.resolve (Path.join [base, path])))).map fun i =>
        .renamed (if v.swallows (Path.join [base, path]) i.name then "" else i.name)
          (.plain (v.tell (Path.join [base, path]) i))) w := by
  have htranslate : (FileSystem.memory m v).translate base path = Path.join [base, path] := by
    rcases hv with rfl | rfl <;> rfl
  rw [FileSystem.list, htranslate, run_bind_ok (run_list hm hs hv h), EStateM.run_pure,
    List.map_map]
  refine congrArg (EStateM.Result.ok · w) (List.map_congr_left fun i hi => ?_)
  obtain ⟨a, -, hmap⟩ := List.mem_filterMap.1 hi
  obtain ⟨e, hget, rfl⟩ := Option.map_eq_some_iff.1 hmap
  have hname : Path.IsName
      (e.info (σ := Host.Status) (Key.resolve (Path.join [base, path]) ++ [a])).name := by
    have ha := hs.tree.names _ (Option.isSome_of_eq_some hget) a (by simp)
    simpa [Entry.info, Key.name] using ha
  have hstrip := stripLead_tell hv (Path.clean_join [base, path]) hname
  exact congrArg (EntryInfo.renamed · _) hstrip

/-- The names of a listing through a view. -/
theorem exists_list_view (h : s.tree.IsDirectory (Key.resolve (Path.join [base, path]))) :
    ∃ l, ((FileSystem.view (.memory m v) base).list path).run w = .ok l w ∧
      l.map EntryInfo.name = (s.children (Key.resolve (Path.join [base, path]))).map fun a =>
        if v.swallows (Path.join [base, path]) a then "" else a := by
  refine ⟨_, run_list_view hm hs hv base h, ?_⟩
  have hnames := names_infos (σ := Host.Status) fun a ha =>
    isSome_of_mem_children (k := Key.resolve (Path.join [base, path])) hs ha
  conv_rhs => rw [← hnames]
  simp [EntryInfo.name]

/-- The name of an entry leads to it through the view. -/
theorem leads_of_get? {e : Entry} (hp : Path.climbs path = false) (hname : Path.IsName name)
    (h : s.tree.get? (Key.resolve (Path.join [base, path]) ++ [name]) = some e)
    {i : EntryInfo Host.Status} (hi : i.name = name) (htells : i.Tells e) :
    (FileSystem.view (.memory m v) base).Leads w path i := by
  have hjoin : (FileSystem.view (.memory m v) base).join [path, i.name] =
      Path.join [path, name] := by
    rw [hi]
    rcases hv with rfl | rfl <;> rfl
  have htranslate : ∀ p, (FileSystem.memory m v).translate base p = Path.join [base, p] := by
    rcases hv with rfl | rfl <;> exact fun _ => rfl
  have hkey : Key.resolve (Path.join [base, Path.join [path, name]]) =
      Key.resolve (Path.join [base, path]) ++ [name] := by
    rw [Path.resolve_join_of_not_climbs _ (Path.climbs_join_name hp hname),
      Path.resolve_join_name _ hname, Path.resolve_join_of_not_climbs _ hp, List.append_assoc]
  rw [← hkey] at h
  have hstat : ((FileSystem.view (.memory m v) base).stat (Path.join [path, name])).run w =
      .ok (.renamed (Path.baseName (Path.join [base, Path.join [path, name]]))
        (.plain (e.info (Key.resolve (Path.join [base, Path.join [path, name]]))))) w := by
    rw [FileSystem.stat, htranslate, run_bind_ok (run_stat hm hs hv h), EStateM.run_pure]
  rw [FileSystem.Leads, hjoin]
  exact ⟨_, hstat, htells.1.symm, htells.2.symm⟩

end

/-- Through a view a directory is listed with one entry for each child, in the underlying order and
with the child's mode and size. Unless its name is lost, an entry is named as the child is, and its
name leads to it. -/
theorem FileSystem.list_view (hm : w.stores[m]? = some s) (hs : Reachable s)
    (hv : v = .plain ∨ v = .fullNames) (base : String) (hp : Path.climbs path = false)
    (hdir : s.hasDirectory (Key.resolve (Path.join [base, path])) = true) :
    ∃ inner outer,
      ((FileSystem.memory m v).list (Path.join [base, path])).run w = .ok inner w ∧
      ((FileSystem.view (.memory m v) base).list path).run w = .ok outer w ∧
      outer.map EntryInfo.origin = inner.map EntryInfo.origin ∧
      List.Forall₂ (fun name i =>
          (∃ e, s.tree.get? (Key.resolve (Path.join [base, path]) ++ [name]) = some e ∧
            i.Tells e) ∧
          if v.swallows (Path.join [base, path]) name then i.name = ""
          else i.name = name ∧ (FileSystem.view (.memory m v) base).Leads w path i)
        (s.children (Key.resolve (Path.join [base, path]))) outer := by
  have hsound := hs.sound
  have htree := hsound.inStep.isDirectory_tree.2 hdir
  have hinfos := forall₂_infos (σ := Host.Status) fun a ha =>
    isSome_of_mem_children (k := Key.resolve (Path.join [base, path])) hsound ha
  refine ⟨_, _, run_list hm hsound hv htree, run_list_view hm hsound hv base htree, ?_, ?_⟩
  · simp [Function.comp_def, EntryInfo.origin]
  · refine List.forall₂_map_right_iff.2 (hinfos.imp ?_)
    rintro a _ ⟨e, hget, rfl⟩
    have ha : Path.IsName a := hsound.tree.names _ (Option.isSome_of_eq_some hget) a (by simp)
    have hname : (e.info (σ := Host.Status) (Key.resolve (Path.join [base, path]) ++ [a])).name =
        a := by simp [Entry.info, Key.name]
    have htells : ∀ n, (EntryInfo.renamed n (.plain (v.tell (Path.join [base, path])
        (e.info (σ := Host.Status) (Key.resolve (Path.join [base, path]) ++ [a]))))).Tells e := by
      intro n
      rcases hv with rfl | rfl <;> exact ⟨rfl, rfl⟩
    refine ⟨⟨e, hget, htells _⟩, ?_⟩
    rw [hname]
    split
    · rfl
    · exact ⟨rfl, leads_of_get? hm hsound hv base hp ha hget rfl (htells a)⟩

/-- The names that a view lists below the relative base `a`, where it is told them with the path of
the listing in front. -/
theorem FileSystem.list_view_full :
    let s := (Memory.after (Event.call (.create "a/a")).run ⟨.empty 0, 0, {}⟩).store
    let w : World := { stores := [s], host := { tree := ⟨[]⟩ } }
    (Path.climbs "." = false ∧
        s.hasDirectory (Key.resolve (Path.join ["a", "."])) = true) ∧
      ∃ inner outer,
        ((FileSystem.memory 0 .fullNames).list (Path.join ["a", "."])).run w = .ok inner w ∧
        ((FileSystem.view (.memory 0 .fullNames) "a").list ".").run w = .ok outer w ∧
        outer.map EntryInfo.origin = inner.map EntryInfo.origin ∧
        List.Forall₂ (fun name i =>
            (∃ e, s.tree.get? (Key.resolve (Path.join ["a", "."]) ++ [name]) = some e ∧
              i.Tells e) ∧
            if Variant.fullNames.swallows (Path.join ["a", "."]) name then i.name = ""
            else i.name = name ∧ (FileSystem.view (.memory 0 .fullNames) "a").Leads w "." i)
          (s.children (Key.resolve (Path.join ["a", "."]))) outer := by
  intro s w
  have hm : w.stores[0]? = some s := rfl
  have hs : Reachable s := .step (.new 0) 0 {} _
  have hp : Path.climbs "." = false := by decide
  have hdir : s.hasDirectory (Key.resolve (Path.join ["a", "."])) = true := by decide
  exact ⟨⟨hp, hdir⟩, list_view hm hs (.inr rfl) "a" hp hdir⟩

/-- Below the relative base `a` the entry for a child `a` has no name. -/
theorem FileSystem.list_view_swallowed :
    let s := (Memory.after (Event.call (.create "a/a")).run ⟨.empty 0, 0, {}⟩).store
    let w : World := { stores := [s], host := { tree := ⟨[]⟩ } }
    Reachable s ∧ Path.climbs "" = false ∧
      s.hasDirectory (Key.resolve (Path.join ["a", ""])) = true ∧
      ¬∃ l, ((FileSystem.view (.memory 0 .plain) "a").list "").run w = .ok l w ∧
        l.map EntryInfo.name = s.children (Key.resolve (Path.join ["a", ""])) := by
  intro s w
  have hm : w.stores[0]? = some s := rfl
  have hs : Reachable s := .step (.new 0) 0 {} _
  have hdir : s.hasDirectory (Key.resolve (Path.join ["a", ""])) = true := by decide
  have hchildren : s.children (Key.resolve (Path.join ["a", ""])) = ["a"] := by decide
  refine ⟨hs, by decide, hdir, ?_⟩
  rintro ⟨l, hrun, hnames⟩
  obtain ⟨l', hrun', hnames'⟩ :=
    exists_list_view hm hs.sound (.inl rfl) "a" (hs.sound.inStep.isDirectory_tree.2 hdir)
  rw [hrun] at hrun'
  cases hrun'
  rw [hnames, hchildren] at hnames'
  exact absurd hnames' (by decide)

end RootedFS
