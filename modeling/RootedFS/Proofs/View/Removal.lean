import RootedFS.FileSystem.Content
import RootedFS.Proofs.Memory.Prune
import RootedFS.Proofs.View.Listing

/-!
# Removing trees, directly and through views

Removing what is at a path of a filesystem in memory leaves the store without the entries at and
below the path's key, and nothing else changes. It makes as many levels of calls as the tree has
levels, and there are fewer of these than entries. Through a view the same is done to the path that
the view translates to, but for notices that there are no symbolic links.

A view gives the names by which the removal goes down. When it loses one, the name leads back to
the directory, and however many levels of calls there may be, they are used up.

## Main definitions

* `World.hushed`, `World.hush`: worlds and results without their notices
* `World.Becomes`: a world with another store, notices aside
* `FileSystem.Sees`: a filesystem in memory or a view of it, with a path and the path it stands for
* `FileSystem.Prunes`: removing prunes the store if no entry lies below the levels of calls
* `World.removal`: what removing the tree at a path comes to

## Main results

* `FileSystem.prunes`: by induction on the levels, with one level in `FileSystem.Prunes.succ`
* `FileSystem.Sees.removeLevels`: what removing comes to, if the levels are enough
* `FileSystem.removeTree_view`: removing through a view does what it does directly
* `FileSystem.removeLevels_swallowed`: where a name is lost, removing has no end
-/

namespace RootedFS

open Memory World Tree

/-! ## Worlds without their notices -/

namespace World

variable {w w' w'' : World} {m : Nat} {s s' : Store} {α : Type}

/-- The world without its notices. -/
def hushed (w : World) : World :=
  { w with notices := [] }

/-- A result without the notices of its world. -/
def hush : EStateM.Result Fault World α → EStateM.Result Fault World α
  | .ok a w => .ok a w.hushed
  | .error f w => .error f w.hushed

theorem exists_ok_of_hush {r : EStateM.Result Fault World α} {a : α}
    (h : hush r = hush (.ok a w)) : ∃ w', r = .ok a w' := by
  cases r with
  | ok b w' => exact ⟨w', congrArg (EStateM.Result.ok · w') (EStateM.Result.ok.inj h).1⟩
  | error f w' => cases h

/-- Notices aside, `w'` is `w` with the store `s` under the number `m`. -/
def Becomes (w : World) (m : Nat) (s : Store) (w' : World) : Prop :=
  w'.hushed = (w.putDisk m (w.disk s)).hushed

theorem Becomes.of_hushed (hm : w.stores[m]? = some s) (h : w'.hushed = w.hushed) :
    w.Becomes m s w' := by
  rw [Becomes, putDisk_disk hm, h]

theorem Becomes.stores (hm : w.stores[m]? = some s) (h : w.Becomes m s' w') :
    w'.stores[m]? = some s' := by
  have hstores : w'.stores = (w.putDisk m (w.disk s')).stores := congrArg (·.stores) h
  rw [hstores, stores_putDisk hm]
  rfl

theorem Becomes.trans (h : w.Becomes m s w') (h' : w'.Becomes m s' w'') : w.Becomes m s' w'' := by
  have hputs : ∀ v : World, (v.putDisk m (v.disk s')).hushed =
      v.hushed.putDisk m (v.hushed.disk s') := fun _ => rfl
  rw [Becomes, h', hputs, h, hputs]
  simp [putDisk, disk, hushed]

/-- No summand is above a sum. -/
theorem le_foldl_size (l : List Store) (n : Nat) :
    n ≤ l.foldl (fun n s => n + s.size) n ∧
      ∀ s ∈ l, s.size ≤ l.foldl (fun n s => n + s.size) n := by
  induction l generalizing n with
  | nil => simp
  | cons a l ih =>
    obtain ⟨hle, hmem⟩ := ih (n + a.size)
    rw [List.foldl_cons, List.forall_mem_cons]
    exact ⟨by omega, by omega, hmem⟩

/-- One filesystem has no more entries than all. -/
theorem size_le_size (hm : w.stores[m]? = some s) : s.size ≤ w.size :=
  (le_foldl_size w.stores _).2 s (List.mem_of_getElem? hm)

/-- The host has no more entries than all filesystems. -/
theorem size_host_le_size (w : World) : w.host.tree.size ≤ w.size :=
  (le_foldl_size w.stores _).1

/-- What removing the tree at a path comes to: what is at the path goes with all that is below it.
Nothing at the path is a failure only if a file stands in the way. -/
def removal (w : World) (m : Nat) (s : Store) (full : String) : EStateM.Result Fault World Unit :=
  let k := Key.resolve full
  if (s.tree.get? k).isSome then .ok () (w.putDisk m (w.disk (s.prune k)))
  else if s.missing k = .missing then .ok () w
  else .error (.onPath (s.missing k) full) w

theorem hush_removal_ne_endless (w : World) (m : Nat) (s : Store) (full : String) (w' : World) :
    hush (w.removal m s full) ≠ .error .endless w' := by
  unfold removal
  dsimp only
  split
  · simp [hush]
  · split <;> simp [hush, Fault.onPath]

end World

/-! ## One level of removing -/

namespace FileSystem

variable {fs : FileSystem} {n m : Nat} {path full : String} {w w' w'' : World} {s : Store}
  {f : Fault}

/-- The first question of removing: whether there is something. -/
def find? (fs : FileSystem) (path : String) : WorldM (Option (EntryInfo Host.Status)) :=
  tryCatch (some <$> fs.stat path) fun f => if f.kind = .missing then return none else throw f

theorem run_find?_ok {i : EntryInfo Host.Status} (hstat : (fs.stat path).run w = .ok i w) :
    (fs.find? path).run w = .ok (some i) w := by
  rw [find?, run_tryCatch, map_eq_pure_bind, run_bind_ok hstat]
  rfl

theorem run_find?_error (hstat : (fs.stat path).run w = .error f w) :
    (fs.find? path).run w = if f.kind = .missing then .ok none w else .error f w := by
  rw [find?, run_tryCatch, map_eq_pure_bind, run_bind_error hstat]
  dsimp only
  split <;> rfl

/-- Nothing at the path is no failure. -/
theorem removeLevels_of_missing (hstat : (fs.stat path).run w = .error f w)
    (hf : f.kind = .missing) (hlink : (fs.isSymlink path).run w = .ok false w') :
    (fs.removeLevels (n + 1) path).run w = .ok () w' := by
  have hfind := run_find?_error hstat
  rw [if_pos hf] at hfind
  rw [removeLevels, ← find?, run_bind_ok hfind, run_bind_ok hlink]
  rfl

/-- Any other failure to find something is one. -/
theorem removeLevels_of_error (hstat : (fs.stat path).run w = .error f w)
    (hf : f.kind ≠ .missing) : (fs.removeLevels (n + 1) path).run w = .error f w := by
  have hfind := run_find?_error hstat
  rw [if_neg hf] at hfind
  rw [removeLevels, ← find?, run_bind_error hfind]

theorem removeLevels_of_file {i : EntryInfo Host.Status} (hstat : (fs.stat path).run w = .ok i w)
    (hi : i.isDirectory = false) :
    (fs.removeLevels (n + 1) path).run w = (fs.remove path).run w := by
  rw [removeLevels, ← find?, run_bind_ok (run_find?_ok hstat)]
  simp [hi]

/-- A directory is removed once its entries have been removed in turn. -/
theorem removeLevels_of_directory {i : EntryInfo Host.Status} {l : List (EntryInfo Host.Status)}
    (hstat : (fs.stat path).run w = .ok i w) (hi : i.isDirectory = true)
    (hlink : (fs.isSymlink path).run w = .ok false w')
    (hlist : (fs.list path).run w' = .ok l w') :
    (fs.removeLevels (n + 1) path).run w =
      (((l.map EntryInfo.name).forM fun a => fs.removeLevels n (fs.join [path, a])) >>=
        fun _ => fs.remove path).run w' := by
  rw [removeLevels, ← find?, run_bind_ok (run_find?_ok hstat)]
  simp only [hi, if_true]
  rw [run_bind_ok hlink, if_neg Bool.false_ne_true, run_bind_ok hlist, List.forM_eq_forM,
    List.forM_eq_forM, List.forM_map]

/-! ## Filesystems in memory and their views -/

/-- The metadata of an entry tell whether it is a directory. -/
theorem isDirectory_iff_of_tells {k : Key} {e : Entry} {i : EntryInfo Host.Status} (h : i.Tells e)
    (hs : s.Sound) (he : s.tree.get? k = some e) :
    i.isDirectory = true ↔ s.tree.IsDirectory k := by
  have htyped := hs.tree.typed k e he
  rw [EntryInfo.isDirectory, h.1, Mode.isDirectory, beq_iff_eq]
  cases e with
  | file content mode modified =>
    obtain ⟨perm, hperm, rfl⟩ := htyped
    refine iff_of_false ?_ (isFile_of_get? he).not_isDirectory
    simp only [Entry.mode, Mode.regular]
    omega
  | directory mode modified =>
    obtain ⟨perm, hperm, rfl⟩ := htyped
    refine iff_of_true ?_ (isDirectory_of_get? he)
    simp only [Entry.mode, Mode.directory]
    omega

/-- A path of the plain filesystem in memory with a number, or of a view of it, and the path that it
stands for. -/
inductive Sees (m : Nat) : FileSystem → String → String → Prop
  | store (path : String) : Sees m (.memory m .plain) path path
  | view (base : String) {path : String} (h : Path.climbs path = false) :
    Sees m (.view (.memory m .plain) base) path (Path.join [base, path])

namespace Sees

variable (h : Sees m fs path full)
include h

/-- The calls that removing makes, a name further down. -/
theorem join {a : String} (ha : Path.IsName a) :
    ∃ full', Sees m fs (fs.join [path, a]) full' ∧
      Key.resolve full' = Key.resolve full ++ [a] := by
  cases h with
  | store => exact ⟨_, .store _, Path.resolve_join_name _ ha⟩
  | view base hp =>
    have hjoin := Path.climbs_join_name hp ha
    refine ⟨_, .view base hjoin, ?_⟩
    rw [Path.resolve_join_of_not_climbs _ hp, List.append_assoc, ← Path.resolve_join_name _ ha,
      ← Path.resolve_join_of_not_climbs _ hjoin]
    rfl

/-- No symbolic link is seen. -/
theorem isSymlink (w : World) :
    ∃ w', (fs.isSymlink path).run w = .ok false w' ∧ w'.hushed = w.hushed := by
  cases h with
  | store => exact ⟨w, rfl, rfl⟩
  | view base hp => exact ⟨_, rfl, rfl⟩

section

variable (hm : w.stores[m]? = some s) (hs : s.Sound)
include hm

/-- The metadata are those of the store, under some name. -/
theorem run_stat : ∃ g : FileInfo Host.Status → EntryInfo Host.Status, (∀ i, (g i).origin = i) ∧
    (fs.stat path).run w = w.lift m g ((Memory.stat full).run (w.disk s)) := by
  cases h with
  | store =>
    refine ⟨.plain, fun _ => rfl, ?_⟩
    rw [← run_onStore hm]
    simp [FileSystem.stat, Variant.stat, map_onStore]
  | view base hp =>
    refine ⟨fun i => .renamed (Path.baseName (Path.join [base, path])) (.plain i),
      fun _ => rfl, ?_⟩
    rw [← run_onStore hm, ← map_onStore]
    simp [FileSystem.stat, Variant.stat, FileSystem.translate, FileSystem.join, Variant.join]

theorem run_remove :
    (fs.remove path).run w = w.lift m id ((Memory.remove full).run (w.disk s)) := by
  rw [← run_onStore hm, id_map]
  cases h <;> rfl

include hs

theorem stat_of_some {e : Entry} (he : s.tree.get? (Key.resolve full) = some e) :
    ∃ i, (fs.stat path).run w = .ok i w ∧ i.Tells e := by
  obtain ⟨g, hg, hrun⟩ := h.run_stat hm
  have houtcome : StatOutcome (σ := Host.Status) (w.disk s) (Key.resolve full) full _ := .present he
  rw [houtcome.run hs, World.lift, World.putDisk_disk hm] at hrun
  refine ⟨_, hrun, ?_, ?_⟩
  · rw [EntryInfo.mode, hg]
    rfl
  · rw [EntryInfo.size, hg]
    rfl

theorem stat_of_none (he : s.tree.get? (Key.resolve full) = none) :
    (fs.stat path).run w = .error (.onPath (s.missing (Key.resolve full)) full) w := by
  obtain ⟨g, -, hrun⟩ := h.run_stat hm
  have houtcome : StatOutcome (σ := Host.Status) (w.disk s) (Key.resolve full) full _ := .missing he
  rwa [houtcome.run hs, World.lift, World.putDisk_disk hm] at hrun

/-- The names of a listing are those of the children, unless one is lost. -/
theorem list (hdir : s.tree.IsDirectory (Key.resolve full))
    (hkeep : fs = .memory m .plain ∨ full ∉ s.children (Key.resolve full)) :
    ∃ l, (fs.list path).run w = .ok l w ∧
      l.map EntryInfo.name = s.children (Key.resolve full) := by
  cases h with
  | store =>
    refine ⟨_, run_list hm hs (.inl rfl) hdir, ?_⟩
    have hnames := names_infos (σ := Host.Status) fun a ha =>
      isSome_of_mem_children (k := Key.resolve path) hs ha
    conv_rhs => rw [← hnames]
    simp [EntryInfo.name, Variant.tell]
  | view base hp =>
    obtain ⟨l, hrun, hnames⟩ := exists_list_view hm hs (.inl rfl) base hdir
    refine ⟨l, hrun, hnames.trans ?_⟩
    have hfull := hkeep.resolve_left (by simp)
    refine (List.map_congr_left fun a ha => if_neg ?_).trans (List.map_id _)
    rintro ⟨-, rfl⟩
    exact hfull ha

/-- One level of removing at a directory: the entries that the listing names, and then the
directory itself. -/
theorem removeLevels_of_directory (n : Nat) {names : List String}
    (hdir : s.tree.IsDirectory (Key.resolve full))
    (hlist : ∀ {w}, w.stores[m]? = some s →
      ∃ l, (fs.list path).run w = .ok l w ∧ l.map EntryInfo.name = names) :
    ∃ w', w.Becomes m s w' ∧ (fs.removeLevels (n + 1) path).run w =
      ((names.forM fun a => fs.removeLevels n (fs.join [path, a])) >>= fun _ =>
        fs.remove path).run w' := by
  obtain ⟨e, he⟩ := Option.isSome_iff_exists.1 hdir.isSome
  obtain ⟨i, hstat, htells⟩ := h.stat_of_some hm hs he
  obtain ⟨w', hlink, hhush⟩ := h.isSymlink w
  have hw' : w.Becomes m s w' := .of_hushed hm hhush
  obtain ⟨l, hrun, rfl⟩ := hlist (hw'.stores hm)
  have hi := (isDirectory_iff_of_tells htells hs he).2 hdir
  exact ⟨w', hw', FileSystem.removeLevels_of_directory hstat hi hlink hrun⟩

end

end Sees

/-! ## Levels of removing -/

/-- The ends of a removal that is to leave the store `s`: with that store or, unless the levels of
calls are enough, with none of them left. -/
inductive Leaves (enough : Prop) (w : World) (m : Nat) (s : Store) :
    EStateM.Result Fault World Unit → Prop
  | done {w' : World} (h : w.Becomes m s w') : Leaves enough w m s (.ok () w')
  | endless {w' : World} (h : ¬enough) : Leaves enough w m s (.error .endless w')

theorem Leaves.after {enough enough' : Prop} {s s' : Store} {r}
    (h : Leaves enough' w' m s' r) (hw : w.Becomes m s w') (himp : enough → enough') :
    Leaves enough w m s' r := by
  cases h with
  | done h => exact .done (hw.trans h)
  | endless h => exact .endless fun henough => h (himp henough)

/-- What comes next begins with what the removals before it leave. -/
theorem Leaves.bind {enough : Prop} {s s' : Store} {x : WorldM Unit} {y : Unit → WorldM Unit}
    (hx : Leaves enough w m s (x.run w'))
    (hy : ∀ w'', w.Becomes m s w'' → Leaves enough w m s' ((y ()).run w'')) :
    Leaves enough w m s' ((x >>= y).run w') := by
  cases hr : x.run w' with
  | error f w'' =>
    rw [hr] at hx
    rw [run_bind_error hr]
    cases hx with
    | endless h => exact .endless h
  | ok u w'' =>
    rw [hr] at hx
    rw [run_bind_ok hr]
    cases hx with
    | done h => exact hy w'' h

/-- With `n` levels of calls, removing prunes the store wherever there is something and no name is
lost, if no entry lies deeper. -/
def Prunes (fs : FileSystem) (m n : Nat) : Prop :=
  ∀ {path full : String} {w : World} {s : Store}, Sees m fs path full → w.stores[m]? = some s →
    s.Sound → Key.resolve full ≠ [] → (s.tree.get? (Key.resolve full)).isSome = true →
    (fs = .memory m .plain ∨ full ∉ s.children (Key.resolve full)) →
    Leaves (∀ rest, (s.tree.get? (Key.resolve full ++ rest)).isSome = true → rest.length < n) w m
      (s.prune (Key.resolve full)) ((fs.removeLevels n path).run w)

/-- A path that leads below a directory other than the top is no name. -/
theorem not_mem_children {k j : Key} {a : String} (hs : s.Sound) (hk : k ≠ [])
    (hfull : Key.resolve full = k ++ [a]) : full ∉ s.children j := by
  intro hmem
  have hname : Path.IsName full :=
    hs.tree.names _ (isSome_of_mem_children hs hmem) full (by simp)
  have hlength := congrArg List.length (hname.resolve.symm.trans hfull)
  have hpos := List.length_pos_of_ne_nil hk
  rw [List.length_append, List.length_singleton, List.length_singleton] at hlength
  omega

/-- One after another, the children of a directory go, each with all that is below it. -/
theorem Prunes.forM (hn : Prunes fs m n) (h : Sees m fs path full)
    (hk : fs = .memory m .plain ∨ Key.resolve full ≠ []) {names : List String}
    (hm : w.stores[m]? = some s) (hs : s.Sound) (hnodup : names.Nodup)
    (hnames : ∀ a ∈ names, (s.tree.get? (Key.resolve full ++ [a])).isSome = true) :
    Leaves (∀ a ∈ names, ∀ rest,
        (s.tree.get? (Key.resolve full ++ a :: rest)).isSome = true → rest.length < n) w m
      (names.foldl (fun s a => s.prune (Key.resolve full ++ [a])) s)
      ((names.forM fun a => fs.removeLevels n (fs.join [path, a])).run w) := by
  -- by induction on the names, from any store in which these children are left
  induction names generalizing w s with
  | nil => exact .done (.of_hushed hm rfl)
  | cons a names ih =>
    have hsome := hnames a List.mem_cons_self
    have ha : Path.IsName a := hs.tree.names _ hsome a (by simp)
    obtain ⟨full', hsees, hkey⟩ := h.join ha
    have hroot : Key.resolve full' ≠ [] := by simp [hkey]
    have hfirst := hn hsees hm hs hroot (by rwa [hkey])
      (hk.imp id fun hk => not_mem_children hs hk hkey)
    rw [hkey] at hfirst
    rw [List.forM_eq_forM, List.forM_cons, ← List.forM_eq_forM]
    refine (hfirst.after (.of_hushed hm rfl) fun henough rest hrest => ?_).bind fun w' hw => ?_
    · exact henough a List.mem_cons_self rest (by simpa using hrest)
    have hkeep : ∀ b ∈ names, ∀ rest,
        (s.prune (Key.resolve full ++ [a])).tree.get? (Key.resolve full ++ b :: rest) =
          s.tree.get? (Key.resolve full ++ b :: rest) := by
      intro b hb rest
      have hne : a ≠ b := fun hab => (List.nodup_cons.1 hnodup).1 (hab ▸ hb)
      rw [Store.prune, Store.get?_tree_without, Key.within_child_of_ne hne]
      rfl
    have hafter := ih (hw.stores hm) (hs.prune (by simp)) (List.nodup_cons.1 hnodup).2
      fun b hb => by
        rw [hkeep b hb []]
        exact hnames b (List.mem_cons_of_mem a hb)
    refine hafter.after hw fun henough b hb rest hrest => ?_
    rw [hkeep b hb rest] at hrest
    exact henough b (List.mem_cons_of_mem a hb) rest hrest

/-- A level of removing adds the entry itself to what its children leave. -/
theorem Prunes.succ (hn : Prunes fs m n) : Prunes fs m (n + 1) := by
  intro path full w s h hm hs hroot hsome hkeep
  rcases isFile_or_isDirectory hsome with hfile | hdir
  · obtain ⟨e, he⟩ := Option.isSome_iff_exists.1 hsome
    obtain ⟨i, hstat, htells⟩ := h.stat_of_some hm hs he
    have hi : i.isDirectory = false := Bool.eq_false_iff.2 fun hi =>
      hfile.not_isDirectory ((isDirectory_iff_of_tells htells hs he).1 hi)
    have houtcome : RemoveOutcome (w.disk s) (Key.resolve full) full _ := .file hfile
    rw [removeLevels_of_file hstat hi, h.run_remove hm, houtcome.run hs]
    refine .done ?_
    rw [Becomes, ← hs.prune_of_isFile hfile]
    rfl
  · obtain ⟨w₁, hw₁, hrun⟩ := h.removeLevels_of_directory hm hs n hdir fun hm =>
      h.list hm hs hdir hkeep
    rw [hrun]
    have hforM := hn.forM h (.inr hroot) (hw₁.stores hm) hs (s.nodup_children _)
      fun a ha => isSome_of_mem_children hs ha
    refine (hforM.after hw₁ fun henough a _ rest hrest => ?_).bind fun w₂ hw₂ => ?_
    · have hlength := henough (a :: rest) hrest
      rw [List.length_cons] at hlength
      omega
    have hhollow : w.Becomes m (s.hollow (Key.resolve full)) w₂ := hw₂
    have houtcome : RemoveOutcome (w₂.disk (s.hollow (Key.resolve full))) (Key.resolve full)
        full _ := .directory hroot (hs.isDirectory_hollow hdir) (hs.children_hollow _)
    rw [h.run_remove (hhollow.stores hm), houtcome.run (hs.hollow _)]
    refine .done (hhollow.trans ?_)
    rw [Becomes, ← hs.prune_of_isDirectory hdir]
    rfl

/-- Removing prunes the store, however many levels there are. -/
theorem prunes (fs : FileSystem) (m n : Nat) : Prunes fs m n := by
  induction n with
  | zero =>
    intro path full w s h hm hs hroot hsome hkeep
    exact .endless fun henough => absurd (henough [] (by simpa using hsome)) (by simp)
  | succ n ih => exact ih.succ

/-! ## Whole removals -/

/-- Removing the tree at a path prunes the store, with any number of levels that is above the
number of entries. -/
theorem Sees.removeLevels (h : Sees m fs path full) (hm : w.stores[m]? = some s) (hs : s.Sound)
    (hroot : Key.resolve full ≠ [])
    (hkeep : fs = .memory m .plain ∨ full ∉ s.children (Key.resolve full)) (hn : w.size < n) :
    hush ((fs.removeLevels n path).run w) = hush (w.removal m s full) := by
  cases he : s.tree.get? (Key.resolve full) with
  | some e =>
    have hsome := Option.isSome_of_eq_some he
    have henough : ∀ rest, (s.tree.get? (Key.resolve full ++ rest)).isSome = true →
        rest.length < n := by
      intro rest hrest
      have hlength := hs.length_lt_size hrest
      have hsize := size_le_size hm
      rw [List.length_append] at hlength
      omega
    have hleaves := prunes fs m n h hm hs hroot hsome hkeep
    rw [removal, if_pos hsome]
    generalize (fs.removeLevels n path).run w = r at hleaves
    cases hleaves with
    | done hw => exact congrArg (EStateM.Result.ok ()) hw
    | endless hnot => exact absurd henough hnot
  | none =>
    obtain ⟨n, rfl⟩ := Nat.exists_eq_succ_of_ne_zero (Nat.ne_of_gt (Nat.zero_lt_of_lt hn))
    have hstat := h.stat_of_none hm hs he
    have hmissing : s.missing (Key.resolve full) = .missing ∨
        s.missing (Key.resolve full) = .notDirectory := by
      unfold Store.missing
      split <;> simp
    rw [removal, he]
    rcases hmissing with hmissing | hmissing
    · obtain ⟨w', hlink, hhush⟩ := h.isSymlink w
      rw [hmissing] at hstat
      rw [removeLevels_of_missing hstat rfl hlink, hmissing]
      exact congrArg (EStateM.Result.ok ()) hhush
    · have hkind : (Fault.onPath .notDirectory full).kind = .notDirectory := rfl
      rw [hmissing] at hstat
      rw [removeLevels_of_error hstat (by simp [hkind]), hmissing]
      rfl

/-- The number of levels that removing starts with is enough. -/
theorem Sees.removeTree (h : Sees m fs path full) (hm : w.stores[m]? = some s) (hs : s.Sound)
    (hroot : Key.resolve full ≠ [])
    (hkeep : fs = .memory m .plain ∨ full ∉ s.children (Key.resolve full)) :
    hush ((fs.removeTree path).run w) = hush (w.removal m s full) :=
  h.removeLevels hm hs hroot hkeep (Nat.lt_succ_self w.size)

/-- Removing a tree through a view comes to what removing it directly does, and comes to an end at
some level, unless the view loses a name. -/
theorem removeTree_view (hm : w.stores[m]? = some s) (hs : Reachable s) (base : String)
    (hp : Path.climbs path = false) (hroot : Key.resolve (Path.join [base, path]) ≠ [])
    (hkeep : Path.join [base, path] ∉ s.children (Key.resolve (Path.join [base, path])))
    (hn : w.size < n) :
    hush (((view (.memory m .plain) base).removeLevels n path).run w) =
        hush (((memory m .plain).removeTree (Path.join [base, path])).run w) ∧
      ∀ w', ((view (.memory m .plain) base).removeLevels n path).run w ≠ .error .endless w' := by
  have hview := (Sees.view base hp).removeLevels hm hs.sound hroot (.inr hkeep) hn
  have hstore := (Sees.store (Path.join [base, path])).removeTree hm hs.sound hroot (.inl rfl)
  refine ⟨hview.trans hstore.symm, fun w' hrun => ?_⟩
  rw [hrun] at hview
  exact w.hush_removal_ne_endless m s _ _ hview.symm

/-- Removing what is under the base's own name, below the base. -/
theorem removeTree_view_nested :
    let s := (Memory.after (Event.call (.create "a/a/a")).run ⟨.empty 0, 0, {}⟩).store
    let w : World := { stores := [s], host := { tree := ⟨[]⟩ } }
    (Path.climbs "a" = false ∧ Key.resolve (Path.join ["a", "a"]) ≠ [] ∧
        Path.join ["a", "a"] ∉ s.children (Key.resolve (Path.join ["a", "a"])) ∧ w.size < 5) ∧
      hush (((view (.memory 0 .plain) "a").removeLevels 5 "a").run w) =
          hush (((memory 0 .plain).removeTree (Path.join ["a", "a"])).run w) ∧
        ∀ w', ((view (.memory 0 .plain) "a").removeLevels 5 "a").run w ≠ .error .endless w' := by
  intro s w
  have hm : w.stores[0]? = some s := rfl
  have hs : Reachable s := .step (.new 0) 0 {} _
  have hp : Path.climbs "a" = false := by decide
  have hroot : Key.resolve (Path.join ["a", "a"]) ≠ [] := by decide
  have hkeep : Path.join ["a", "a"] ∉ s.children (Key.resolve (Path.join ["a", "a"])) := by decide
  have hn : w.size < 5 := by decide
  exact ⟨⟨hp, hroot, hkeep, hn⟩, removeTree_view hm hs "a" hp hroot hkeep hn⟩

/-! ## Lost names -/

section

variable {base : String} (hs : s.Sound)
  (hdir : s.tree.IsDirectory (Key.resolve (Path.join [base, path])))
  (hmem : Path.join [base, path] ∈ s.children (Key.resolve (Path.join [base, path])))
include hs hdir hmem

/-- Where a name is lost, the listing has an empty name after some names of children. -/
theorem exists_list_swallowed :
    ∃ before after, before.Nodup ∧
      (∀ a ∈ before, a ∈ s.children (Key.resolve (Path.join [base, path])) ∧
        a ≠ Path.join [base, path]) ∧
      ∀ {w : World}, w.stores[m]? = some s →
        ∃ l, ((view (.memory m .plain) base).list path).run w = .ok l w ∧
          l.map EntryInfo.name = before ++ "" :: after := by
  have hnodup := s.nodup_children (Key.resolve (Path.join [base, path]))
  obtain ⟨before, after, hsplit⟩ := List.append_of_mem hmem
  rw [hsplit, List.nodup_append] at hnodup
  have hfresh : ∀ a ∈ before, a ≠ Path.join [base, path] := fun a ha =>
    hnodup.2.2 a ha _ List.mem_cons_self
  let told := fun a => if Variant.plain.swallows (Path.join [base, path]) a then "" else a
  have hkept : before.map told = before :=
    (List.map_congr_left fun a ha => if_neg fun h => hfresh a ha h.2).trans (List.map_id _)
  refine ⟨before, after.map told, hnodup.1,
    fun a ha => ⟨hsplit ▸ List.mem_append_left _ ha, hfresh a ha⟩, fun hm => ?_⟩
  obtain ⟨l, hlist, hnames⟩ := exists_list_view hm hs (.inl rfl) base hdir
  rw [hsplit, List.map_append, List.map_cons, if_pos ⟨rfl, rfl⟩, hkept] at hnames
  exact ⟨l, hlist, hnames⟩

/-- The directory and the child whose name is lost are left when other children have gone. -/
theorem swallowed_foldl_prune {before : List String}
    (hbefore : ∀ a ∈ before, a ≠ Path.join [base, path]) :
    let s' := before.foldl (fun s a => s.prune (Key.resolve (Path.join [base, path]) ++ [a])) s
    s'.tree.IsDirectory (Key.resolve (Path.join [base, path])) ∧
      Path.join [base, path] ∈ s'.children (Key.resolve (Path.join [base, path])) := by
  intro s'
  have hchild := isSome_of_mem_children hs hmem
  constructor
  · refine (IsDirectory.congr (Store.get?_foldl_prune fun a _ => ?_)).2 hdir
    exact Key.not_within_of_append (List.cons_ne_nil a [])
  · refine (hs.foldl_prune _ before).inStep.mem_children.2 ⟨[], ?_⟩
    rwa [Store.get?_foldl_prune fun a ha => Key.within_child_of_ne (hbefore a ha) _ []]

end

/-- Removing a directory that has a child whose name the view loses uses up all levels. -/
theorem removeLevels_swallowed (hm : w.stores[m]? = some s) (hs : s.Sound) (base path : String)
    (hp : Path.climbs path = false)
    (hdir : s.tree.IsDirectory (Key.resolve (Path.join [base, path])))
    (hmem : Path.join [base, path] ∈ s.children (Key.resolve (Path.join [base, path]))) (n : Nat) :
    ∃ w', ((view (.memory m .plain) base).removeLevels n path).run w = .error .endless w' := by
  -- by induction on the levels, from any spelling of the path and with some children gone
  induction n generalizing path w s with
  | zero => exact ⟨w, rfl⟩
  | succ n ih =>
    have hsees := Sees.view (m := m) base hp
    obtain ⟨before, after, hnodup, hbefore, hlist⟩ := exists_list_swallowed (m := m) hs hdir hmem
    obtain ⟨w₁, hw₁, hrun⟩ := hsees.removeLevels_of_directory hm hs n hdir hlist
    have hm₁ := hw₁.stores hm
    rw [hrun, List.forM_eq_forM, List.forM_append, List.forM_cons, bind_assoc, bind_assoc,
      ← List.forM_eq_forM]
    have hname : Path.IsName (Path.join [base, path]) :=
      hs.tree.names _ (isSome_of_mem_children hs hmem) _ (by simp)
    have hroot : Key.resolve (Path.join [base, path]) ≠ [] := by simp [hname.resolve]
    have hforM := Prunes.forM (prunes _ m n) hsees (.inr hroot) hm₁ hs hnodup fun a ha =>
      isSome_of_mem_children hs (hbefore a ha).1
    cases hr : (before.forM fun a => (view (.memory m .plain) base).removeLevels n
        ((view (.memory m .plain) base).join [path, a])).run w₁ with
    | error f w₂ =>
      rw [hr] at hforM
      rw [run_bind_error hr]
      cases hforM with
      | endless => exact ⟨w₂, rfl⟩
    | ok u w₂ =>
      rw [hr] at hforM
      rw [run_bind_ok hr]
      cases hforM with
      | done hw₂ =>
        have hjoin := Path.join_join_empty base hp
        have hleft := swallowed_foldl_prune hs hdir hmem fun a ha => (hbefore a ha).2
        obtain ⟨w₃, hend⟩ := ih (hw₂.stores hm₁) (hs.foldl_prune _ before)
          (Path.join [path, ""]) (Path.climbs_join_empty hp) (by rw [hjoin]; exact hleft.1)
          (by rw [hjoin]; exact hleft.2)
        exact ⟨w₃, run_bind_error hend⟩

/-- Below the relative base `a`, a child `a` has no name; removing the base through the view then
has no end, while removing it directly has one. -/
theorem removeTree_view_swallowed :
    let s := (Memory.after (Event.call (.create "a/a")).run ⟨.empty 0, 0, {}⟩).store
    let w : World := { stores := [s], host := { tree := ⟨[]⟩ } }
    Reachable s ∧ Path.climbs "" = false ∧ Key.resolve (Path.join ["a", ""]) ≠ [] ∧
      (∀ n, ∃ w', ((view (.memory 0 .plain) "a").removeLevels n "").run w =
        .error .endless w') ∧
      ∃ w', ((memory 0 .plain).removeTree (Path.join ["a", ""])).run w = .ok () w' := by
  intro s w
  have hm : w.stores[0]? = some s := rfl
  have hs : Reachable s := .step (.new 0) 0 {} _
  have hp : Path.climbs "" = false := by decide
  have hroot : Key.resolve (Path.join ["a", ""]) ≠ [] := by decide
  have hdir : s.tree.IsDirectory (Key.resolve (Path.join ["a", ""])) :=
    hs.sound.inStep.isDirectory_tree.2 (by decide)
  have hmem : Path.join ["a", ""] ∈ s.children (Key.resolve (Path.join ["a", ""])) := by decide
  have hend := (Sees.store (Path.join ["a", ""])).removeTree hm hs.sound hroot (.inl rfl)
  rw [removal, if_pos hdir.isSome] at hend
  exact ⟨hs, hp, hroot, removeLevels_swallowed hm hs.sound "a" "" hp hdir hmem,
    exists_ok_of_hush hend⟩

end FileSystem

end RootedFS
