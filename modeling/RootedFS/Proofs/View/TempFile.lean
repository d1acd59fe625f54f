import RootedFS.Proofs.Host.Confinement
import RootedFS.Proofs.Host.TempFile
import RootedFS.Proofs.Memory.TempFile
import RootedFS.Proofs.View.Links
import RootedFS.Proofs.View.ReadBack

/-!
# Temporary files, in memory, on the host and through views

Whatever is under the views, a temporary file is made directly in its directory, and its handle is
named by the directory's path and the name of the file. Opened again, that path leads to the file,
unless it belongs to a view and begins with a slash and climbs: then the join drops the steps up
that the directory was taken by.

## Main definitions

* `Spot`: where a file is kept
* `FileSystem.Gains`: what a filesystem gains with a temporary file
* `FileSystem.Steady`: a path whose normal form a filesystem takes to the same place
* `FileSystem.MadeTemp`: what creating a temporary file comes to

## Main results

* `FileSystem.createTemp_leads_back`: a temporary file is in its directory, and its name leads back
-/

namespace RootedFS

open Memory World

/-- Where a file is kept: at a key of a store, or under a number of the host. -/
inductive Spot where
  | memory (store : Nat) (k : Key)
  | host (number : Nat)
deriving DecidableEq, Repr

/-- Where the file of a handle is kept, if it has one. -/
def File.spot? (w : World) : File → Option Spot
  | memory store handle _ => do (← (← w.stores[store]?).handles[handle]?).key.map (.memory store)
  | host stream _ => do (← w.host.streams[stream]?).file.map .host
  | recorder _ => none
  | renamed _ inner => inner.spot? w

theorem File.spot?_memory {w : World} {m id : Nat} {s : Store} {h : Handle} {k : Key}
    {name : String}
    (hm : w.stores[m]? = some s) (hid : s.handles[id]? = some h) (hk : h.key = some k) :
    (File.memory m id name).spot? w = some (.memory m k) := by
  simp [spot?, hm, hid, hk]

theorem File.spot?_host {w : World} {id n : Nat} {stream : Host.Stream} {name : String}
    (hid : w.host.streams[id]? = some stream) (hfile : stream.file = some n) :
    (File.host id name).spot? w = some (.host n) := by
  simp [spot?, hid, hfile]

namespace FileSystem

/-- What a filesystem gains with a temporary file that has a name in a directory; a view gains what
is gained under it. -/
inductive Gains (w : World) : World → FileSystem → (directory a : String) → Spot → Prop where
  | memory {m : Nat} {v : Variant} {s : Store} {d : Disk} {directory a : String}
    (hm : w.stores[m]? = some s) (hgains : s.Gains d.store (Key.resolve directory) a) :
    Gains w (w.putDisk m d) (.memory m v) directory a (.memory m (Key.resolve directory ++ [a]))
  /-- The directory's path leads to a directory, by whatever links. -/
  | host {root k : Key} {h : Host} {supply : Supply} {p : Nat} {directory a : String}
    (hdir : Host.lookup .through h.tree (Host.Rooted.route root directory) =
      .ok (k, .directory p))
    (hgains : w.host.Gains h k a) :
    Gains w { w with host := h, supply } (.host root) directory a (.host w.host.files.length)
  | view {w' : World} {u : FileSystem} {base directory a : String} {spot : Spot}
    (h : Gains w w' u (u.translate base directory) a spot) :
    Gains w w' (.view u base) directory a spot

/-- A path whose normal form a filesystem takes to the same place: for a view, one that does not
climb if it is absolute. -/
def Steady : FileSystem → String → Prop
  | view _ _, path => Path.isAbsolute path = true → Path.climbs path = false
  | _, _ => True

/-- What creating a temporary file comes to that has a name in a directory. -/
structure MadeTemp (fs : FileSystem) (w w' : World) (directory a : String) (f : File)
    (spot : Spot) : Prop where
  gains : fs.Gains w w' directory a spot
  /-- The handle is on the new file. -/
  handle : f.spot? w' = some spot
  name : f.name = Path.join [directory, a]
  /-- The name of the handle leads to the same file. -/
  again : fs.Steady directory →
    ∃ g w'', (fs.openRead f.name).run w' = .ok g w'' ∧ g.spot? w'' = some spot
  /-- Below a root that all its links lead into, everything new is in the root. -/
  inside : ∀ root, fs.ground = .host root → w.host.Sealed root → w.host.Untouched root w'.host

/-! ## In memory -/

section

variable {w w' : World} {fs u : FileSystem} {f : File} {directory lead base a : String}

/-- A file in memory is opened where it is. -/
theorem exists_run_openRead_memory {m : Nat} {s : Store} {path : String} {content : Bytes}
    {mode modified : Nat} (hm : w.stores[m]? = some s) (hs : s.Sound)
    (hget : s.tree.get? (Key.resolve path) = some (.file content mode modified)) :
    ∃ g w', ((memory m .plain).openRead path).run w = .ok g w' ∧
      g.spot? w' = some (.memory m (Key.resolve path)) := by
  have hopen : OpenOutcome (w.disk s) (Key.resolve path) path .reading 0 _ :=
    .kept hget (by decide) (by decide)
  have hrun := run_openFile_plain hm path .reading 0
  rw [hopen.run hs] at hrun
  exact ⟨_, _, hrun, File.spot?_memory (World.stores_putDisk hm _) (getElem?_addHandle _ _) rfl⟩

/-- A temporary file of a filesystem in memory. -/
theorem exists_madeTemp_memory {m : Nat} {s : Store} (hm : w.stores[m]? = some s) (hs : s.Sound)
    (hlead : '/' ∉ lead.toList)
    (hrun : ((memory m .plain).createTemp directory lead).run w = .ok f w') :
    ∃ (number : Int) (spot : Spot),
      (memory m .plain).MadeTemp w w' directory (lead ++ toString number) f spot := by
  rw [run_createTemp_plain hm] at hrun
  cases hr : (Memory.createTemp directory lead).run (w.disk s) with
  | error e d =>
    rw [hr] at hrun
    cases hrun
  | ok r d =>
    rw [hr] at hrun
    obtain ⟨number, supply, rfl, rfl, hsound, hfree, hnone⟩ :=
      exists_withTemp_of_run (d := w.disk s) hs hlead hr
    cases hrun
    have hkey : Key.resolve (candidate directory lead number) =
        Key.resolve directory ++ [lead ++ toString number] := resolve_candidate hlead number
    have hgains := gains_withTemp (d := w.disk s) hs hfree hlead hnone supply
    have hm' := World.stores_putDisk hm ((w.disk s).withTemp directory lead number supply)
    refine ⟨number, _, {
      gains := .memory hm hgains
      handle := File.spot?_memory hm' (Disk.getElem?_withTemp ..) (congrArg some hkey)
      name := rfl
      again := fun _ => ?again
      inside := fun root hground => by cases hground }⟩
    obtain ⟨modified, hget⟩ := hgains.file
    rw [← hkey] at hget ⊢
    exact exists_run_openRead_memory hm' hsound hget

/-! ## On the host -/

/-- A file of the host that the caller may read is opened where its path leads to. -/
theorem exists_run_openRead_host {root k : Key} {path : String} {n : Nat}
    (hwalk : Host.walk .through w.host.tree (Host.Rooted.route root path) =
      .ok (.entry k (.file n))) (hpermits : w.host.permits (w.host.file n) .read = true) :
    ∃ g w', ((host root).openRead path).run w = .ok g w' ∧ g.spot? w' = some (.host n) := by
  have hrun := run_openFile_host (Host.openFile_reading_of_walk hwalk hpermits)
  exact ⟨_, _, hrun, File.spot?_host List.getElem?_concat_length rfl⟩

/-- Below a root that all its links lead into, a temporary file changes nothing outside. -/
theorem untouched_createTemp {root : Key} (hsealed : w.host.Sealed root) (hlead : '/' ∉ lead.toList)
    (hrun : ((host root).createTemp directory lead).run w = .ok f w') :
    w.host.Untouched root w'.host := by
  -- a host is its own twin
  have htwins : TwinWorlds root w.host.streams.length w.host w.host w w :=
    ⟨.of_sealed hsealed hsealed (.refl root w.host), rfl⟩
  have htogether := together_createTemp_host hsealed.names directory hlead htwins
  rw [hrun] at htogether
  cases htogether with
  | ok h => exact h.1.host.untouched

/-- A number whose name is not free changes nothing. -/
theorem eq_of_run_openTemp_error {root : Key} {number : Int} {e : Fault} (hlead : '/' ∉ lead.toList)
    (hrun : (onHost (Host.Rooted.openTemp root directory lead number)).run w = .error e w') :
    w' = w := by
  rw [run_onHost] at hrun
  cases htemp : (Host.Rooted.openTemp root directory lead number).run w.host with
  | ok r h =>
    rw [htemp] at hrun
    cases hrun
  | error e' h =>
    rw [htemp] at hrun
    cases hrun
    rw [Host.openTemp_error hlead htemp]

/-- A temporary file of a directory of the host. -/
theorem exists_madeTemp_host (root : Key) (hfiled : w.host.Filed) (hlead : '/' ∉ lead.toList)
    (hrun : ((host root).createTemp directory lead).run w = .ok f w') :
    ∃ (number : Int) (spot : Spot),
      (host root).MadeTemp w w' directory (lead ++ toString number) f spot := by
  have huntouched : w.host.Sealed root → w.host.Untouched root w'.host :=
    fun hsealed => untouched_createTemp hsealed hlead hrun
  obtain ⟨⟨⟩, w₁, hmake, hrun⟩ := exists_of_run_bind hrun
  obtain ⟨h₁, hmade, rfl⟩ := run_onHost_eq_ok_iff.1 hmake
  obtain ⟨⟨id, name⟩, w₂, hsearch, hrun⟩ := exists_of_run_bind hrun
  cases hrun
  obtain ⟨number, supply, hfound⟩ :=
    exists_of_run_firstFree (fun _ _ _ _ => eq_of_run_openTemp_error hlead) hsearch
  obtain ⟨h₂, htemp, rfl⟩ := run_onHost_eq_ok_iff.1 hfound
  -- the directory is where its path leads to after whatever was missing has been made
  obtain ⟨k, p, hdir⟩ := Host.exists_lookup_of_makeDirectoriesAt hmade
  obtain ⟨hr, hnone, rfl, hwalk⟩ := Host.openTemp_ok hlead hdir htemp
  obtain ⟨rfl, rfl⟩ := Prod.mk.inj hr
  have hgrown : w.host.Grown h₁ :=
    (Host.keeps_makeBackwards (Host.lasting_grown w.host) _ _).of_run (.refl w.host) hmade
  rw [hgrown.files] at hwalk
  refine ⟨number, .host w.host.files.length, {
    gains := .host (Host.lookup_of_extends (Host.extends_insert hnone _) hdir)
      (hgrown.gains hfiled (Host.get?_of_lookup hdir) hnone)
    handle := hgrown.files ▸ File.spot?_host List.getElem?_concat_length rfl
    name := rfl
    again := fun _ => exists_run_openRead_host (k := k ++ [lead ++ toString number]) ?_ ?_
    inside := fun root' hground => by cases hground; exact huntouched }⟩
  · rw [File.name, Host.route_join_name root directory (Path.isName_append_number hlead number)]
    exact hwalk
  · rw [← hgrown.files]
    exact h₁.permits_withTemp k _ .read

/-! ## Through views -/

theorem Rests.join_eq (h : Rests w fs) : fs.join = Path.join := by
  induction h with
  | memory hm hs => rfl
  | host root hfiled => rfl
  | view h base ih => exact ih

/-- What a view hands on is steady, as it is in its normal form. -/
theorem steady_join (fs : FileSystem) (l : List String) : fs.Steady (Path.join l) := by
  cases fs with
  | memory m v => trivial
  | host root => trivial
  | view u base => exact Path.climbs_of_isAbsolute_join

/-- Through a view, a temporary file is made under it, and told from the directory that was asked
for. -/
theorem MadeTemp.view {inner : File} {spot : Spot} (hjoin : u.join = Path.join)
    (ha : Path.IsName a) (h : u.MadeTemp w w' (u.translate base directory) a inner spot) :
    (view u base).MadeTemp w w' directory a
      (.renamed (u.join [directory, Path.baseName inner.name]) inner) spot := by
  have hname : u.join [directory, Path.baseName inner.name] = Path.join [directory, a] := by
    rw [hjoin, h.name, Path.baseName_join_name _ ha]
  rw [hname]
  refine {
    gains := .view h.gains
    handle := h.handle
    name := rfl
    again := fun hsteady => ?_
    inside := h.inside }
  have hdirectory : u.translate base directory = Path.join [base, directory] := by
    rw [translate, hjoin]
  obtain ⟨g, w'', hrun, hspot⟩ := h.again (hdirectory ▸ steady_join u _)
  -- the new name is handed on as the one under the view
  have hinner : u.translate base (Path.join [directory, a]) = inner.name := by
    rw [h.name, hdirectory, translate, hjoin, Path.join_join_name base hsteady ha]
  refine ⟨.renamed (Path.join [directory, a]) g, w'', ?_, hspot⟩
  rw [← hinner] at hrun
  exact run_bind_ok hrun

/-- A temporary file that is made by a lead without slashes is in its directory under a name that
begins with the lead, whatever is under the views and whatever numbers are drawn. Its handle is
named by the path of the directory and that name, and leads back to the file, unless the path is one
of a view and begins with a slash and climbs. -/
theorem createTemp_leads_back (h : Rests w fs) (hlead : '/' ∉ lead.toList)
    (hrun : (fs.createTemp directory lead).run w = .ok f w') :
    ∃ (number : Int) (spot : Spot), Path.IsName (lead ++ toString number) ∧
      fs.MadeTemp w w' directory (lead ++ toString number) f spot := by
  -- by induction on the views: each names the file from the directory that it was asked for
  induction h generalizing directory f with
  | memory hm hs =>
    obtain ⟨number, spot, hmade⟩ := exists_madeTemp_memory hm hs.sound hlead hrun
    exact ⟨number, spot, Path.isName_append_number hlead number, hmade⟩
  | host root hfiled =>
    obtain ⟨number, spot, hmade⟩ := exists_madeTemp_host root hfiled hlead hrun
    exact ⟨number, spot, Path.isName_append_number hlead number, hmade⟩
  | @view u h base ih =>
    obtain ⟨inner, w₁, hinner, hrun⟩ := exists_of_run_bind hrun
    cases hrun
    obtain ⟨number, spot, ha, hmade⟩ := ih hinner
    exact ⟨number, spot, ha, hmade.view h.join_eq ha⟩

end

/-- A host with a link `/srv/l` to the directory `/var`, next to a new store. -/
def varWorld : World where
  supply := ⟨[7], 0⟩
  stores := [.empty 0]
  host.tree := ⟨[(["srv", "l"], .link "/var"), (["srv"], .directory 0o755),
    (["var"], .directory 0o755), ([], .directory 0o755)]⟩

theorem rests_varWorld_host (root : Key) : Rests varWorld (.host root) := by
  refine .host root fun k n hk => ?_
  simpa [varWorld] using Tree.mem_entries_of_get? hk

theorem rests_varWorld_memory : Rests varWorld (.memory 0 .plain) :=
  .memory rfl (.new 0)

/-- Through views, temporary files are made by way of a link on the host and beyond missing
directories in memory, and are opened again. -/
theorem createTemp_leads_back_linked :
    let fs : FileSystem := .view (.view (.host ["srv"]) "..") "l"
    let gs : FileSystem := .view (.view (.memory 0 .plain) "b/c") "..//d"
    Rests varWorld fs ∧ Rests varWorld gs ∧ '/' ∉ "p".toList ∧
      (∃ f w' number spot, (fs.createTemp "t" "p").run varWorld = .ok f w' ∧ f.name = "t/p7" ∧
        fs.MadeTemp varWorld w' "t" ("p" ++ toString (number : Int)) f spot ∧
        ∃ g w'', (fs.openRead f.name).run w' = .ok g w'' ∧ g.spot? w'' = some spot) ∧
      ∃ f w' number spot, (gs.createTemp "../x/." "p").run varWorld = .ok f w' ∧
        f.name = "../x/p7" ∧
        gs.MadeTemp varWorld w' "../x/." ("p" ++ toString (number : Int)) f spot ∧
        ∃ g w'', (gs.openRead f.name).run w' = .ok g w'' ∧ g.spot? w'' = some spot := by
  intro fs gs
  have hfs : Rests varWorld fs := ((rests_varWorld_host _).view _).view _
  have hgs : Rests varWorld gs := (rests_varWorld_memory.view _).view _
  have hlead : '/' ∉ "p".toList := by decide
  refine ⟨hfs, hgs, hlead, ?_, ?_⟩
  · obtain ⟨w', hrun⟩ := exists_run_of_answer (show answer (fs.createTemp "t" "p") varWorld =
      .ok (.renamed "t/p7" (.renamed "l/t/p7" (.host 0 "../l/t/p7"))) by decide +kernel)
    obtain ⟨number, spot, -, hmade⟩ := createTemp_leads_back hfs hlead hrun
    exact ⟨_, w', number, spot, hrun, rfl, hmade, hmade.again fun habs => by cases habs⟩
  · obtain ⟨w', hrun⟩ := exists_run_of_answer (show answer (gs.createTemp "../x/." "p") varWorld =
      .ok (.renamed "../x/p7" (.renamed "../x/p7" (.memory 0 0 "b/x/p7"))) by decide +kernel)
    obtain ⟨number, spot, -, hmade⟩ := createTemp_leads_back hgs hlead hrun
    exact ⟨_, w', number, spot, hrun, rfl, hmade, hmade.again fun habs => by cases habs⟩

/-- A lead that is a path of its own takes the file out of the root, and a view of `a` takes `/../x`
for the directory `x` and names the file as if it were in `a/x`; neither name leads to the file. -/
theorem createTemp_leads_back_astray :
    let fs : FileSystem := .host ["srv"]
    let gs : FileSystem := .view (.memory 0 .plain) "a"
    (Rests varWorld fs ∧
      answer (fs.createTemp "" "../x") varWorld = .ok (.host 0 "x7") ∧
      answer (fs.createTemp "" "../x" >>= fun f => fs.openRead f.name) varWorld =
        .error (.refused .missing (some "/srv/x7") none) ∧
      answer (fs.createTemp "" "../x" >>= fun f => (host []).readContent f.name) varWorld =
        .ok []) ∧
    Rests varWorld gs ∧
      answer (gs.createTemp "/../x" "p") varWorld =
        .ok (.renamed "/x/p7" (.memory 0 0 "x/p7")) ∧
      answer (gs.createTemp "/../x" "p" >>= fun f => gs.openRead f.name) varWorld =
        .error (.refused .missing (some "a/x/p7") none) := by
  intro fs gs
  exact ⟨⟨rests_varWorld_host _, by decide +kernel, by decide +kernel, by decide +kernel⟩,
    rests_varWorld_memory.view _, by decide +kernel, by decide +kernel⟩

end FileSystem

end RootedFS
