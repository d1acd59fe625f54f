import RootedFS.Proofs.View.Confinement
import RootedFS.Proofs.Path.Strip
import RootedFS.Proofs.View.Mirror

/-!
# Views behave like filesystems of their own

Whatever is done through a view of a filesystem in memory could be done on another filesystem in
memory that begins with what is at and below the base of the view: step by step the outcomes are
alike, and what is below the base stays what is in the other filesystem.

## Main definitions

* `Answer.Alike`: answers that are the same but for the times of changes
* `Step.Inside`: steps whose paths lead below the place that they are taken from
* `Session.Mirrors`: a session with a view and one with a filesystem that mirrors it

## Main results

* `Mirror.call`: a call through a view and on a store that mirrors it end alike
* `Session.Mirrors.step`: a step keeps sessions that mirror one another
* `Session.run_view_alike`: a view behaves like a filesystem of its own
-/

namespace RootedFS

open Memory Tree

/-! ## Answers that are alike -/

/-- The metadata of two entries as it is reported is the same but for the times of their last
changes, which both have or neither. -/
structure EntryInfo.Alike {σ : Type} (i i' : EntryInfo σ) : Prop where
  name : i.name = i'.name
  size : i.size = i'.size
  /-- The modes are the same, and with them the kinds. -/
  mode : i.mode = i'.mode
  dated : i.modified.isSome = i'.modified.isSome

theorem EntryInfo.alike_self {σ : Type} (i : EntryInfo σ) : i.Alike i :=
  ⟨rfl, rfl, rfl, rfl⟩

/-- Two answers are the same but for the times of last changes; handles have the same names. -/
inductive Answer.Alike : Answer File → Answer File → Prop where
  | file {f f' : File} (h : f.name = f'.name) : Alike (.file f) (.file f')
  | done : Alike .done .done
  | info {i i' : EntryInfo Host.Status} (h : i.Alike i') : Alike (.info i) (.info i')
  | listing {l l' : List (EntryInfo Host.Status)} (h : List.Forall₂ EntryInfo.Alike l l') :
    Alike (.listing l) (.listing l')
  | bytes (b : Bytes) : Alike (.bytes b) (.bytes b)
  | number (n : Int) : Alike (.number n) (.number n)

/-- An answer of two stores is told alike. -/
theorem Answer.alike_map (a : Answer (Nat × String)) (m m' : Nat) :
    (a.map (File.ofStore m)).Alike (a.map (File.ofStore m')) := by
  cases a with
  | file f => exact .file rfl
  | done => exact .done
  | info i => exact .info i.alike_self
  | listing l => exact .listing (List.forall₂_same.2 fun i _ => i.alike_self)
  | bytes b => exact .bytes b
  | number n => exact .number n

/-! ## Steps that stay inside -/

/-- The paths of a call do not name the place that they are taken from. A listing and the directory
of a temporary file may name it. -/
def Call.AvoidsTop : Call → Prop
  | .create path | .openRead path | .openFile path _ _ | .remove path | .makeDirectories path _
  | .stat path => Key.resolve path ≠ []
  | .rename path target => Key.resolve path ≠ [] ∧ Key.resolve target ≠ []
  | .createTemp _ _ | .list _ => True

instance (c : Call) : Decidable c.AvoidsTop :=
  match c with
  | .create path | .openRead path | .openFile path _ _ | .remove path | .makeDirectories path _
  | .stat path => inferInstanceAs (Decidable (Key.resolve path ≠ []))
  | .rename path target =>
    inferInstanceAs (Decidable (Key.resolve path ≠ [] ∧ Key.resolve target ≠ []))
  | .createTemp _ _ | .list _ => inferInstanceAs (Decidable True)

/-- A call whose paths lead below the place that they are taken from, or a call on a handle. -/
def Step.Inside : Step → Prop
  | .call _ c => c.Descends ∧ c.AvoidsTop
  | .dir _ _ => False
  | .use _ _ => True

instance (st : Step) : Decidable st.Inside :=
  match st with
  | .call _ c => inferInstanceAs (Decidable (c.Descends ∧ c.AvoidsTop))
  | .dir _ _ => inferInstanceAs (Decidable False)
  | .use _ _ => inferInstanceAs (Decidable True)

namespace Memory

/-! ## Calls through a view and on a store that mirrors it -/

/-- The handle of a pair as the view gives it out. -/
def Pair.viewed (m : Nat) (x : Pair) : File :=
  .renamed x.name (.memory m x.id x.inner)

/-- The handle of a pair as the filesystem of its own gives it out. -/
def Pair.plain (m : Nat) (x : Pair) : File :=
  .memory m x.id' x.name

/-- Answers are alike, and the handles in them make up pairs. -/
structure Told (m m' : Nat) (new : List Pair) (a a' : Answer File) : Prop where
  alike : a.Alike a'
  files : a.files = new.map (Pair.viewed m)
  files' : a'.files = new.map (Pair.plain m')

theorem EndAlike.mapResult {α α' β β' : Type} {R : α → α' → Disk → Disk → Prop}
    {R' : β → β' → Disk → Disk → Prop} {E : Disk → Disk → Prop} {f : α → β} {g : α' → β'} {r r'}
    (h : EndAlike R E r r') (hR : ∀ a a' e e', R a a' e e' → R' (f a) (g a') e e') :
    EndAlike R' E (mapResult f r) (mapResult g r') := by
  cases h with
  | ok h => exact .ok (hR _ _ _ _ h)
  | error hf h => exact .error hf h

theorem StatOutcome.name_of_ok {σ : Type} {d e : Disk} {k : Key} {path : String} {i : FileInfo σ}
    (h : StatOutcome d k path (.ok i e)) : i.name = k.name := by
  cases h
  rfl

/-- The names in a listing have no slashes. -/
theorem ListOutcome.no_slash {σ : Type} {d e : Disk} {k : Key} {path : String}
    {l : List (FileInfo σ)} (hs : d.store.Sound) (h : ListOutcome d k path (.ok l e)) :
    ∀ i ∈ l, '/' ∉ i.name.toList := by
  cases h with
  | directory h =>
    intro i hi
    obtain ⟨a, -, hmap⟩ := List.mem_filterMap.1 hi
    obtain ⟨entry, hget, rfl⟩ := Option.map_eq_some_iff.1 hmap
    have hname := hs.tree.names (k ++ [a]) (by rw [hget]; rfl) a (by simp)
    simpa [Entry.info, Key.name] using hname.no_slash

/-- The base name of a candidate for a temporary file is the lead with the number. -/
theorem baseName_candidate (directory : String) {lead : String} (hlead : '/' ∉ lead.toList)
    (n : Int) : Path.baseName (candidate directory lead n) = lead ++ toString n :=
  Path.baseName_join_name directory (Path.isName_append_number hlead n)

/-- A view tells the name of a temporary file from its own directory. -/
theorem join_baseName_candidate (directory reached : String) {lead : String}
    (hlead : '/' ∉ lead.toList) (n : Int) :
    Path.join [directory, Path.baseName (candidate reached lead n)] =
      candidate directory lead n := by
  rw [baseName_candidate reached hlead, candidate]

namespace Mirror

variable {base : Key} {p q : Nat} {ps : List Pair} {d d' : Disk} {b path : String}

/-- The base name of the path of an entry below a base is the name of the entry's key. -/
theorem baseName_join (hb : Path.isAbsolute b = true) (hpath : Path.climbs path = false)
    (hne : Key.resolve path ≠ []) :
    Path.baseName (Path.join [b, path]) = (Key.resolve path).name := by
  -- the join is the text of its key, which ends with the last name of the path's key
  obtain ⟨a, ha⟩ := Key.exists_eq_parent_append hne
  have hname : Path.IsName a := Path.isName_resolve path a (by rw [ha]; simp)
  rw [Path.join_eq_toString hb, Path.resolve_join_of_not_climbs b hpath, ha, ← List.append_assoc,
    Path.baseName_toString _ hname]
  simp [Key.name]

section

variable (hM : Mirror base p q ps d d')
include hM

/-- Opening a file through a view ends alike, with a new pair of handles. -/
theorem told_openFile (m m' : Nat)
    (hkey : Key.resolve (Path.join [b, path]) = base ++ Key.resolve path)
    (hne : Key.resolve path ≠ []) {flags : OpenFlags} {perm : Int} {r'}
    (h : OpenOutcome d' (Key.resolve path) path flags perm r') :
    ∃ r, OpenOutcome d (Key.resolve (Path.join [b, path])) (Path.join [b, path]) flags perm r ∧
      EndAlike (fun id id' e e' => ∃ new,
          Told m m' new (.file (.renamed path (.memory m id (Path.join [b, path]))))
            (.file (.memory m' id' path)) ∧
          Mirror base p q (ps ++ new) e e')
        (Mirror base p q ps) r r' := by
  obtain ⟨r, hr, hend⟩ := hM.openFile (Path.isName_resolve path) hne (Path.join [b, path]) h
  refine ⟨r, hkey ▸ hr, ?_⟩
  cases hend with
  | @ok id id' e e' hM' => exact .ok ⟨[⟨id, id', path, Path.join [b, path]⟩],
      ⟨.file rfl, rfl, rfl⟩, hM' path (Path.join [b, path])⟩
  | error hf hM' => exact .error hf hM'

/-- Creating a temporary file through a view ends alike: the view tells the name of the candidate
that the other filesystem has found. -/
theorem told_createTemp (m m' : Nat) {directory lead : String}
    (hkey : Key.resolve (Path.join [b, directory]) = base ++ Key.resolve directory)
    (hlead : '/' ∉ lead.toList) {r'} (h : TempOutcome d' directory lead r') :
    ∃ r, TempOutcome d (Path.join [b, directory]) lead r ∧
      EndAlike (fun a a' e e' => ∃ new,
          Told m m' new (viewed m b (.createTemp directory lead) (.file a))
            (.file (File.ofStore m' a')) ∧
          Mirror base p q (ps ++ new) e e')
        (Mirror base p q ps) r r' := by
  obtain ⟨r, hr, hend⟩ := hM.createTemp hkey hlead h
  refine ⟨r, hr, ?_⟩
  cases hend with
  | error hf hM' => exact .error hf hM'
  | @ok a a' e e' hfound =>
    obtain ⟨id, _⟩ := a
    obtain ⟨id', _⟩ := a'
    obtain ⟨n, rfl, rfl, hM'⟩ := hfound
    have hname := join_baseName_candidate directory (Path.join [b, directory]) hlead n
    have hview : viewed m b (.createTemp directory lead)
        (.file (id, candidate (Path.join [b, directory]) lead n)) =
          .file (.renamed (candidate directory lead n)
            (.memory m id (candidate (Path.join [b, directory]) lead n))) :=
      congrArg (fun name => Answer.file (File.renamed name _)) hname
    refine .ok ⟨[⟨id, id', candidate directory lead n,
      candidate (Path.join [b, directory]) lead n⟩], ?_, hM' _ _⟩
    rw [hview]
    exact ⟨.file rfl, rfl, rfl⟩

/-- Asking a view for metadata ends alike: the view tells the base name of the joined path. -/
theorem told_stat (m m' : Nat) (hb : Path.isAbsolute b = true)
    (hkey : Key.resolve (Path.join [b, path]) = base ++ Key.resolve path)
    (hc : Path.climbs path = false) (hne : Key.resolve path ≠ []) {r'}
    (h : StatOutcome d' (Key.resolve path) path r') :
    ∃ r, StatOutcome d (Key.resolve (Path.join [b, path])) (Path.join [b, path]) r ∧
      EndAlike (fun i i' e e' => ∃ new,
          Told m m' new (viewed m b (.stat path) (.info (.plain i))) (.info (.plain i')) ∧
          Mirror base p q (ps ++ new) e e')
        (Mirror base p q ps) r r' := by
  have hname := fun {i e} (heq : r' = .ok i e) => (heq ▸ h).name_of_ok
  obtain ⟨r, hr, hend⟩ := hM.stat hne (Path.join [b, path]) h
  rw [← hkey] at hr
  refine ⟨r, hr, ?_⟩
  cases hend with
  | error hf hM' => exact .error hf hM'
  | ok hinfo =>
    obtain ⟨hinfo, hM'⟩ := hinfo
    have hbase := (baseName_join hb hc hne).trans (hname rfl).symm
    refine .ok ⟨[], ⟨.info ⟨hbase, hinfo.size, hinfo.mode, hinfo.dated⟩, rfl, rfl⟩, ?_⟩
    rwa [List.append_nil]

/-- Listing through a view ends alike: names in a listing have no slashes, so that the view has no
lead to strip. -/
theorem told_list (m m' : Nat) (hb : Path.isAbsolute b = true)
    (hkey : Key.resolve (Path.join [b, path]) = base ++ Key.resolve path) {r'}
    (h : ListOutcome d' (Key.resolve path) path r') :
    ∃ r, ListOutcome d (Key.resolve (Path.join [b, path])) (Path.join [b, path]) r ∧
      EndAlike (fun l l' e e' => ∃ new,
          Told m m' new (viewed m b (.list path) (.listing (l.map .plain)))
            (.listing (l'.map .plain)) ∧
          Mirror base p q (ps ++ new) e e')
        (Mirror base p q ps) r r' := by
  obtain ⟨r, hr, hend⟩ := hM.list (Path.join [b, path]) h
  rw [← hkey] at hr
  refine ⟨r, hr, ?_⟩
  cases hend with
  | error hf hM' => exact .error hf hM'
  | @ok l l' e e' hinfos =>
    obtain ⟨hinfos, hM'⟩ := hinfos
    have hslash := hr.no_slash hM.sound
    have hfull := Path.isAbsolute_join hb [path]
    have hview : viewed m b (.list path) (.listing (l.map .plain)) =
        .listing (l.map fun i => .renamed i.name (.plain i)) := by
      refine congrArg Answer.listing ((List.map_map).trans (List.map_congr_left ?_))
      intro i hi
      exact congrArg (EntryInfo.renamed · _) (Path.stripLead_of_absolute (hslash i hi) hfull)
    refine .ok ⟨[], ⟨?_, rfl, rfl⟩, by rwa [List.append_nil]⟩
    rw [hview]
    refine .listing (List.forall₂_map_left_iff.2 (List.forall₂_map_right_iff.2 ?_))
    exact hinfos.imp fun i i' hi => ⟨hi.name, hi.size, hi.mode, hi.dated⟩

/-- A call through a view and the same call on a store that mirrors what is below its base end
alike. -/
theorem call (m m' : Nat) (hb : Path.isAbsolute b = true) (hbase : Key.resolve b = base) {c : Call}
    (hc : c.Descends) (htop : c.AvoidsTop) {r'} (h : CallOutcome d' c r') :
    ∃ r, CallOutcome d (c.translate fun path => Path.join [b, path]) r ∧
      EndAlike (fun a a' e e' => ∃ new, Told m m' new (viewed m b c a) (a'.map (File.ofStore m')) ∧
          Mirror base p q (ps ++ new) e e')
        (Mirror base p q ps) r r' := by
  have hkey : ∀ {path}, Path.climbs path = false →
      Key.resolve (Path.join [b, path]) = base ++ Key.resolve path := by
    intro path hpath
    rw [Path.resolve_join_of_not_climbs b hpath, hbase]
  have hnone : ∀ {e e'}, Mirror base p q ps e e' → Mirror base p q (ps ++ []) e e' := by
    intro e e' hM'
    rwa [List.append_nil]
  cases h with
  | create h =>
    obtain ⟨r, hr, hend⟩ := hM.told_openFile m m' (hkey hc) htop h
    exact ⟨_, .create hr, hend.mapResult fun _ _ _ _ hnew => hnew⟩
  | openRead h =>
    obtain ⟨r, hr, hend⟩ := hM.told_openFile m m' (hkey hc) htop h
    exact ⟨_, .openRead hr, hend.mapResult fun _ _ _ _ hnew => hnew⟩
  | openFile h =>
    obtain ⟨r, hr, hend⟩ := hM.told_openFile m m' (hkey hc) htop h
    exact ⟨_, .openFile hr, hend.mapResult fun _ _ _ _ hnew => hnew⟩
  | createTemp h =>
    obtain ⟨r, hr, hend⟩ := hM.told_createTemp m m' (hkey hc.1) hc.2 h
    exact ⟨_, .createTemp hr, hend.mapResult fun _ _ _ _ hnew => hnew⟩
  | @rename path target r' h =>
    obtain ⟨r, hr, hend⟩ := hM.rename htop.1 htop.2 (Path.isName_resolve target)
      (Path.join [b, path]) (Path.join [b, target]) h
    rw [← hkey hc.1, ← hkey hc.2] at hr
    exact ⟨_, .rename hr, hend.mapResult fun _ _ _ _ hM' => ⟨[], ⟨.done, rfl, rfl⟩, hnone hM'⟩⟩
  | @remove path r' h =>
    obtain ⟨r, hr, hend⟩ := hM.remove htop (Path.join [b, path]) h
    rw [← hkey hc] at hr
    exact ⟨_, .remove hr, hend.mapResult fun _ _ _ _ hM' => ⟨[], ⟨.done, rfl, rfl⟩, hnone hM'⟩⟩
  | @makeDirectories path perm r' h =>
    obtain ⟨r, hr, hend⟩ := hM.directories (Path.isName_resolve path) h
    rw [← hkey hc] at hr
    exact ⟨_, .makeDirectories hr,
      hend.mapResult fun _ _ _ _ hM' => ⟨[], ⟨.done, rfl, rfl⟩, hnone hM'⟩⟩
  | stat h =>
    obtain ⟨r, hr, hend⟩ := hM.told_stat m m' hb (hkey hc) hc htop h
    exact ⟨_, .stat hr, hend.mapResult fun _ _ _ _ hnew => hnew⟩
  | list h =>
    obtain ⟨r, hr, hend⟩ := hM.told_list m m' hb (hkey hc) h
    exact ⟨_, .list hr, hend.mapResult fun _ _ _ _ hnew => hnew⟩

end

end Mirror

end Memory

namespace Session

/-! ## Sessions with a view and with a filesystem that mirrors it -/

/-- A session has a view of a filesystem in memory, and another has a filesystem that mirrors what
is below the base of the view. The handles of the sessions were opened in pairs. -/
structure Mirrors (σ σ' : Session) (m m' : Nat) (b : String) (p q : Nat) (ps : List Pair)
    (s s' : Store) : Prop where
  store : σ.world.stores[m]? = some s
  store' : σ'.world.stores[m']? = some s'
  systems : σ.systems = [.view (.memory m .plain) b]
  systems' : σ'.systems = [.memory m' .plain]
  absolute : Path.isAbsolute b = true
  mirror : Mirror (Key.resolve b) p q ps (σ.world.disk s) (σ'.world.disk s')
  files : σ.files = ps.map (Pair.viewed m)
  files' : σ'.files = ps.map (Pair.plain m')

variable {σ σ' : Session} {m m' : Nat} {b : String} {p q : Nat} {ps : List Pair} {s s' : Store}

/-- Sessions mirror one another while their stores do, with new pairs of handles. -/
theorem Mirrors.putDisk (hσ : σ.Mirrors σ' m m' b p q ps s s') {new : List Pair} {d d' : Disk}
    {files files' : List File} (hM : Mirror (Key.resolve b) p q (ps ++ new) d d')
    (hfiles : files = new.map (Pair.viewed m)) (hfiles' : files' = new.map (Pair.plain m')) :
    (⟨σ.world.putDisk m d, σ.systems, σ.files ++ files⟩ : Session).Mirrors
      ⟨σ'.world.putDisk m' d', σ'.systems, σ'.files ++ files'⟩ m m' b p q (ps ++ new)
      d.store d'.store where
  store := World.stores_putDisk hσ.store d
  store' := World.stores_putDisk hσ.store' d'
  systems := hσ.systems
  systems' := hσ.systems'
  absolute := hσ.absolute
  mirror := hM
  files := by rw [hσ.files, hfiles, List.map_append]
  files' := by rw [hσ.files', hfiles', List.map_append]

/-- Sessions mirror one another while their stores do, with the same handles. -/
theorem Mirrors.putDisk_same (hσ : σ.Mirrors σ' m m' b p q ps s s') {d d' : Disk}
    (hM : Mirror (Key.resolve b) p q ps d d') :
    (⟨σ.world.putDisk m d, σ.systems, σ.files⟩ : Session).Mirrors
      ⟨σ'.world.putDisk m' d', σ'.systems, σ'.files⟩ m m' b p q ps d.store d'.store := by
  have hM' : Mirror (Key.resolve b) p q (ps ++ []) d d' := by rwa [List.append_nil]
  have h := hσ.putDisk hM' rfl rfl
  simpa only [List.map_nil, List.append_nil] using h

/-- A call on the one filesystem of each session ends alike, and the sessions mirror one another
again. -/
theorem Mirrors.call (hσ : σ.Mirrors σ' m m' b p q ps s s') {c : Call} (hc : c.Descends)
    (htop : c.AvoidsTop) (v : Nat) :
    Alike Answer.Alike (σ.step (.call v c)).1 (σ'.step (.call v c)).1 ∧
      ∃ ps' t t', (σ.step (.call v c)).2.Mirrors (σ'.step (.call v c)).2 m m' b p q ps' t t' := by
  rw [Session.step, Session.step, hσ.systems, hσ.systems']
  cases v with
  | succ v => exact ⟨.error ⟨rfl, rfl⟩, _, _, _, hσ⟩
  | zero =>
    have hrun := run_perform_view hσ.store b c
    have hrun' := run_perform_plain hσ.store' c
    obtain ⟨r, hr, hend⟩ := hσ.mirror.call m m' hσ.absolute rfl hc htop
      (callOutcome hσ.mirror.sound' c)
    rw [hr.run hσ.mirror.sound] at hrun
    generalize (Memory.perform c).run (σ'.world.disk s') = r' at hend hrun'
    cases hend with
    | ok h =>
      obtain ⟨new, htold, hM⟩ := h
      simp only [List.getElem?_cons_zero, hrun, hrun', World.lift]
      have hnext := hσ.putDisk hM htold.files htold.files'
      rw [hσ.systems, hσ.systems'] at hnext
      exact ⟨.ok htold.alike, _, _, _, hnext⟩
    | error hf hM =>
      simp only [List.getElem?_cons_zero, hrun, hrun', World.lift]
      have hnext := hσ.putDisk_same hM
      rw [hσ.systems, hσ.systems'] at hnext
      exact ⟨.error hf, _, _, _, hnext⟩

/-- A call on the handles of a pair ends alike, and the sessions mirror one another again. -/
theorem Mirrors.use (hσ : σ.Mirrors σ' m m' b p q ps s s') (i : Nat) (c : HandleCall) :
    Alike Answer.Alike (σ.step (.use i c)).1 (σ'.step (.use i c)).1 ∧
      ∃ ps' t t', (σ.step (.use i c)).2.Mirrors (σ'.step (.use i c)).2 m m' b p q ps' t t' := by
  rw [Session.step, Session.step, hσ.files, hσ.files', List.getElem?_map, List.getElem?_map]
  cases hx : ps[i]? with
  | none => exact ⟨.error ⟨rfl, rfl⟩, _, _, _, hσ⟩
  | some x =>
    have hrun := run_use_renamed hσ.store x.name x.inner x.id c
    have hrun' := run_use_memory hσ.store' x.id' x.name c
    have hend := hσ.mirror.use (List.mem_of_getElem? hx) c
    generalize (Memory.use x.id c).run (σ.world.disk s) = r at hend hrun
    generalize (Memory.use x.id' c).run (σ'.world.disk s') = r' at hend hrun'
    cases hend with
    | @ok a a' d d' h =>
      obtain ⟨rfl, hM⟩ := h
      simp only [Option.map_some, Pair.viewed, Pair.plain, hrun, hrun', World.lift]
      have hnext := hσ.putDisk_same hM
      rw [hσ.files, hσ.files'] at hnext
      exact ⟨.ok (a.alike_map m m'), _, _, _, hnext⟩
    | error hf hM =>
      simp only [Option.map_some, Pair.viewed, Pair.plain, hrun, hrun', World.lift]
      have hnext := hσ.putDisk_same hM
      rw [hσ.files, hσ.files'] at hnext
      exact ⟨.error hf, _, _, _, hnext⟩

/-- A step inside ends alike in both sessions, and they mirror one another again. -/
theorem Mirrors.step (hσ : σ.Mirrors σ' m m' b p q ps s s') {st : Step} (hst : st.Inside) :
    Alike Answer.Alike (σ.step st).1 (σ'.step st).1 ∧
      ∃ ps' t t', (σ.step st).2.Mirrors (σ'.step st).2 m m' b p q ps' t t' := by
  cases st with
  | call v c => exact hσ.call hst.1 hst.2 v
  | dir v path => exact hst.elim
  | use i c => exact hσ.use i c

/-- Two steps have come to the same when their outcomes are alike and what is below the base in the
one store is what is in the other. -/
structure StepAlike (m m' : Nat) (base : Key) (p q : Nat)
    (o o' : Except Fault (Answer File) × Session) : Prop where
  outcome : Alike Answer.Alike o.1 o'.1
  subtree : ∃ t t', o.2.world.stores[m]? = some t ∧ o'.2.world.stores[m']? = some t' ∧
    Subtree base p q t.tree t'.tree

/-- Runs of sessions that mirror one another come to the same step by step. -/
theorem Mirrors.run (hσ : σ.Mirrors σ' m m' b p q ps s s') {steps : List Step}
    (hsteps : ∀ st ∈ steps, st.Inside) :
    List.Forall₂ (StepAlike m m' (Key.resolve b) p q) (σ.run steps) (σ'.run steps) := by
  -- induction on the steps: what a step leaves are sessions that mirror one another again, with
  -- more pairs and other stores
  induction steps generalizing σ σ' ps s s' with
  | nil => exact .nil
  | cons st steps ih =>
    obtain ⟨hend, ps', t, t', hnext⟩ := hσ.step (hsteps st List.mem_cons_self)
    refine .cons ⟨hend, t, t', hnext.store, hnext.store', hnext.mirror.subtree⟩ ?_
    exact ih hnext fun st hst => hsteps st (List.mem_cons_of_mem _ hst)

/-- A view of a filesystem in memory behaves like a filesystem in memory of its own that begins
with what is at and below the base of the view: whatever is done inside comes to the same, step by
step. -/
theorem run_view_alike {w w' : World} (hm : w.stores[m]? = some s) (hs : Reachable s)
    (hm' : w'.stores[m']? = some s') (hs' : Reachable s') (hsupply : w.supply = w'.supply)
    (htree : Subtree (Key.resolve (Path.join ["/", b])) p q s.tree s'.tree) {steps : List Step}
    (hsteps : ∀ st ∈ steps, st.Inside) :
    List.Forall₂ (StepAlike m m' (Key.resolve (Path.join ["/", b])) p q)
      ((⟨w, [(FileSystem.memory m .plain).viewFrom b], []⟩ : Session).run steps)
      ((⟨w', [.memory m' .plain], []⟩ : Session).run steps) := by
  have hmirrors : (⟨w, [(FileSystem.memory m .plain).viewFrom b], []⟩ : Session).Mirrors
      ⟨w', [.memory m' .plain], []⟩ m m' (Path.join ["/", b]) p q [] s s' := by
    refine ⟨hm, hm', rfl, rfl, Path.isAbsolute_join rfl [b], ?_, rfl, rfl⟩
    exact ⟨hs.sound, hs'.sound, hsupply, htree, by simp, List.nodup_nil, List.nodup_nil⟩
  exact hmirrors.run hsteps

/-- A view of a directory with a file, named by a path that leads up on its way. -/
theorem run_view_alike_up :
    let s := (Memory.after (Event.call (.create "a/x")).run ⟨.empty 0, 0, {}⟩).store
    let s' := (Memory.after (Event.call (.create "x")).run ⟨.empty 0, 0, {}⟩).store
    let w : World := { stores := [s], host := { tree := ⟨[]⟩ } }
    let w' : World := { stores := [s'], host := { tree := ⟨[]⟩ } }
    let steps : List Step := [.call 0 (.openRead "//x"), .use 0 (.read none),
      .call 0 (.createTemp "." "t"), .use 1 (.write [7]), .call 0 (.rename "x" "b/../d/x"),
      .use 1 .close, .call 0 (.list "/"), .call 0 (.stat "d/x"), .call 0 (.remove "d")]
    Subtree (Key.resolve (Path.join ["/", "b/../a"])) 0o040755 0o040755 s.tree s'.tree ∧
      (∀ st ∈ steps, st.Inside) ∧
      List.Forall₂ (StepAlike 0 0 (Key.resolve (Path.join ["/", "b/../a"])) 0o040755 0o040755)
        ((⟨w, [(FileSystem.memory 0 .plain).viewFrom "b/../a"], []⟩ : Session).run steps)
        ((⟨w', [.memory 0 .plain], []⟩ : Session).run steps) := by
  intro s s' w w' steps
  have hs : Reachable s := .step (.new 0) 0 {} _
  have hs' : Reachable s' := .step (.new 0) 0 {} _
  have hsteps : ∀ st ∈ steps, st.Inside := by decide
  have hbase : Key.resolve (Path.join ["/", "b/../a"]) = ["a"] := by decide
  have ht : s.tree = ⟨[(["a", "x"], .file [] 0o100666 1), (["a"], .directory 0o040755 0),
    ([], .directory 0o040755 0)]⟩ := rfl
  have ht' : s'.tree = ⟨[(["x"], .file [] 0o100666 0), ([], .directory 0o040755 0)]⟩ := rfl
  have htree : Subtree (Key.resolve (Path.join ["/", "b/../a"])) 0o040755 0o040755 s.tree
      s'.tree := by
    rw [hbase, ht, ht']
    refine ⟨⟨0, rfl⟩, ⟨0, rfl⟩, ?_⟩
    intro k hk
    by_cases hx : k = ["x"] <;> simp [Tree.get?, lookup_cons_eq_ite, hk, hx, Entry.timeless]
  have hm : w.stores[0]? = some s := rfl
  have hm' : w'.stores[0]? = some s' := rfl
  have hsupply : w.supply = w'.supply := rfl
  exact ⟨htree, hsteps, run_view_alike hm hs hm' hs' hsupply htree hsteps⟩

end Session

end RootedFS
