import RootedFS.Proofs.View.Simulation

/-!
# Views of views

Views can be put one upon another, or a view can be asked for a view further down, which then sees
the same underlying filesystem. As long as the bases are absolute and do not climb, this makes no
difference: both lead to the same keys of the filesystem under all views, calls through both do the
same there, and the answers come out the same however many views have told them on.

## Main definitions

* `FileSystem.ground`, `FileSystem.reach`: the filesystem under all views, and the path of it that a
  path stands for
* `FileSystem.tell`: an answer of the filesystem under all views, as told by the outermost
* `FileSystem.Stack`: views put upon the filesystem in memory, with absolute bases
* `FileSystem.pile`, `FileSystem.viewAlong`: views put one upon another, and taken one from another
* `Answer.Same`, `Told`: answers that differ in nothing but how many views have told them on
* `Session.Alongside`: two sessions with views that lead to the same places
* `Session.Matches`: two sessions in which the same is done

## Main results

* `FileSystem.perform_ground`: a call through views is a call on the filesystem under them
* `Stack.reach_eq`: where a path of a stack of views leads
* `Session.pile_matches`: views put one upon another and the view that they amount to do the same
-/

namespace RootedFS

open Memory

/-! ## Through all views -/

theorem Call.translate_id (c : Call) : c.translate (fun path => path) = c := by
  cases c <;> rfl

theorem Call.translate_translate (c : Call) (f g : String → String) :
    (c.translate f).translate g = c.translate fun path => g (f path) := by
  cases c <;> rfl

/-- What paths that do not climb are translated to is all that matters to a call that descends. -/
theorem Call.Descends.translate_congr {c : Call} {f g : String → String} (hc : c.Descends)
    (h : ∀ path, Path.climbs path = false → f path = g path) : c.translate f = c.translate g := by
  cases c with
  | createTemp directory lead => exact congrArg (Call.createTemp · lead) (h _ hc.1)
  | rename path target => exact congrArg₂ Call.rename (h _ hc.1) (h _ hc.2)
  | openFile path flags perm => exact congrArg (Call.openFile · flags perm) (h _ hc)
  | makeDirectories path perm => exact congrArg (Call.makeDirectories · perm) (h _ hc)
  | create path => exact congrArg Call.create (h _ hc)
  | openRead path => exact congrArg Call.openRead (h _ hc)
  | remove path => exact congrArg Call.remove (h _ hc)
  | stat path => exact congrArg Call.stat (h _ hc)
  | list path => exact congrArg Call.list (h _ hc)

/-- Calls that descend from an absolute base descend. -/
theorem Call.Descends.translate {c : Call} {base : String} (hb : Path.isAbsolute base = true)
    (hc : c.Descends) : (c.translate fun path => Path.join [base, path]).Descends := by
  have hjoin := fun path => Path.climbs_join hb [path]
  cases c with
  | createTemp directory lead => exact ⟨hjoin directory, hc.2⟩
  | rename path target => exact ⟨hjoin path, hjoin target⟩
  | _ => exact hjoin _

namespace FileSystem

/-- The filesystem under all views. -/
def ground : FileSystem → FileSystem
  | memory store variant => memory store variant
  | host root => host root
  | view underlying _ => underlying.ground

/-- The path of the filesystem under all views that a path stands for. -/
def reach : FileSystem → String → String
  | memory _ _, path | host _, path => path
  | view underlying base, path => underlying.reach (underlying.translate base path)

/-- The key that the place from which the outermost view is taken has under all views. -/
def place : FileSystem → Key
  | memory _ _ | host _ => []
  | view underlying base => underlying.place ++ Key.resolve base

/-- An answer of the filesystem under all views to a call, as told by the outermost. -/
def tell : FileSystem → Call → Answer File → Answer File
  | memory _ _, _, a | host _, _, a => a
  | view underlying base, c, a =>
    underlying.retell base c (underlying.tell (c.translate (underlying.translate base)) a)

/-- A call through views is a call on the filesystem under them, with its answer told on. -/
theorem perform_ground (fs : FileSystem) (c : Call) :
    fs.perform c = fs.tell c <$> fs.ground.perform (c.translate fs.reach) := by
  induction fs generalizing c with
  | memory store variant => simp [tell, ground, reach, Call.translate_id]
  | host root => simp [tell, ground, reach, Call.translate_id]
  | view underlying base ih =>
    rw [perform_view, ih, Call.translate_translate, ← comp_map]
    rfl

/-! ## Stacks of views -/

/-- Views put upon the filesystem in memory on a store, from absolute bases, of which those that are
taken from a view do not climb. -/
inductive Stack (m : Nat) : FileSystem → Prop where
  | single {base : String} (hb : Path.isAbsolute base = true) :
    Stack m (.view (.memory m .plain) base)
  | upon {fs : FileSystem} {base : String} (h : Stack m fs) (hb : Path.isAbsolute base = true)
    (hc : Path.climbs base = false) : Stack m (.view fs base)

namespace Stack

variable {m : Nat} {fs : FileSystem} {path : String}

/-- Stacks join paths by the plain rules. -/
theorem join_eq (h : Stack m fs) (l : List String) : fs.join l = Path.join l := by
  induction h with
  | single hb => rfl
  | upon h hb hc ih => exact ih

theorem ground_eq (h : Stack m fs) : fs.ground = .memory m .plain := by
  induction h with
  | single hb => rfl
  | upon h hb hc ih => exact ih

/-- A path that does not climb goes on from the place of the view. -/
theorem reach_eq (h : Stack m fs) (hpath : Path.climbs path = false) :
    fs.reach path = Key.toString (fs.place ++ Key.resolve path) := by
  induction h generalizing path with
  | @single base hb =>
    change Path.join [base, path] = Key.toString (Key.resolve base ++ Key.resolve path)
    rw [Path.join_eq_toString hb, Path.resolve_join_of_not_climbs base hpath]
  | @upon fs base h hb hc ih =>
    rw [reach, translate, h.join_eq, ih (Path.climbs_join hb _), place, List.append_assoc,
      Path.resolve_join_of_not_climbs base hpath]

/-- Stacks at the same place lead to the same paths. -/
theorem translate_reach {fs' : FileSystem} (h : Stack m fs) (h' : Stack m fs')
    (hplace : fs.place = fs'.place) {c : Call} (hc : c.Descends) :
    c.translate fs.reach = c.translate fs'.reach := by
  apply hc.translate_congr
  intro path hpath
  rw [h.reach_eq hpath, h'.reach_eq hpath, hplace]

/-- The view of a stack from one of its paths is a stack. -/
theorem viewFrom (h : Stack m fs) (path : String) : Stack m (fs.viewFrom path) := by
  cases h with
  | single hb => exact .single (Path.isAbsolute_join hb [path])
  | @upon fs base h hb hc =>
    have htranslate : fs.translate base path = Path.join [base, path] := h.join_eq _
    rw [FileSystem.viewFrom, htranslate]
    exact .upon h (Path.isAbsolute_join hb [path]) (Path.climbs_join hb [path])

theorem place_viewFrom (h : Stack m fs) (hpath : Path.climbs path = false) :
    (fs.viewFrom path).place = fs.place ++ Key.resolve path := by
  cases h with
  | @single base hb => exact Path.resolve_join_of_not_climbs base hpath
  | @upon fs base h hb hc =>
    have htranslate : fs.translate base path = Path.join [base, path] := h.join_eq _
    rw [FileSystem.viewFrom, htranslate, place, place, List.append_assoc,
      Path.resolve_join_of_not_climbs base hpath]

end Stack

/-- Views put one upon another, from each base in turn. -/
def pile (fs : FileSystem) (bases : List String) : FileSystem :=
  bases.foldl view fs

/-- Views taken one from another, by each path in turn. -/
def viewAlong (fs : FileSystem) (paths : List String) : FileSystem :=
  paths.foldl viewFrom fs

namespace Stack

variable {m : Nat} {fs : FileSystem} {l : List String}

theorem pile (h : Stack m fs) (hl : ∀ b ∈ l, Path.isAbsolute b = true ∧ Path.climbs b = false) :
    Stack m (fs.pile l) := by
  induction l generalizing fs with
  | nil => exact h
  | cons b l ih =>
    obtain ⟨hb, hc⟩ := hl b List.mem_cons_self
    exact ih (h.upon hb hc) fun b hb => hl b (List.mem_cons_of_mem _ hb)

theorem viewAlong (h : Stack m fs) (l : List String) : Stack m (fs.viewAlong l) := by
  induction l generalizing fs with
  | nil => exact h
  | cons path l ih => exact ih (h.viewFrom path)

/-- Taking a view from each of some paths leads where putting views upon one another leads. -/
theorem place_viewAlong (h : Stack m fs) (hl : ∀ path ∈ l, Path.climbs path = false) :
    (fs.viewAlong l).place = (fs.pile l).place := by
  have hpile : ∀ fs : FileSystem, (fs.pile l).place = fs.place ++ l.flatMap Key.resolve := by
    intro fs
    clear h hl
    induction l generalizing fs with
    | nil => simp [FileSystem.pile]
    | cons path l ih => exact (ih _).trans (by rw [place, List.flatMap_cons, List.append_assoc])
  have halong : (fs.viewAlong l).place = fs.place ++ l.flatMap Key.resolve := by
    clear hpile
    induction l generalizing fs with
    | nil => simp [FileSystem.viewAlong]
    | cons path l ih =>
      refine (ih (h.viewFrom path) fun q hq => hl q (List.mem_cons_of_mem _ hq)).trans ?_
      rw [h.place_viewFrom (hl path List.mem_cons_self), List.flatMap_cons, List.append_assoc]
  rw [halong, hpile]

end Stack

end FileSystem

/-! ## Answers told on -/

/-- The handle under all views. -/
def File.inmost : File → File
  | memory store handle name => memory store handle name
  | host stream name => host stream name
  | recorder id => recorder id
  | renamed _ inner => inner.inmost

/-- A call on a handle goes to the handle under all views. -/
theorem File.use_inmost (f : File) (c : HandleCall) : f.use c = f.inmost.use c := by
  induction f with
  | renamed name inner ih => rw [use_renamed, ih, inmost]
  | _ => rfl

/-- A call asks for the metadata of the place that its path is taken from. -/
def Call.StatsTop : Call → Prop
  | stat path => Key.resolve path = []
  | _ => False

/-- The metadata of an entry as it is reported, with the name that is reported. -/
def EntryInfo.seen {σ : Type} (i : EntryInfo σ) : String × FileInfo σ :=
  (i.name, i.origin)

/-- Two answers to a call come from the same answer under all views, and are told the same: only the
name in the metadata of the place itself depends on the views. -/
inductive Answer.Same (c : Call) : Answer File → Answer File → Prop
  | file {f f' : File} (hname : f.name = f'.name) (hinmost : f.inmost = f'.inmost) :
    Same c (.file f) (.file f')
  | done : Same c .done .done
  | info {i i' : EntryInfo Host.Status} (hname : ¬c.StatsTop → i.name = i'.name)
    (horigin : i.origin = i'.origin) : Same c (.info i) (.info i')
  | listing {l l' : List (EntryInfo Host.Status)}
    (h : l.map EntryInfo.seen = l'.map EntryInfo.seen) : Same c (.listing l) (.listing l')
  | bytes (b : Bytes) : Same c (.bytes b) (.bytes b)
  | number (n : Int) : Same c (.number n) (.number n)

/-- The kind of answer that a call has, and what is known of names in it. -/
def Call.Fits : Call → Answer File → Prop
  | .create _, a | .openRead _, a | .openFile _ _ _, a => ∃ f, a = .file f
  | .createTemp _ _, a => ∃ f, a = .file f ∧ Path.IsName (Path.baseName f.name)
  | .rename _ _, a | .remove _, a | .makeDirectories _ _, a => a = .done
  | .stat _, a => ∃ i, a = .info i
  | .list _, a => ∃ l, a = .listing l ∧ ∀ i ∈ l, '/' ∉ i.name.toList

theorem Call.fits_translate (c : Call) (g : String → String) (a : Answer File) :
    (c.translate g).Fits a ↔ c.Fits a := by
  cases c <;> exact Iff.rfl

/-- The name that views give to a new handle, by the name that it has under them. -/
def Call.fileName : Call → String → String
  | .create path, _ | .openRead path, _ | .openFile path _ _, _ => path
  | .createTemp directory _, name => Path.join [directory, Path.baseName name]
  | _, name => name

/-- What becomes of an answer to a call when views tell it on. -/
inductive Told : Call → Answer File → Answer File → Prop
  | file {c : Call} {f g : File} (hname : g.name = c.fileName f.name)
    (hinmost : g.inmost = f.inmost) : Told c (.file f) (.file g)
  | done {c : Call} : Told c .done .done
  | info {path : String} {i j : EntryInfo Host.Status}
    (hname : Key.resolve path ≠ [] → j.name = (Key.resolve path).name)
    (horigin : j.origin = i.origin) : Told (.stat path) (.info i) (.info j)
  | listing {c : Call} {l l' : List (EntryInfo Host.Status)}
    (h : l'.map EntryInfo.seen = l.map EntryInfo.seen) : Told c (.listing l) (.listing l')

namespace Told

variable {c : Call} {a b b' : Answer File} {base path : String}

/-- An answer that two series of views tell on is told the same by both. -/
theorem same (h : Told c a b) (h' : Told c a b') : Answer.Same c b b' := by
  cases h with
  | file hname hinmost =>
    cases h' with
    | file hname' hinmost' => exact .file (hname.trans hname'.symm) (hinmost.trans hinmost'.symm)
  | done =>
    cases h'
    exact .done
  | info hname horigin =>
    cases h' with
    | info hname' horigin' =>
      exact .info (fun htop => (hname htop).trans (hname' htop).symm)
        (horigin.trans horigin'.symm)
  | listing h =>
    cases h' with
    | listing h' => exact .listing (h.trans h'.symm)

/-- The name that a view gives to a temporary file does not depend on the views under it. -/
theorem fileName_upon (hb : Path.isAbsolute base = true) (hc : c.Descends) (name : String)
    (hname : ∀ directory lead, c = .createTemp directory lead →
      Path.IsName (Path.baseName name)) :
    c.fileName ((c.translate fun path => Path.join [base, path]).fileName name) =
      c.fileName name := by
  cases c with
  | createTemp directory lead =>
    have hbase := hname directory lead rfl
    change Path.join [directory, Path.baseName (Path.join [Path.join [base, directory],
      Path.baseName name])] = Path.join [directory, Path.baseName name]
    rw [Path.join_eq_toString (Path.isAbsolute_join hb _), Path.resolve_join_name _ hbase,
      Path.baseName_toString _ hbase]
  | _ => rfl

/-- One more view tells the answer on. -/
theorem upon {u : FileSystem} (hjoin : ∀ l, u.join l = Path.join l)
    (hb : Path.isAbsolute base = true) (hc : c.Descends) (hfits : c.Fits a)
    (h : Told (c.translate fun path => Path.join [base, path]) a b) :
    Told c a (u.retell base c b) := by
  have htranslate : ∀ path, u.translate base path = Path.join [base, path] := fun _ => hjoin _
  cases c with
  | create path | openRead path | openFile path flags perm =>
    obtain ⟨f, rfl⟩ := hfits
    cases h with
    | file hname hinmost => exact .file rfl hinmost
  | createTemp directory lead =>
    obtain ⟨f, rfl, hbase⟩ := hfits
    cases h with
    | @file _ _ g hname hinmost =>
      have hupon := fileName_upon hb hc f.name fun _ _ _ => hbase
      rw [← hname] at hupon
      exact .file ((hjoin _).trans hupon) hinmost
  | rename path target | remove path | makeDirectories path perm =>
    cases hfits
    cases h
    exact .done
  | stat path =>
    obtain ⟨i, rfl⟩ := hfits
    cases h with
    | info hname horigin =>
      refine .info (fun hne => ?_) horigin
      rw [EntryInfo.name, htranslate, Mirror.baseName_join hb hc hne]
  | list path =>
    obtain ⟨l, rfl, hslash⟩ := hfits
    cases h with
    | @listing _ _ l' h =>
      refine .listing (Eq.trans ?_ h)
      rw [List.map_map]
      apply List.map_congr_left
      intro j hj
      have hmem : j.seen ∈ l.map EntryInfo.seen := h ▸ List.mem_map_of_mem hj
      obtain ⟨i, hi, hseen⟩ := List.mem_map.1 hmem
      have hname : i.name = j.name := congrArg Prod.fst hseen
      have hstrip := Path.stripLead_of_absolute (hname ▸ hslash i hi)
        (Path.isAbsolute_join hb [path])
      refine Prod.ext ?_ rfl
      exact (congrArg (Path.stripLead j.name) (htranslate path)).trans hstrip

end Told

/-- What a call on a store answers is of its kind, and is what it would be if told on. -/
theorem told_outcome {c : Call} {d e : Disk} {a : Answer (Nat × String)} (m : Nat)
    (hs : d.store.Sound) (hc : c.Descends)
    (h : CallOutcome d c (.ok a e)) :
    c.Fits (a.map (File.ofStore m)) ∧
      Told c (a.map (File.ofStore m)) (a.map (File.ofStore m)) := by
  generalize hr : (EStateM.Result.ok a e : EStateM.Result Fault Disk _) = r at h
  cases h with
  | @create path r h | @openRead path r h | @openFile path flags perm r h =>
    cases r <;> cases hr
    exact ⟨⟨_, rfl⟩, .file rfl rfl⟩
  | @createTemp directory lead r h =>
    cases r <;> cases hr
    cases h with
    | @opened n s id e hfree hsearch h =>
      have hbase := baseName_candidate directory hc.2 n
      refine ⟨⟨_, rfl, ?_⟩, .file ?_ rfl⟩
      · change Path.IsName (Path.baseName (candidate directory lead n))
        rw [hbase]
        exact Path.isName_append_number hc.2 n
      · exact congrArg (fun name => Path.join [directory, name]) hbase.symm
  | @rename path target r h | @remove path r h | @makeDirectories path perm r h =>
    cases r <;> cases hr
    exact ⟨rfl, .done⟩
  | @stat path r h =>
    cases r <;> cases hr
    exact ⟨⟨_, rfl⟩, .info (fun _ => h.name_of_ok) rfl⟩
  | @list path r h =>
    cases r <;> cases hr
    refine ⟨⟨_, rfl, ?_⟩, .listing rfl⟩
    intro i hi
    obtain ⟨j, hj, rfl⟩ := List.mem_map.1 hi
    exact h.no_slash hs j hj

/-- A stack of views tells on what a call on the store answers. -/
theorem FileSystem.Stack.told {m : Nat} {fs : FileSystem} (h : fs.Stack m) {c : Call}
    (hc : c.Descends) {d e : Disk} {a : Answer (Nat × String)} (hs : d.store.Sound)
    (houtcome : CallOutcome d (c.translate fs.reach) (.ok a e)) :
    c.Fits (a.map (File.ofStore m)) ∧
      Told c (a.map (File.ofStore m)) (fs.tell c (a.map (File.ofStore m))) := by
  -- by induction on the views: the outermost tells on what the others have told
  induction h generalizing c with
  | @single base hb =>
    obtain ⟨hfits, htold⟩ := told_outcome m hs (hc.translate hb) houtcome
    have hfits := (c.fits_translate _ _).1 hfits
    exact ⟨hfits, htold.upon (fun _ => rfl) hb hc hfits⟩
  | @upon fs base h hb hcb ih =>
    have htranslate : ∀ path, fs.translate base path = Path.join [base, path] :=
      fun path => h.join_eq _
    have hcalls : c.translate (fs.translate base) =
        c.translate fun path => Path.join [base, path] := by
      rw [funext htranslate]
    have houtcome' : CallOutcome d
        ((c.translate fun path => Path.join [base, path]).translate fs.reach) (.ok a e) := by
      rw [← hcalls, Call.translate_translate]
      exact houtcome
    obtain ⟨hfits, htold⟩ := ih (hc.translate hb) houtcome'
    have hfits := (c.fits_translate _ _).1 hfits
    rw [FileSystem.tell, hcalls]
    exact ⟨hfits, htold.upon h.join_eq hb hc hfits⟩

namespace FileSystem.Stack

variable {m : Nat} {fs fs' : FileSystem} {w : World} {s : Store}

/-- A call through a stack of views runs on the store. -/
theorem run_perform (h : fs.Stack m) (hm : w.stores[m]? = some s) (c : Call) :
    (fs.perform c).run w =
      w.lift m (fun a => fs.tell c (a.map (File.ofStore m)))
        ((Memory.perform (c.translate fs.reach)).run (w.disk s)) := by
  have hperform : fs.perform c =
      World.onStore m ((fun a => fs.tell c (a.map (File.ofStore m))) <$>
        Memory.perform (c.translate fs.reach)) := by
    rw [perform_ground, h.ground_eq, perform_memory, map_onStore, ← comp_map]
    rfl
  rw [hperform, run_onStore hm]

end FileSystem.Stack

/-- Two handles have the same name and are the same under all views. -/
structure File.SameInmost (m : Nat) (f f' : File) : Prop where
  name : f.name = f'.name
  inmost : f.inmost = f'.inmost
  memory : ∃ id name, f.inmost = .memory m id name

/-- The handles in answers that are told on by two series of views are the same under them. -/
theorem Told.files {m : Nat} {c : Call} {a : Answer (Nat × String)} {b b' : Answer File}
    (h : Told c (a.map (File.ofStore m)) b) (h' : Told c (a.map (File.ofStore m)) b') :
    List.Forall₂ (File.SameInmost m) b.files b'.files := by
  cases a with
  | file x =>
    cases h with
    | file hname hinmost =>
      cases h' with
      | file hname' hinmost' =>
        exact .cons ⟨hname.trans hname'.symm, hinmost.trans hinmost'.symm, x.1, x.2, hinmost⟩ .nil
  | done | info i | listing l =>
    cases h
    cases h'
    exact .nil
  | bytes b | number n => cases h

/-- Lists that are related place by place have related elements at a place, or none. -/
theorem forall₂_getElem? {α β : Type} {R : α → β → Prop} {l : List α} {l' : List β}
    (h : List.Forall₂ R l l') (i : Nat) :
    (l[i]? = none ∧ l'[i]? = none) ∨ ∃ a b, l[i]? = some a ∧ l'[i]? = some b ∧ R a b := by
  induction h generalizing i with
  | nil => exact .inl ⟨rfl, rfl⟩
  | cons hab h ih =>
    cases i with
    | zero => exact .inr ⟨_, _, rfl, rfl, hab⟩
    | succ i => exact ih i

namespace Session

/-! ## Sessions side by side -/

/-- A session that begins with one filesystem. -/
def begin (w : World) (fs : FileSystem) : Session :=
  ⟨w, [fs], []⟩

/-- Two outcomes of a step are the same, with answers that differ in nothing but how many views have
told them on. -/
inductive OutcomeSame : Step → Except Fault (Answer File) → Except Fault (Answer File) → Prop
  | call {v : Nat} {c : Call} {a a' : Answer File} (h : Answer.Same c a a') :
    OutcomeSame (.call v c) (.ok a) (.ok a')
  | same {st : Step} (r : Except Fault (Answer File)) : OutcomeSame st r r

/-- Two sessions in the same world have views of the filesystem in memory from the same places, and
the same handles under these views. -/
structure Alongside (σ τ : Session) (m : Nat) (s : Store) : Prop where
  world : τ.world = σ.world
  store : σ.world.stores[m]? = some s
  sound : s.Sound
  systems : List.Forall₂ (fun fs fs' => fs.Stack m ∧ fs'.Stack m ∧ fs.place = fs'.place)
    σ.systems τ.systems
  files : List.Forall₂ (File.SameInmost m) σ.files τ.files

variable {σ τ : Session} {m : Nat} {s : Store}

/-- A call comes to the same in both sessions, and they go on side by side. -/
theorem Alongside.call (h : σ.Alongside τ m s) (v : Nat) {c : Call} (hc : c.Descends) :
    OutcomeSame (.call v c) (σ.step (.call v c)).1 (τ.step (.call v c)).1 ∧
      ∃ t, (σ.step (.call v c)).2.Alongside (τ.step (.call v c)).2 m t := by
  rw [Session.step, Session.step]
  rcases forall₂_getElem? h.systems v with ⟨hv, hv'⟩ | ⟨fs, fs', hv, hv', hstack, hstack', hplace⟩
  · rw [hv, hv']
    exact ⟨.same _, s, h⟩
  · have houtcome := callOutcome (d := σ.world.disk s) h.sound (c.translate fs.reach)
    have hsound := houtcome.sound h.sound
    have hrun := hstack.run_perform h.store c
    have hrun' := hstack'.run_perform h.store c
    rw [← hstack.translate_reach hstack' hplace hc] at hrun'
    rw [hv, hv', h.world]
    dsimp only
    rw [hrun, hrun']
    cases hr : (Memory.perform (c.translate fs.reach)).run (σ.world.disk s) with
    | ok a d =>
      rw [hr] at houtcome hsound
      have htold := (hstack.told hc h.sound houtcome).2
      rw [hstack.translate_reach hstack' hplace hc] at houtcome
      have htold' := (hstack'.told hc h.sound houtcome).2
      refine ⟨.call (htold.same htold'), d.store, rfl, World.stores_putDisk h.store d, hsound,
        h.systems, ?_⟩
      exact List.rel_append h.files (htold.files htold')
    | error f d =>
      rw [hr] at hsound
      exact ⟨.same _, d.store, rfl, World.stores_putDisk h.store d, hsound, h.systems, h.files⟩

/-- Views that are taken from the same place by the same path are from the same place. -/
theorem Alongside.dir (h : σ.Alongside τ m s) (v : Nat) {path : String}
    (hpath : Path.climbs path = false) :
    OutcomeSame (.dir v path) (σ.step (.dir v path)).1 (τ.step (.dir v path)).1 ∧
      ∃ t, (σ.step (.dir v path)).2.Alongside (τ.step (.dir v path)).2 m t := by
  rw [Session.step, Session.step]
  rcases forall₂_getElem? h.systems v with ⟨hv, hv'⟩ | ⟨fs, fs', hv, hv', hstack, hstack', hplace⟩
  · rw [hv, hv']
    exact ⟨.same _, s, h⟩
  · rw [hv, hv']
    refine ⟨.same _, s, h.world, h.store, h.sound, ?_, h.files⟩
    refine List.rel_append h.systems (.cons ⟨hstack.viewFrom path, hstack'.viewFrom path, ?_⟩ .nil)
    rw [hstack.place_viewFrom hpath, hstack'.place_viewFrom hpath, hplace]

/-- A call on a handle goes to the same handle in both sessions. -/
theorem Alongside.use (h : σ.Alongside τ m s) (i : Nat) (c : HandleCall) :
    OutcomeSame (.use i c) (σ.step (.use i c)).1 (τ.step (.use i c)).1 ∧
      ∃ t, (σ.step (.use i c)).2.Alongside (τ.step (.use i c)).2 m t := by
  rw [Session.step, Session.step]
  rcases forall₂_getElem? h.files i with ⟨hi, hi'⟩ | ⟨f, f', hi, hi', hsame⟩
  · rw [hi, hi']
    exact ⟨.same _, s, h⟩
  · obtain ⟨id, name, hinmost⟩ := hsame.memory
    have hrun := run_use_memory h.store id name c
    have hsound := use_sound (d := σ.world.disk s) h.sound id c
    rw [Memory.after] at hsound
    rw [hi, hi', h.world]
    dsimp only
    rw [f'.use_inmost, ← hsame.inmost, f.use_inmost, hinmost, hrun]
    cases hr : (Memory.use id c).run (σ.world.disk s) with
    | ok a d | error f d =>
      rw [hr] at hsound
      exact ⟨.same _, d.store, rfl, World.stores_putDisk h.store d, hsound, h.systems, h.files⟩

/-- A step comes to the same in both sessions, and they go on side by side. -/
theorem Alongside.step (h : σ.Alongside τ m s) {st : Step} (hst : st.Descends) :
    OutcomeSame st (σ.step st).1 (τ.step st).1 ∧
      ∃ t, (σ.step st).2.Alongside (τ.step st).2 m t := by
  cases st with
  | call v c => exact h.call v hst
  | dir v path => exact h.dir v hst
  | use i c => exact h.use i c

/-- Sessions that begin side by side go on side by side. -/
theorem Alongside.after (h : σ.Alongside τ m s) {steps : List Step}
    (hsteps : ∀ st ∈ steps, st.Descends) : ∃ t, (σ.after steps).Alongside (τ.after steps) m t := by
  induction steps generalizing σ τ s with
  | nil => exact ⟨s, h⟩
  | cons st steps ih =>
    obtain ⟨-, t, hnext⟩ := h.step (hsteps st List.mem_cons_self)
    exact ih hnext fun st hst => hsteps st (List.mem_cons_of_mem _ hst)

/-- Whatever has been done in both sessions, the next step has the same outcome in both and leaves
the same world, as long as no path climbs. -/
def Matches (σ τ : Session) : Prop :=
  ∀ steps st, (∀ st' ∈ steps ++ [st], st'.Descends) →
    OutcomeSame st ((σ.after steps).step st).1 ((τ.after steps).step st).1 ∧
      ((σ.after steps).step st).2.world = ((τ.after steps).step st).2.world

theorem Alongside.matches (h : σ.Alongside τ m s) : σ.Matches τ := by
  intro steps st hsteps
  obtain ⟨t, hafter⟩ := h.after fun st hst => hsteps st (List.mem_append_left _ hst)
  obtain ⟨houtcome, t', hnext⟩ := hafter.step (hsteps st (by simp))
  exact ⟨houtcome, hnext.world.symm⟩

/-- Views put one upon another and the view that is taken along the same bases lead to the same
keys, and do the same. -/
theorem pile_matches {w : World} (hm : w.stores[m]? = some s) (hs : Reachable s) {b : String}
    (hb : Path.isAbsolute b = true) {bs : List String}
    (hbs : ∀ b' ∈ bs, Path.isAbsolute b' = true ∧ Path.climbs b' = false) :
    (∀ path, Path.climbs path = false →
        Key.resolve (((FileSystem.memory m .plain).view b |>.pile bs).reach path) =
          Key.resolve (((FileSystem.memory m .plain).view b |>.viewAlong bs).reach path)) ∧
      (begin w ((FileSystem.memory m .plain).view b |>.pile bs)).Matches
        (begin w ((FileSystem.memory m .plain).view b |>.viewAlong bs)) := by
  have hview : ((FileSystem.memory m .plain).view b).Stack m := .single hb
  have hpile := hview.pile hbs
  have halong := hview.viewAlong bs
  have hplace := hview.place_viewAlong fun b hb => (hbs b hb).2
  constructor
  · intro path hpath
    rw [hpile.reach_eq hpath, halong.reach_eq hpath, hplace]
  · have hbegin : (begin w ((FileSystem.memory m .plain).view b |>.pile bs)).Alongside
        (begin w ((FileSystem.memory m .plain).view b |>.viewAlong bs)) m s :=
      ⟨rfl, hm, hs.sound, .cons ⟨hpile, halong, hplace.symm⟩ .nil, .nil⟩
    exact hbegin.matches

/-- Three views upon one another, of which one has a base that leads up and down on its way, and one
sees all that the view under it sees. -/
theorem pile_matches_three :
    let s := (Memory.after (Event.call (.create "a/c/x")).run ⟨.empty 0, 0, {}⟩).store
    let w : World := { stores := [s], host := { tree := ⟨[]⟩ } }
    (Path.isAbsolute "/a" = true ∧
        ∀ b ∈ ["/b/../c", "/"], Path.isAbsolute b = true ∧ Path.climbs b = false) ∧
      (∀ path, Path.climbs path = false →
        Key.resolve (((FileSystem.memory 0 .plain).view "/a" |>.pile ["/b/../c", "/"]).reach path) =
          Key.resolve
            (((FileSystem.memory 0 .plain).view "/a" |>.viewAlong ["/b/../c", "/"]).reach path)) ∧
      (begin w ((FileSystem.memory 0 .plain).view "/a" |>.pile ["/b/../c", "/"])).Matches
        (begin w ((FileSystem.memory 0 .plain).view "/a" |>.viewAlong ["/b/../c", "/"])) := by
  intro s w
  have hm : w.stores[0]? = some s := rfl
  have hs : Reachable s := .step (.new 0) 0 {} _
  have hb : Path.isAbsolute "/a" = true := by decide
  have hbs : ∀ b ∈ ["/b/../c", "/"], Path.isAbsolute b = true ∧ Path.climbs b = false := by decide
  exact ⟨⟨hb, hbs⟩, pile_matches hm hs hb hbs⟩

end Session

end RootedFS
