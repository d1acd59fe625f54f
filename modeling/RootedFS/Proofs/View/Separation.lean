import RootedFS.Proofs.View.Agreement

/-!
# Views that do not interfere

Two callers work in one world, each through a view of the same filesystem in memory and with handles
of its own; their steps come in any order. If neither base is at or below the other, nothing that
the one does can be noticed by the other: its answers and what stands below its base are what they
would be without the other.

## Main definitions

* `Duo`, `Turn`, `Duo.step`: two callers in one world, and what a step of either does
* `Duo.views`: two callers that begin with a view each
* `Duo.after`, `Duo.leftOutcomes`: an interleaving of two sequences of steps
* `OutcomeAlike`: outcomes that are the same but for the times of last changes
* `Session.Twins`: two sessions that do the same below a key
* `Duo.Apart`: two callers at work below different keys, and the first of them on its own

## Main results

* `Duo.Apart.step_left`, `Duo.Apart.step_right`: a step of either caller keeps them apart
* `Duo.leftOutcomes_alike`: a caller does not notice what another does through a view from elsewhere
-/

namespace RootedFS

open Memory Tree

/-! ## Two callers in one world -/

/-- Two callers in one world, with filesystems and handles of their own. -/
structure Duo where
  world : World
  systems : List FileSystem
  files : List File
  /-- The filesystems of the second caller. -/
  systems' : List FileSystem
  /-- The handles of the second caller. -/
  files' : List File

/-- A step of the one caller or of the other. -/
inductive Turn where
  | left (st : Step)
  | right (st : Step)

namespace Turn

/-- The step that is made. -/
def step : Turn → Step
  | left st | right st => st

/-- The step, if the first caller makes it. -/
def left? : Turn → Option Step
  | left st => some st
  | right _ => none

end Turn

/-- Whether a step draws numbers from the supply. -/
def Step.draws : Step → Bool
  | .call _ c => c.draws
  | .dir _ _ | .use _ _ => false

namespace Duo

/-- Two callers that begin with views of the filesystem in memory on a store. -/
def views (w : World) (m : Nat) (base base' : String) : Duo where
  world := w
  systems := [.view (.memory m .plain) base]
  files := []
  systems' := [.view (.memory m .plain) base']
  files' := []

/-- What the first caller has. -/
def left (σ : Duo) : Session :=
  ⟨σ.world, σ.systems, σ.files⟩

/-- What the second caller has. -/
def right (σ : Duo) : Session :=
  ⟨σ.world, σ.systems', σ.files'⟩

/-- What is after a step of either caller: what it does to the world, the other finds. -/
def step (σ : Duo) : Turn → Duo
  | .left st =>
    let τ := (σ.left.step st).2
    { σ with world := τ.world, systems := τ.systems, files := τ.files }
  | .right st =>
    let τ := (σ.right.step st).2
    { σ with world := τ.world, systems' := τ.systems, files' := τ.files }

/-- What is after a sequence of steps of both. -/
def after (σ : Duo) (turns : List Turn) : Duo :=
  turns.foldl step σ

/-- What the steps of the first caller come to. -/
def leftOutcomes (σ : Duo) : List Turn → List (Except Fault (Answer File))
  | [] => []
  | .left st :: turns => (σ.left.step st).1 :: (σ.step (.left st)).leftOutcomes turns
  | .right st :: turns => (σ.step (.right st)).leftOutcomes turns

end Duo

/-- Two outcomes are the same but for the times of last changes. -/
inductive OutcomeAlike : Except Fault (Answer File) → Except Fault (Answer File) → Prop where
  | ok {a a' : Answer File} (h : a.Alike a') : OutcomeAlike (.ok a) (.ok a')
  | error (f : Fault) : OutcomeAlike (.error f) (.error f)

/-- A view gives out a handle only when the store has given one out. -/
theorem files_ne_nil_of_viewed {m : Nat} {b : String} {c : Call} {a : Answer (Nat × String)}
    (h : (viewed m b c a).files ≠ []) : a.files ≠ [] := by
  cases a with
  | file f => simp [Answer.files]
  | _ => cases c <;> exact absurd rfl h

namespace Session

/-! ## Handles that a step spares -/

variable {σ τ : Session} {m : Nat} {base : Key} {s : Store}

/-- A view has given out the handle of the store with a number. -/
def Has (σ : Session) (m id : Nat) : Prop :=
  ∃ name inner, File.renamed name (.memory m id inner) ∈ σ.files

/-- What a step does to the handles of a store: only a new one is given out, and those on files
outside a key are as they were, but for the one that the step is a call on. -/
structure HandlesAfter (σ τ : Session) (m : Nat) (base : Key) (s s' : Store) : Prop where
  length_le : s.handles.length ≤ s'.handles.length
  has : ∀ id, τ.Has m id → σ.Has m id ∨ (id = s.handles.length ∧ id < s'.handles.length)
  spared : ∀ id (h : Handle), s.handles[id]? = some h → h.Outside base → ¬σ.Has m id →
    s'.handles[id]? = some h

theorem HandlesAfter.same (hfiles : τ.files = σ.files) : HandlesAfter σ τ m base s s where
  length_le := Nat.le_refl _
  has id h := by
    obtain ⟨name, inner, hmem⟩ := h
    exact .inl ⟨name, inner, hfiles ▸ hmem⟩
  spared _ _ hid _ _ := hid

/-- A step of a confined session spares the handles on files outside. -/
theorem Confined.handles_step (hσ : σ.Confined m base s) {st : Step} (hst : st.Descends) :
    ∃ s', (σ.step st).2.world.stores[m]? = some s' ∧
      HandlesAfter σ (σ.step st).2 m base s s' := by
  cases st with
  | call v c =>
    rw [Session.step]
    cases hv : σ.systems[v]? with
    | none => exact ⟨s, hσ.store, .same rfl⟩
    | some fs =>
      obtain ⟨b, rfl, hb⟩ := hσ.systems fs (List.mem_of_getElem? hv)
      have houtcome := callOutcome (d := σ.world.disk s) hσ.sound
        (c.translate fun path => Path.join [b, path])
      have hspares := houtcome.spares hσ.sound (hst.within hb)
      have hrun := run_perform_view hσ.store b c
      cases hr : (perform (c.translate fun path => Path.join [b, path])).run (σ.world.disk s) with
      | ok a d =>
        rw [hr] at hrun houtcome hspares
        dsimp only
        rw [hrun]
        refine ⟨d.store, World.stores_putDisk hσ.store d, hspares.length_le, ?_,
          fun id h hid hout _ => hspares.getElem? hid hout⟩
        rintro id ⟨name, inner, hmem⟩
        rcases List.mem_append.1 hmem with hmem | hmem
        · exact .inl ⟨name, inner, hmem⟩
        · obtain ⟨_, _, heq⟩ := houtcome.files_viewed rfl hmem
          cases heq
          have hlt := houtcome.length_lt (files_ne_nil_of_viewed (List.ne_nil_of_mem hmem))
          exact .inr ⟨rfl, hlt⟩
      | error f d =>
        rw [hr] at hrun hspares
        dsimp only
        rw [hrun]
        exact ⟨d.store, World.stores_putDisk hσ.store d, hspares.length_le, fun _ => .inl,
          fun id h hid hout _ => hspares.getElem? hid hout⟩
  | dir v path =>
    rw [Session.step]
    cases hv : σ.systems[v]? with
    | none => exact ⟨s, hσ.store, .same rfl⟩
    | some fs => exact ⟨s, hσ.store, .same rfl⟩
  | use i c =>
    rw [Session.step]
    cases hi : σ.files[i]? with
    | none => exact ⟨s, hσ.store, .same rfl⟩
    | some f =>
      obtain ⟨name, inner, id, rfl, -⟩ := hσ.files f (List.mem_of_getElem? hi)
      have hhas : σ.Has m id := ⟨name, inner, List.mem_of_getElem? hi⟩
      have hlength := length_handles_use (d := σ.world.disk s) id c
      have hother := fun {j} (hne : id ≠ j) =>
        getElem?_handles_use (d := σ.world.disk s) hne c
      have hrun := run_use_renamed hσ.store name inner id c
      dsimp only
      rw [hrun]
      rw [Memory.after] at hlength hother
      cases hr : (use id c).run (σ.world.disk s) with
      | ok a d | error f d =>
        rw [hr] at hlength hother
        refine ⟨d.store, World.stores_putDisk hσ.store d, Nat.le_of_eq hlength.symm,
          fun _ => .inl, ?_⟩
        intro j h hid _ hj
        have hne : id ≠ j := by
          rintro rfl
          exact hj hhas
        exact (hother hne).trans hid

/-! ## A session with and without another -/

/-- Two sessions do the same below a key: they have the same views from there, on stores that agree
there, and their handles were opened in pairs. -/
structure Twins (σ τ : Session) (m : Nat) (base : Key) (ps : List Pair) (s s' : Store) : Prop where
  store : σ.world.stores[m]? = some s
  store' : τ.world.stores[m]? = some s'
  agreement : Agreement base ps (σ.world.disk s) (τ.world.disk s')
  systems : τ.systems = σ.systems
  views : ∀ fs ∈ σ.systems, ∃ b, fs = .view (.memory m .plain) b ∧
    Key.within base (Key.resolve b) = true
  files : σ.files = ps.map (Pair.viewed m)
  files' : τ.files = ps.map (Pair.viewed' m)

section

variable {ps : List Pair} {s' : Store} (h : σ.Twins τ m base ps s s')
include h

/-- Sessions do the same while their stores agree, with new pairs of handles. -/
theorem Twins.putDisk {new : List Pair} {d d' : Disk} {files files' : List File}
    (hA : Agreement base (ps ++ new) d d') (hfiles : files = new.map (Pair.viewed m))
    (hfiles' : files' = new.map (Pair.viewed' m)) :
    (⟨σ.world.putDisk m d, σ.systems, σ.files ++ files⟩ : Session).Twins
      ⟨τ.world.putDisk m d', τ.systems, τ.files ++ files'⟩ m base (ps ++ new) d.store
      d'.store where
  store := World.stores_putDisk h.store d
  store' := World.stores_putDisk h.store' d'
  agreement := hA
  systems := h.systems
  views := h.views
  files := by rw [h.files, hfiles, List.map_append]
  files' := by rw [h.files', hfiles', List.map_append]

/-- Sessions do the same while their stores agree, with the same handles. -/
theorem Twins.putDisk_same {d d' : Disk} (hA : Agreement base ps d d') :
    (⟨σ.world.putDisk m d, σ.systems, σ.files⟩ : Session).Twins
      ⟨τ.world.putDisk m d', τ.systems, τ.files⟩ m base ps d.store d'.store := by
  have hA' : Agreement base (ps ++ []) d d' := by rwa [List.append_nil]
  have hnext := h.putDisk hA' rfl rfl
  simpa only [List.map_nil, List.append_nil] using hnext

/-- A session stays below its key. -/
theorem Twins.confined : σ.Confined m base s where
  store := h.store
  sound := h.agreement.sound
  systems := h.views
  files f hf := by
    rw [h.files] at hf
    obtain ⟨x, hx, rfl⟩ := List.mem_map.1 hf
    obtain ⟨g, g', hid, -, hg⟩ := h.agreement.paired.related x hx
    refine ⟨x.name, x.inner, x.id, rfl, fun i k hi ho hk => ?_⟩
    rw [show s.handles[x.id]? = some g from hid] at hi
    cases hi
    exact hg.within ho k hk

theorem Twins.call (v : Nat) {c : Call} (hc : c.Descends) (hdraws : c.draws = false) :
    OutcomeAlike (σ.step (.call v c)).1 (τ.step (.call v c)).1 ∧
      ∃ ps' t t', (σ.step (.call v c)).2.Twins (τ.step (.call v c)).2 m base ps' t t' := by
  rw [Session.step, Session.step, h.systems]
  cases hv : σ.systems[v]? with
  | none => exact ⟨.error _, _, _, _, h⟩
  | some fs =>
    obtain ⟨b, rfl, hb⟩ := h.views fs (List.mem_of_getElem? hv)
    have hrun := run_perform_view h.store b c
    have hrun' := run_perform_view h.store' b c
    obtain ⟨r, hr, hend⟩ := h.agreement.call m hb hc hdraws (callOutcome h.agreement.sound' _)
    rw [hr.run h.agreement.sound] at hrun
    generalize (Memory.perform (c.translate fun path => Path.join [b, path])).run
      (τ.world.disk s') = r' at hend hrun'
    dsimp only
    rw [hrun, hrun']
    cases hend with
    | ok hnew =>
      obtain ⟨new, htold, hA⟩ := hnew
      have hnext := h.putDisk hA htold.files htold.files'
      rw [h.systems] at hnext
      exact ⟨.ok htold.alike, _, _, _, hnext⟩
    | error hA =>
      have hnext := h.putDisk_same hA
      rw [h.systems] at hnext
      exact ⟨.error _, _, _, _, hnext⟩

theorem Twins.dir (v : Nat) {path : String} (hpath : Path.climbs path = false) :
    OutcomeAlike (σ.step (.dir v path)).1 (τ.step (.dir v path)).1 ∧
      ∃ ps' t t', (σ.step (.dir v path)).2.Twins (τ.step (.dir v path)).2 m base ps' t t' := by
  rw [Session.step, Session.step, h.systems]
  cases hv : σ.systems[v]? with
  | none => exact ⟨.error _, _, _, _, h⟩
  | some fs =>
    obtain ⟨b, rfl, hb⟩ := h.views fs (List.mem_of_getElem? hv)
    refine ⟨.ok .done, ps, s, s', h.store, h.store', h.agreement, rfl, ?_, h.files, h.files'⟩
    intro fs hfs
    rcases List.mem_append.1 hfs with hfs | hfs
    · exact h.views fs hfs
    · rw [List.mem_singleton.1 hfs]
      exact ⟨_, rfl, within_resolve_join hb hpath⟩

theorem Twins.use (i : Nat) (c : HandleCall) :
    OutcomeAlike (σ.step (.use i c)).1 (τ.step (.use i c)).1 ∧
      ∃ ps' t t', (σ.step (.use i c)).2.Twins (τ.step (.use i c)).2 m base ps' t t' := by
  rw [Session.step, Session.step, h.files, h.files', List.getElem?_map, List.getElem?_map]
  cases hx : ps[i]? with
  | none => exact ⟨.error _, _, _, _, h⟩
  | some x =>
    have hrun := run_use_renamed h.store x.name x.inner x.id c
    have hrun' := run_use_renamed h.store' x.name x.inner x.id' c
    have hend := h.agreement.use (List.mem_of_getElem? hx) c
    generalize (Memory.use x.id c).run (σ.world.disk s) = r at hend hrun
    generalize (Memory.use x.id' c).run (τ.world.disk s') = r' at hend hrun'
    simp only [Option.map_some, Pair.viewed, Pair.viewed', hrun, hrun']
    cases hend with
    | @ok a a' d d' hA =>
      obtain ⟨rfl, hA⟩ := hA
      have hnext := h.putDisk_same hA
      rw [h.files, h.files'] at hnext
      exact ⟨.ok (a.alike_map m m), _, _, _, hnext⟩
    | error hA =>
      have hnext := h.putDisk_same hA
      rw [h.files, h.files'] at hnext
      exact ⟨.error _, _, _, _, hnext⟩

/-- A step comes to the same in both sessions, and they go on doing the same. -/
theorem Twins.step {st : Step} (hst : st.Descends) (hdraws : st.draws = false) :
    OutcomeAlike (σ.step st).1 (τ.step st).1 ∧
      ∃ ps' t t', (σ.step st).2.Twins (τ.step st).2 m base ps' t t' := by
  cases st with
  | call v c => exact h.call v hst hdraws
  | dir v path => exact h.dir v hst
  | use i c => exact h.use i c

end

end Session

namespace Duo

/-! ## Callers that do not interfere -/

/-- Two callers are at work below different keys, and the first of them does the same without the
second. -/
structure Apart (σ : Duo) (τ : Session) (m : Nat) (base other : Key) (ps : List Pair)
    (s s' : Store) : Prop where
  twins : σ.left.Twins τ m base ps s s'
  /-- The second caller stays below its key. -/
  confined : σ.right.Confined m other s
  /-- The handles that were given out are there. -/
  bound : ∀ id, σ.left.Has m id ∨ σ.right.Has m id → id < s.handles.length
  /-- No handle was given to both. -/
  distinct : ∀ id, σ.left.Has m id → ¬σ.right.Has m id

namespace Apart

variable {σ : Duo} {τ : Session} {m : Nat} {base other : Key} {ps : List Pair} {s s' : Store}

/-- A step of the first caller comes to the same without the second, whom it does not reach. -/
theorem step_left (hσ : σ.Apart τ m base other ps s s') (hout : Key.within base other = false)
    (hout' : Key.within other base = false) {st : Step} (hst : st.Descends)
    (hdraws : st.draws = false) :
    OutcomeAlike (σ.left.step st).1 (τ.step st).1 ∧
      ∃ ps' t t', (σ.step (.left st)).Apart (τ.step st).2 m base other ps' t t' := by
  obtain ⟨houtcome, ps', t, t', htwins⟩ := hσ.twins.step hst hdraws
  obtain ⟨t₁, ht₁, hafter⟩ := hσ.twins.confined.handles_step hst
  obtain rfl : t₁ = t := Option.some.inj (ht₁.symm.trans htwins.store)
  refine ⟨houtcome, ps', t₁, t', htwins, ⟨ht₁, htwins.agreement.sound, hσ.confined.systems, ?_⟩,
    ?_, ?_⟩
  · intro f hf
    obtain ⟨name, inner, id, rfl, hin⟩ := hσ.confined.files f hf
    have hhas : σ.right.Has m id := ⟨name, inner, hf⟩
    refine ⟨name, inner, id, rfl, fun h k hid ho hk => ?_⟩
    have hlt := hσ.bound id (.inr hhas)
    have hid' := List.getElem?_eq_getElem hlt
    have houtside : (s.handles[id]).Outside base := fun ho' j hj =>
      Key.not_within_of_apart hout' hout (hin _ j hid' ho' hj)
    rw [hafter.spared id _ hid' houtside fun hleft => hσ.distinct id hleft hhas] at hid
    cases hid
    exact hin _ k hid' ho hk
  · rintro id (hid | hid)
    · rcases hafter.has id hid with hid | ⟨-, hlt⟩
      · exact Nat.lt_of_lt_of_le (hσ.bound id (.inl hid)) hafter.length_le
      · exact hlt
    · exact Nat.lt_of_lt_of_le (hσ.bound id (.inr hid)) hafter.length_le
  · intro id hid hright
    rcases hafter.has id hid with hid | ⟨rfl, -⟩
    · exact hσ.distinct id hid hright
    · exact absurd (hσ.bound _ (.inr hright)) (Nat.lt_irrefl _)

/-- A step of the second caller does not reach the first. -/
theorem step_right (hσ : σ.Apart τ m base other ps s s') (hout : Key.within base other = false)
    (hout' : Key.within other base = false) {st : Step} (hst : st.Descends) :
    ∃ t, (σ.step (.right st)).Apart τ m base other ps t s' := by
  obtain ⟨t, hconfined, hframe⟩ := hσ.confined.step hst
  obtain ⟨t₁, ht₁, hafter⟩ := hσ.confined.handles_step hst
  obtain rfl : t₁ = t := Option.some.inj (ht₁.symm.trans hconfined.store)
  have hhas : ∀ x ∈ ps, σ.left.Has m x.id := by
    intro x hx
    exact ⟨x.name, x.inner, hσ.twins.files ▸ List.mem_map_of_mem hx⟩
  have hagreement : Agreement base ps ((σ.step (.right st)).world.disk t₁) (τ.world.disk s') := by
    refine hσ.twins.agreement.of_frame hout hout' hconfined.sound hframe fun x hx => ?_
    obtain ⟨h, h', hid, -, hh⟩ := hσ.twins.agreement.paired.related x hx
    have houtside : h.Outside other := fun ho j hj =>
      Key.not_within_of_apart hout hout' (hh.within ho j hj)
    exact (hafter.spared x.id h hid houtside (hσ.distinct x.id (hhas x hx))).trans hid.symm
  refine ⟨t₁, ⟨ht₁, hσ.twins.store', hagreement, hσ.twins.systems, hσ.twins.views,
    hσ.twins.files, hσ.twins.files'⟩, hconfined, ?_, ?_⟩
  · rintro id (hid | hid)
    · exact Nat.lt_of_lt_of_le (hσ.bound id (.inl hid)) hafter.length_le
    · rcases hafter.has id hid with hid | ⟨-, hlt⟩
      · exact Nat.lt_of_lt_of_le (hσ.bound id (.inr hid)) hafter.length_le
      · exact hlt
  · intro id hleft hid
    rcases hafter.has id hid with hid | ⟨rfl, -⟩
    · exact hσ.distinct id hleft hid
    · exact absurd (hσ.bound _ (.inl hleft)) (Nat.lt_irrefl _)

/-- However their steps are put in order, those of the first caller come to the same without those
of the second, and what is below its key is the same in the end. -/
theorem run (hσ : σ.Apart τ m base other ps s s') (hout : Key.within base other = false)
    (hout' : Key.within other base = false) {turns : List Turn}
    (hturns : ∀ t ∈ turns, t.step.Descends ∧ t.step.draws = false) :
    List.Forall₂ OutcomeAlike (σ.leftOutcomes turns)
        ((τ.run (turns.filterMap Turn.left?)).map Prod.fst) ∧
      ∃ ps' t t', (σ.after turns).Apart (τ.after (turns.filterMap Turn.left?)) m base other ps'
        t t' := by
  -- induction on the steps: whoever makes one, the callers stay apart
  induction turns generalizing σ τ ps s s' with
  | nil => exact ⟨.nil, ps, s, s', hσ⟩
  | cons turn turns ih =>
    obtain ⟨hst, hdraws⟩ := hturns turn List.mem_cons_self
    have hrest := fun t ht => hturns t (List.mem_cons_of_mem _ ht)
    cases turn with
    | left st =>
      obtain ⟨houtcome, ps', t, t', hnext⟩ := hσ.step_left hout hout' hst hdraws
      obtain ⟨houtcomes, hafter⟩ := ih hnext hrest
      exact ⟨.cons houtcome houtcomes, hafter⟩
    | right st =>
      obtain ⟨t, hnext⟩ := hσ.step_right hout hout' hst
      exact ih hnext hrest

end Apart

/-- Two views of a filesystem in memory from bases that are not at or below one another do not
interfere: whatever is done through the one, the steps through the other come to what they come to
on their own, and in the end the same stands at and below its base. -/
theorem leftOutcomes_alike {w : World} {m : Nat} {s : Store} (hm : w.stores[m]? = some s)
    (hs : Reachable s) {a b : String} (hout : Key.within (Key.resolve a) (Key.resolve b) = false)
    (hout' : Key.within (Key.resolve b) (Key.resolve a) = false) {turns : List Turn}
    (hturns : ∀ t ∈ turns, t.step.Descends ∧ t.step.draws = false) :
    List.Forall₂ OutcomeAlike ((views w m a b).leftOutcomes turns)
        (((views w m a b).left.run (turns.filterMap Turn.left?)).map Prod.fst) ∧
      ∃ t t', ((views w m a b).after turns).world.stores[m]? = some t ∧
        ((views w m a b).left.after (turns.filterMap Turn.left?)).world.stores[m]? = some t' ∧
        ∀ k, Key.within (Key.resolve a) k = true →
          (t.tree.get? k).map Entry.timeless = (t'.tree.get? k).map Entry.timeless := by
  have hview : ∀ b : String, ∀ fs ∈ [FileSystem.view (.memory m .plain) b],
      ∃ b', fs = .view (.memory m .plain) b' ∧ Key.within (Key.resolve b) (Key.resolve b') = true :=
    fun b fs hfs => ⟨b, List.mem_singleton.1 hfs, Key.within_self _⟩
  have hagreement : Agreement (Key.resolve a) [] (w.disk s) (w.disk s) :=
    { entries := fun _ _ => rfl
      paired := .nil _ _ _
      sound := hs.sound
      sound' := hs.sound
      above := fun _ _ => Iff.rfl }
  have hapart : (views w m a b).Apart (views w m a b).left m (Key.resolve a) (Key.resolve b) []
      s s :=
    { twins := ⟨hm, hm, hagreement, rfl, hview a, rfl, rfl⟩
      confined := ⟨hm, hs.sound, hview b, fun f hf => by cases hf⟩
      bound := by rintro id (⟨_, _, hid⟩ | ⟨_, _, hid⟩) <;> cases hid
      distinct := by
        rintro id ⟨_, _, hid⟩
        cases hid }
  obtain ⟨houtcomes, ps', t, t', hafter⟩ := hapart.run hout hout' hturns
  exact ⟨houtcomes, t, t', hafter.twins.store, hafter.twins.store',
    hafter.twins.agreement.entries⟩

/-- Two views next to one another, in a directory that either may be the first to make. -/
theorem leftOutcomes_alike_siblings :
    let s := (Memory.after (Event.call (.create "f")).run ⟨.empty 0, 0, {}⟩).store
    let w : World := { stores := [s], host := { tree := ⟨[]⟩ } }
    let turns : List Turn := [.right (.call 0 (.create "x")), .left (.call 0 (.create "x")),
      .right (.use 0 (.write [1])), .left (.use 0 (.write [2])), .left (.dir 0 "d"),
      .right (.call 0 (.rename "x" "y")), .left (.call 0 (.rename "x" "d/x")),
      .right (.use 0 .close), .left (.use 0 .flush), .right (.call 0 (.remove "y")),
      .left (.call 1 (.list "")), .left (.call 0 (.remove "d"))]
    (Key.within (Key.resolve "p/a") (Key.resolve "/p/a/../ab") = false ∧
        Key.within (Key.resolve "/p/a/../ab") (Key.resolve "p/a") = false ∧
        ∀ t ∈ turns, t.step.Descends ∧ t.step.draws = false) ∧
      List.Forall₂ OutcomeAlike ((views w 0 "p/a" "/p/a/../ab").leftOutcomes turns)
        (((views w 0 "p/a" "/p/a/../ab").left.run (turns.filterMap Turn.left?)).map Prod.fst) ∧
      ∃ t t', ((views w 0 "p/a" "/p/a/../ab").after turns).world.stores[0]? = some t ∧
        ((views w 0 "p/a" "/p/a/../ab").left.after
          (turns.filterMap Turn.left?)).world.stores[0]? = some t' ∧
        ∀ k, Key.within (Key.resolve "p/a") k = true →
          (t.tree.get? k).map Entry.timeless = (t'.tree.get? k).map Entry.timeless := by
  intro s w turns
  have hm : w.stores[0]? = some s := rfl
  have hs : Reachable s := .step (.new 0) 0 {} _
  have hout : Key.within (Key.resolve "p/a") (Key.resolve "/p/a/../ab") = false := by decide
  have hout' : Key.within (Key.resolve "/p/a/../ab") (Key.resolve "p/a") = false := by decide
  have hturns : ∀ t ∈ turns, t.step.Descends ∧ t.step.draws = false := by decide
  exact ⟨⟨hout, hout', hturns⟩, leftOutcomes_alike hm hs hout hout' hturns⟩

end Duo

end RootedFS
