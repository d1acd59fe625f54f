import RootedFS.Proofs.Memory.Sound
import RootedFS.Proofs.Session

/-!
# What stays outside a view

Calls through a view of the filesystem in memory, through views of that view, and through the
handles that they give out reach nothing outside the view's base, as long as no path climbs: entries
that are neither the base nor below it stay as they are, nothing new appears outside but directories
that lead to the base, and handles on files outside stay on these.

## Main definitions

* `Store.Frame`: the entries and handles of a store outside a key are as they were
* `Call.Within`: the paths of a call lead to a key or below it
* `Step.Descends`: a step that climbs nowhere
* `Session.Confined`: the filesystems and handles of a session belong to what is below a key

## Main results

* `CallOutcome.frame`: a call whose paths lead below a key leaves all outside as it is
* `Session.frame_after`: so does a session that begins with a view
-/

namespace RootedFS

open Memory Tree

namespace Key

variable {base j k : Key}

theorem within_iff_isPrefix : within base k = true ↔ base <+: k := by
  rw [within_iff]
  exact exists_congr fun rest => eq_comm

/-- What lies below a key that lies below another lies below that. -/
theorem within_trans (hj : within base j = true) (hk : within j k = true) :
    within base k = true := by
  rw [within_iff_isPrefix] at hj hk ⊢
  exact hj.trans hk

/-- The way to a key below another passes that on the way down. -/
theorem prefix_or_within_of_mem_steps {rest : Key} (h : j ∈ steps (base ++ rest)) :
    j <+: base ∨ within base j = true := by
  rw [within_iff_isPrefix]
  exact List.prefix_or_prefix_of_prefix (mem_steps.1 h).2 (List.prefix_append base rest)

/-- The way to the parent of a key at or below another begins on the way to that. -/
theorem prefix_or_within_of_mem_steps_parent (hk : within base k = true)
    (h : j ∈ steps (parent k)) : j <+: base ∨ within base j = true := by
  obtain ⟨rest, rfl⟩ := within_iff.1 hk
  have hmem : j ∈ steps (base ++ rest) :=
    mem_steps.2 ⟨(mem_steps.1 h).1, (mem_steps.1 h).2.trans (List.dropLast_prefix _)⟩
  exact prefix_or_within_of_mem_steps hmem

end Key

/-- The paths of a call lead to a key or below it, and the lead of a temporary name has no slash. -/
def Call.Within (base : Key) : Call → Prop
  | .create path | .openRead path | .openFile path _ _ | .remove path | .makeDirectories path _
  | .stat path | .list path => Key.within base (Key.resolve path) = true
  | .createTemp directory lead =>
    Key.within base (Key.resolve directory) = true ∧ '/' ∉ lead.toList
  | .rename path target =>
    Key.within base (Key.resolve path) = true ∧ Key.within base (Key.resolve target) = true

namespace Memory.Store

/-- Outside a key, the entries and handles of a store are as they were, but for directories that
lead to the key. -/
structure Frame (base : Key) (s s' : Store) : Prop where
  /-- The entries outside are as they were. -/
  kept : ∀ k e, Key.within base k = false → s.tree.get? k = some e → s'.tree.get? k = some e
  /-- Nothing new is outside but directories that lead to the key. -/
  made : ∀ k, Key.within base k = false → s.tree.get? k = none → (s'.tree.get? k).isSome = true →
    k <+: base ∧ s'.tree.IsDirectory k
  /-- The handles on files outside are on the same files. -/
  attached : ∀ (id : Nat) (h : Handle) k, s.handles[id]? = some h → h.key = some k →
    Key.within base k = false → ∃ h' : Handle, s'.handles[id]? = some h' ∧ h'.key = some k
  /-- No other open handle is on a file outside. -/
  others : ∀ (id : Nat) (h' : Handle) k, s'.handles[id]? = some h' → h'.closed = false →
    h'.key = some k → Key.within base k = false →
      ∃ h : Handle, s.handles[id]? = some h ∧ h.closed = false ∧ h.key = some k

namespace Frame

variable {base : Key} {s s' s'' : Store}

protected theorem rfl : Frame base s s where
  kept _ _ _ h := h
  made k _ hnone hsome := by
    rw [hnone] at hsome
    cases hsome
  attached id h k hid hkey _ := ⟨h, hid, hkey⟩
  others id h k hid ho hkey _ := ⟨h, hid, ho, hkey⟩

theorem trans (h : Frame base s s') (h' : Frame base s' s'') : Frame base s s'' where
  kept k e hk he := h'.kept k e hk (h.kept k e hk he)
  made k hk hnone hsome := by
    cases hmid : s'.tree.get? k with
    | none => exact h'.made k hk hmid hsome
    | some e =>
      obtain ⟨hpre, hdir⟩ := h.made k hk hnone (by rw [hmid]; rfl)
      exact ⟨hpre, (IsDirectory.congr ((h'.kept k e hk hmid).trans hmid.symm)).2 hdir⟩
  attached id g k hid hkey hk := by
    obtain ⟨g', hid', hkey'⟩ := h.attached id g k hid hkey hk
    exact h'.attached id g' k hid' hkey' hk
  others id g k hid ho hkey hk := by
    obtain ⟨g', hid', ho', hkey'⟩ := h'.others id g k hid ho hkey hk
    exact h.others id g' k hid' ho' hkey' hk

/-- The entries at and below the key change, and nothing else. -/
theorem of_get? (hget : ∀ k, Key.within base k = false → s'.tree.get? k = s.tree.get? k)
    (hhandles : s'.handles = s.handles) : Frame base s s' where
  kept k e hk he := (hget k hk).trans he
  made k hk hnone hsome := by
    rw [hget k hk, hnone] at hsome
    cases hsome
  attached id h k hid hkey _ := ⟨h, by rwa [hhandles], hkey⟩
  others id h k hid ho hkey _ := ⟨h, by rwa [← hhandles], ho, hkey⟩

/-- The entries at and below the key change, and each handle changes, but those on files outside. -/
theorem of_map {f : Handle → Handle}
    (hget : ∀ k, Key.within base k = false → s'.tree.get? k = s.tree.get? k)
    (hhandles : s'.handles = s.handles.map f)
    (hstay : ∀ (h : Handle) k, h.key = some k → Key.within base k = false →
      (f h).key = some k)
    (hcome : ∀ (h : Handle) k, (f h).closed = false → (f h).key = some k →
      Key.within base k = false → h.closed = false ∧ h.key = some k) : Frame base s s' where
  kept k e hk he := (hget k hk).trans he
  made k hk hnone hsome := by
    rw [hget k hk, hnone] at hsome
    cases hsome
  attached id h k hid hkey hk :=
    ⟨f h, by rw [hhandles, List.getElem?_map, hid]; rfl, hstay h k hkey hk⟩
  others id g k hid ho hkey hk := by
    rw [hhandles, List.getElem?_map] at hid
    obtain ⟨h, hid', rfl⟩ := Option.map_eq_some_iff.1 hid
    exact ⟨h, hid', hcome h k ho hkey hk⟩

end Frame

end Memory.Store

/-! ## Changes below a key -/

namespace Memory

open Store

section

variable {base k src dst : Key} {d : Disk}

/-- A handle on another file stays on it when a file goes. -/
theorem Handle.key_detach_of_ne {h : Handle} {j : Key} (hkey : h.key = some j) (hne : j ≠ k) :
    (h.detach k).key = some j := by
  rw [Handle.detach, hkey, if_neg]
  · exact hkey
  · simp [hne]

/-- A handle on a file that does not move stays on it. -/
theorem Handle.key_follow_of_not_within {h : Handle} {j : Key} (hkey : h.key = some j)
    (hj : Key.within src j = false) : (h.follow src dst).key = some j := by
  rw [Handle.follow]
  split
  · exact hkey
  · rw [hkey, Option.map_some, rebase_of_below?_eq_none (Key.within_eq_false_iff.1 hj)]

theorem not_within_of_within {j : Key} (hsrc : Key.within base src = true)
    (hj : Key.within base j = false) : Key.within src j = false := by
  by_contra hin
  rw [Bool.not_eq_false] at hin
  rw [Key.within_trans hsrc hin] at hj
  cases hj

/-- A handle on a file outside was there before what is below a key has moved. -/
theorem Handle.key_of_key_follow {h : Handle} {j : Key} (hdst : Key.within base dst = true)
    (ho : (h.follow src dst).closed = false) (hkey : (h.follow src dst).key = some j)
    (hj : Key.within base j = false) : h.closed = false ∧ h.key = some j := by
  obtain ⟨hho, i, hi, rfl⟩ := Handle.key_follow ho hkey
  refine ⟨hho, ?_⟩
  cases hin : Key.within src i with
  | true =>
    obtain ⟨rest, rfl⟩ := Key.within_iff.1 hin
    rw [rebase_append, Key.within_trans hdst (Key.within_append dst rest)] at hj
    cases hj
  | false => rwa [rebase_of_below?_eq_none (Key.within_eq_false_iff.1 hin)]

theorem frame_addDirectories {keys : List Key} (hs : d.store.InStep)
    (hkeys : ∀ j ∈ keys, j <+: base ∨ Key.within base j = true) (perm : Int) :
    Frame base d.store (d.addDirectories perm keys).store where
  kept j e _ he := by
    rw [Disk.get?_addDirectories_of_isSome perm hs (by rw [he]; rfl), he]
  made j hj hnone hsome := by
    by_cases hmem : j ∈ keys
    · obtain ⟨now, hnow⟩ := Disk.get?_addDirectories_of_mem perm hs hmem hnone
      refine ⟨(hkeys j hmem).resolve_right ?_, isDirectory_of_get? hnow⟩
      rw [hj]
      decide
    · rw [Disk.get?_addDirectories_of_not_mem perm hs hmem, hnone] at hsome
      cases hsome
  attached id h j hid hkey _ := ⟨h, by rwa [Disk.addDirectories_handles], hkey⟩
  others id h j hid ho hkey _ := ⟨h, by rwa [Disk.addDirectories_handles] at hid, ho, hkey⟩

theorem frame_putFile (hk : Key.within base k = true) (content : Bytes) (mode : Nat) :
    Frame base d.store (d.putFile k content mode).store := by
  refine .of_get? ?_ rfl
  intro j hj
  rw [Disk.get?_putFile, if_neg]
  rintro rfl
  rw [hk] at hj
  cases hj

theorem frame_addHandle {h : Handle} (hkey : h.key = some k) (hk : Key.within base k = true) :
    Frame base d.store (d.addHandle h).store where
  kept _ _ _ he := he
  made _ _ hnone hsome := Frame.rfl.made _ ‹_› hnone hsome
  attached id g j hid hg _ := by
    obtain ⟨hlt, -⟩ := List.getElem?_eq_some_iff.1 hid
    exact ⟨g, (List.getElem?_append_left hlt).trans hid, hg⟩
  others id g j hid ho hg hj := by
    rcases getElem?_concat_eq_some hid with ⟨-, hid⟩ | ⟨-, rfl⟩
    · exact ⟨g, hid, ho, hg⟩
    · rw [hkey] at hg
      rw [← Option.some.inj hg, hk] at hj
      cases hj

theorem frame_setHandle {id : Nat} {h h' : Handle} (hid : d.store.handles[id]? = some h)
    (hkey : h'.key = h.key) (hclosed : h.closed = true → h'.closed = true) :
    Frame base d.store (d.setHandle id h').store where
  kept _ _ _ he := he
  made _ _ hnone hsome := Frame.rfl.made _ ‹_› hnone hsome
  attached i g j hi hg _ := by
    rw [Disk.setHandle_handles, List.getElem?_set]
    split
    · rename_i heq
      subst heq
      obtain ⟨hlt, -⟩ := List.getElem?_eq_some_iff.1 hid
      rw [hid] at hi
      cases hi
      exact ⟨h', if_pos hlt, hkey.trans hg⟩
    · exact ⟨g, hi, hg⟩
  others i g j hi ho hg _ := by
    rw [Disk.setHandle_handles, List.getElem?_set] at hi
    split at hi
    · rename_i heq
      subst heq
      split at hi
      · cases hi
        refine ⟨h, hid, ?_, hkey.symm.trans hg⟩
        by_contra hh
        rw [hclosed (by simpa using hh)] at ho
        cases ho
      · cases hi
    · exact ⟨g, hi, ho, hg⟩

theorem frame_eraseFile (hk : Key.within base k = true) :
    Frame base d.store ((d.mapStore (·.eraseFile k)).mapHandles (Handle.detach k)).store := by
  have hne : ∀ j, Key.within base j = false → j ≠ k := by
    rintro j hj rfl
    rw [hk] at hj
    cases hj
  have hget := fun j => get?_tree_eraseFile d.store k j
  refine .of_map (fun j hj => (hget j).trans (if_neg (hne j hj))) rfl
    (fun h j hkey hj => Handle.key_detach_of_ne hkey (hne j hj)) ?_
  intro h j ho hkey _
  obtain ⟨hho, hhkey, -⟩ := Handle.key_detach ho hkey
  exact ⟨hho, hhkey⟩

theorem frame_eraseDirectory (hk : Key.within base k = true) :
    Frame base d.store (d.mapStore (·.eraseDirectory k)).store := by
  have hget := fun j => get?_tree_eraseDirectory d.store k j
  refine .of_get? (fun j hj => (hget j).trans (if_neg ?_)) rfl
  rintro rfl
  rw [hk] at hj
  cases hj

/-- Moving from below a key to below that key leaves all outside where it is. -/
theorem Store.Moved.get?_of_not_within {s s' : Store} {j : Key} (hmoved : Store.Moved s s' src dst)
    (hsrc : Key.within base src = true) (hdst : Key.within base dst = true)
    (hj : Key.within base j = false) : s'.tree.get? j = s.tree.get? j := by
  rw [hmoved.other j (not_within_of_within hdst hj), if_neg]
  rw [not_within_of_within hsrc hj]
  decide

theorem frame_movedFile (hmove : FileMove d src dst)
    (hsrc : Key.within base src = true) (hdst : Key.within base dst = true) :
    Frame base d.store (((d.mapHandles (Handle.detach dst)).mapStore
      (Store.movedFile src dst)).mapHandles (Handle.follow src dst)).store := by
  have hmoved := hmove.moved
  have hget := fun j => hmoved.get?_of_not_within (j := j) hsrc hdst
  refine .of_map (f := fun h => (h.detach dst).follow src dst) hget ?_ ?_
    ?_
  · simp [hmoved.handles]
  · intro h j hkey hj
    refine Handle.key_follow_of_not_within (Handle.key_detach_of_ne hkey ?_)
      (not_within_of_within hsrc hj)
    rintro rfl
    rw [hdst] at hj
    cases hj
  · intro h j ho hkey hj
    obtain ⟨hho, hhkey⟩ := Handle.key_of_key_follow hdst ho hkey hj
    obtain ⟨hho, hhkey, -⟩ := Handle.key_detach hho hhkey
    exact ⟨hho, hhkey⟩

theorem frame_movedAll (hmove : DirectoryMove d src dst)
    (hsrc : Key.within base src = true) (hdst : Key.within base dst = true) :
    Frame base d.store ((d.mapStore (Store.movedAll src dst)).mapHandles
      (Handle.follow src dst)).store := by
  have hmoved := hmove.moved
  have hget := fun j => hmoved.get?_of_not_within (j := j) hsrc hdst
  refine .of_map (f := Handle.follow src dst) hget (by simp [hmoved.handles])
    (fun h j hkey hj => Handle.key_follow_of_not_within hkey (not_within_of_within hsrc hj))
    fun h j ho hkey hj => Handle.key_of_key_follow hdst ho hkey hj

/-! ## Calls below a key -/

variable {path : String} {flags : OpenFlags} {perm : Int}

theorem DirectoriesOutcome.frame {r} (hs : d.store.Sound) (hk : Key.within base k = true)
    (h : DirectoriesOutcome d k perm r) : Frame base d.store (diskOf r).store := by
  cases h with
  | blocked hj hfile => exact .rfl
  | made hfree =>
    obtain ⟨rest, rfl⟩ := Key.within_iff.1 hk
    exact frame_addDirectories hs.inStep (fun j => Key.prefix_or_within_of_mem_steps) perm

theorem OpenOutcome.frame {r} (hs : d.store.Sound) (hk : Key.within base k = true)
    (h : OpenOutcome d k path flags perm r) : Frame base d.store (diskOf r).store := by
  cases h with
  | emptied h hx ht => exact (frame_putFile hk _ _).trans (frame_addHandle rfl hk)
  | kept h hx ht => exact frame_addHandle rfl hk
  | made h hc hfree =>
    have hdirs : Frame base d.store (d.addDirectories defaultPerm k.parent.steps).store :=
      frame_addDirectories hs.inStep (fun j => Key.prefix_or_within_of_mem_steps_parent hk) _
    exact (hdirs.trans (frame_putFile hk _ _)).trans (frame_addHandle rfl hk)
  | _ => exact .rfl

theorem TempOutcome.frame {directory lead : String} {r} (hs : d.store.Sound)
    (hk : Key.within base (Key.resolve directory) = true) (hlead : '/' ∉ lead.toList)
    (h : TempOutcome d directory lead r) : Frame base d.store (diskOf r).store := by
  have hcandidate : ∀ n, Key.within base (Key.resolve (candidate directory lead n)) = true := by
    intro n
    rw [resolve_candidate hlead]
    exact Key.within_trans hk (Key.within_append _ _)
  have hdirs : Frame base d.store
      (d.addDirectories defaultPerm (Key.resolve directory).steps).store := by
    obtain ⟨rest, hrest⟩ := Key.within_iff.1 hk
    rw [hrest]
    exact frame_addDirectories hs.inStep (fun j => Key.prefix_or_within_of_mem_steps) _
  cases h with
  | blocked hj h => exact .rfl
  | exhausted hfree hsearch => exact hdirs
  | failed hfree hsearch h | opened hfree hsearch h =>
    exact hdirs.trans (h.frame (sound_tempDirectory hs hfree _) (hcandidate _))

theorem RenameOutcome.frame {target : String} {r} (hs : d.store.Sound)
    (hsrc : Key.within base src = true) (hdst : Key.within base dst = true)
    (hnames : ∀ a ∈ dst, Path.IsName a) (h : RenameOutcome d src dst path target r) :
    Frame base d.store (diskOf r).store := by
  have hdirs : Frame base d.store (d.addDirectories defaultPerm dst.parent.steps).store :=
    frame_addDirectories hs.inStep (fun j => Key.prefix_or_within_of_mem_steps_parent hdst) _
  cases h with
  | fileMoved hne hfile hnot hfree =>
    have hmove := fileMove hs hnames hne hfile hnot hfree
    exact hdirs.trans (frame_movedFile hmove hsrc hdst)
  | directoryMoved hroot hdir hnot hout hchildren hfree =>
    have hmove := directoryMove hs hnames hroot hdir hnot hout hchildren hfree
    exact hdirs.trans (frame_movedAll hmove hsrc hdst)
  | _ => exact .rfl

theorem RemoveOutcome.frame {r} (hk : Key.within base k = true) (h : RemoveOutcome d k path r) :
    Frame base d.store (diskOf r).store := by
  cases h with
  | file h => exact frame_eraseFile hk
  | directory hroot h hchildren => exact frame_eraseDirectory hk
  | _ => exact .rfl

/-- A call whose paths lead below a key leaves all outside as it is. -/
theorem CallOutcome.frame {c : Call} {r} (hs : d.store.Sound) (hc : c.Within base)
    (h : CallOutcome d c r) : Frame base d.store (diskOf r).store := by
  cases h with
  | create h | openRead h | openFile h => simpa using h.frame hs hc
  | createTemp h => simpa using h.frame hs hc.1 hc.2
  | rename h => simpa using h.frame hs hc.1 hc.2 (Path.isName_resolve _)
  | remove h => simpa using h.frame hc
  | makeDirectories h => simpa using h.frame hs hc
  | stat h | list h => cases h <;> exact .rfl

/-- A call on a handle that is on no file outside leaves all outside as it is. -/
theorem use_frame {id : Nat} (c : HandleCall)
    (hin : ∀ (h : Handle) j, d.store.handles[id]? = some h → h.closed = false → h.key = some j →
      Key.within base j = true) : Frame base d.store (after (use id c) d).store := by
  cases hid : d.store.handles[id]? with
  | none =>
    rw [after, run_use_none hid]
    exact .rfl
  | some h =>
    have hframe := h.use_frame c
    have hcommitted : Frame base d.store (d.committed h c).store := by
      unfold Disk.committed
      split
      · rename_i j hj
        split
        · rename_i hcommits
          exact frame_putFile (hin h j hid (Handle.open_of_commits hcommits) hj) _ _
        · exact .rfl
      · exact .rfl
    rw [after_use hid]
    exact hcommitted.trans
      (frame_setHandle (by rwa [Disk.committed_handles]) hframe.1 hframe.2.2.2)

/-- The new handle of a call through a view is a new handle of the store. -/
theorem CallOutcome.files_viewed {m : Nat} {b : String} {g : String → String} {c : Call} {r}
    {a : Answer (Nat × String)} {e : Disk} (h : CallOutcome d (c.translate g) r)
    (hr : r = .ok a e) {f : File} (hf : f ∈ (viewed m b c a).files) :
    ∃ name inner, f = .renamed name (.memory m d.store.handles.length inner) := by
  cases c with
  | create path | openRead path | openFile path flags perm =>
    cases h
    rename_i r h
    cases r with
    | error f e => cases hr
    | ok id e =>
      cases hr
      rw [List.mem_singleton.1 hf, ← h.number_of_ok]
      exact ⟨_, _, rfl⟩
  | createTemp directory lead =>
    cases h
    rename_i r h
    cases r with
    | error f e => cases hr
    | ok x e =>
      cases hr
      rw [List.mem_singleton.1 hf, ← h.number_of_ok]
      exact ⟨_, _, rfl⟩
  | rename path target | remove path | makeDirectories path perm | stat path | list path =>
    cases h
    rename_i r h
    cases r <;> cases hr
    cases hf

end

end Memory

/-! ## Sessions that begin with a view -/

/-- The paths of a call do not climb, and the lead of a temporary name has no slash. -/
def Call.Descends : Call → Prop
  | .create path | .openRead path | .openFile path _ _ | .remove path | .makeDirectories path _
  | .stat path | .list path => Path.climbs path = false
  | .createTemp directory lead => Path.climbs directory = false ∧ '/' ∉ lead.toList
  | .rename path target => Path.climbs path = false ∧ Path.climbs target = false

instance (c : Call) : Decidable c.Descends :=
  match c with
  | .create path | .openRead path | .openFile path _ _ | .remove path | .makeDirectories path _
  | .stat path | .list path => inferInstanceAs (Decidable (Path.climbs path = false))
  | .createTemp directory lead =>
    inferInstanceAs (Decidable (Path.climbs directory = false ∧ '/' ∉ lead.toList))
  | .rename path target =>
    inferInstanceAs (Decidable (Path.climbs path = false ∧ Path.climbs target = false))

/-- The paths of a step do not climb. -/
def Step.Descends : Step → Prop
  | .call _ c => c.Descends
  | .dir _ path => Path.climbs path = false
  | .use _ _ => True

instance (st : Step) : Decidable st.Descends :=
  match st with
  | .call _ c => inferInstanceAs (Decidable c.Descends)
  | .dir _ path => inferInstanceAs (Decidable (Path.climbs path = false))
  | .use _ _ => inferInstanceAs (Decidable True)

/-- A path that does not climb leads from a base at or below a key to that key or below it. -/
theorem within_resolve_join {base : Key} {b path : String}
    (hb : Key.within base (Key.resolve b) = true) (hpath : Path.climbs path = false) :
    Key.within base (Key.resolve (Path.join [b, path])) = true := by
  rw [Path.resolve_join_of_not_climbs b hpath]
  exact Key.within_trans hb (Key.within_append _ _)

theorem Call.Descends.within {c : Call} {base : Key} {b : String} (hc : c.Descends)
    (hb : Key.within base (Key.resolve b) = true) :
    (c.translate fun path => Path.join [b, path]).Within base := by
  cases c with
  | createTemp directory lead => exact ⟨within_resolve_join hb hc.1, hc.2⟩
  | rename path target => exact ⟨within_resolve_join hb hc.1, within_resolve_join hb hc.2⟩
  | _ => exact within_resolve_join hb hc

namespace Session

/-- The filesystems of a session are views of the store with a number from a key or from below it,
and its handles are on no file outside. -/
structure Confined (σ : Session) (m : Nat) (base : Key) (s : Store) : Prop where
  store : σ.world.stores[m]? = some s
  sound : s.Sound
  systems : ∀ fs ∈ σ.systems, ∃ b, fs = .view (.memory m .plain) b ∧
    Key.within base (Key.resolve b) = true
  files : ∀ f ∈ σ.files, ∃ name inner id, f = .renamed name (.memory m id inner) ∧
    ∀ (h : Handle) k, s.handles[id]? = some h → h.closed = false → h.key = some k →
      Key.within base k = true

variable {σ : Session} {m : Nat} {base : Key} {s : Store}

/-- A session stays confined while the store changes below the key, with new handles of it. -/
theorem Confined.putDisk (hσ : σ.Confined m base s) {d : Disk} (hsound : d.store.Sound)
    (hframe : Store.Frame base s d.store) {files : List File}
    (hfiles : ∀ f ∈ files, ∃ name inner, f = .renamed name (.memory m s.handles.length inner)) :
    (⟨σ.world.putDisk m d, σ.systems, σ.files ++ files⟩ : Session).Confined m base d.store where
  store := World.stores_putDisk hσ.store d
  sound := hsound
  systems := hσ.systems
  files := by
    intro f hf
    rcases List.mem_append.1 hf with hf | hf
    · obtain ⟨name, inner, id, rfl, hin⟩ := hσ.files f hf
      refine ⟨name, inner, id, rfl, ?_⟩
      intro h k hid ho hkey
      by_contra hk
      rw [Bool.not_eq_true] at hk
      obtain ⟨h', hid', ho', hkey'⟩ := hframe.others id h k hid ho hkey hk
      rw [hin h' k hid' ho' hkey'] at hk
      cases hk
    · obtain ⟨name, inner, rfl⟩ := hfiles f hf
      refine ⟨name, inner, _, rfl, ?_⟩
      intro h k hid ho hkey
      by_contra hk
      rw [Bool.not_eq_true] at hk
      obtain ⟨h', hid', -⟩ := hframe.others _ h k hid ho hkey hk
      rw [List.getElem?_eq_none (Nat.le_refl _)] at hid'
      cases hid'

/-- A session stays confined while the store changes below the key, with the same handles. -/
theorem Confined.putDisk_same (hσ : σ.Confined m base s) {d : Disk} (hsound : d.store.Sound)
    (hframe : Store.Frame base s d.store) :
    (⟨σ.world.putDisk m d, σ.systems, σ.files⟩ : Session).Confined m base d.store := by
  have hnone : ∀ f ∈ ([] : List File),
      ∃ name inner, f = .renamed name (.memory m s.handles.length inner) := by simp
  simpa only [List.append_nil] using hσ.putDisk hsound hframe hnone

/-- A step of a confined session leaves all outside as it is, and the session confined. -/
theorem Confined.step (hσ : σ.Confined m base s) {st : Step} (hst : st.Descends) :
    ∃ s', (σ.step st).2.Confined m base s' ∧ Store.Frame base s s' := by
  cases st with
  | call v c =>
    rw [Session.step]
    cases hv : σ.systems[v]? with
    | none => exact ⟨s, hσ, .rfl⟩
    | some fs =>
      obtain ⟨b, rfl, hb⟩ := hσ.systems fs (List.mem_of_getElem? hv)
      have houtcome := callOutcome (d := σ.world.disk s) hσ.sound
        (c.translate fun path => Path.join [b, path])
      have hframe := houtcome.frame hσ.sound (hst.within hb)
      have hsound := houtcome.sound hσ.sound
      have hrun := run_perform_view hσ.store b c
      cases hr : (perform (c.translate fun path => Path.join [b, path])).run (σ.world.disk s) with
      | ok a d =>
        rw [hr] at hrun hframe hsound houtcome
        dsimp only
        rw [hrun]
        exact ⟨_, hσ.putDisk hsound hframe fun f => houtcome.files_viewed rfl, hframe⟩
      | error f d =>
        rw [hr] at hrun hframe hsound
        dsimp only
        rw [hrun]
        exact ⟨_, hσ.putDisk_same hsound hframe, hframe⟩
  | dir v path =>
    rw [Session.step]
    cases hv : σ.systems[v]? with
    | none => exact ⟨s, hσ, .rfl⟩
    | some fs =>
      obtain ⟨b, rfl, hb⟩ := hσ.systems fs (List.mem_of_getElem? hv)
      refine ⟨s, ⟨hσ.store, hσ.sound, ?_, hσ.files⟩, .rfl⟩
      intro fs' hfs'
      rcases List.mem_append.1 hfs' with hfs' | hfs'
      · exact hσ.systems fs' hfs'
      · rw [List.mem_singleton.1 hfs']
        exact ⟨_, rfl, within_resolve_join hb hst⟩
  | use i c =>
    rw [Session.step]
    cases hi : σ.files[i]? with
    | none => exact ⟨s, hσ, .rfl⟩
    | some f =>
      obtain ⟨name, inner, id, rfl, hin⟩ := hσ.files f (List.mem_of_getElem? hi)
      have hframe := use_frame (d := σ.world.disk s) c hin
      have hsound := use_sound (d := σ.world.disk s) hσ.sound id c
      have hσ' := hσ.putDisk_same hsound hframe
      have hrun := run_use_renamed hσ.store name inner id c
      dsimp only
      rw [hrun]
      rw [Memory.after] at hσ' hframe
      cases hr : (use id c).run (σ.world.disk s) with
      | ok a d =>
        rw [hr] at hσ' hframe
        exact ⟨_, hσ', hframe⟩
      | error f d =>
        rw [hr] at hσ' hframe
        exact ⟨_, hσ', hframe⟩

/-- A confined session leaves all outside as it is. -/
theorem Confined.after (hσ : σ.Confined m base s) {steps : List Step}
    (hsteps : ∀ st ∈ steps, st.Descends) :
    ∃ s', (σ.after steps).Confined m base s' ∧ Store.Frame base s s' := by
  -- induction on the steps: each leaves a confined session, and frames go after one another
  induction steps generalizing σ s with
  | nil => exact ⟨s, hσ, .rfl⟩
  | cons st steps ih =>
    obtain ⟨s', hσ', hframe⟩ := hσ.step (hsteps st List.mem_cons_self)
    obtain ⟨s'', hσ'', hframe'⟩ := ih hσ' fun st hst => hsteps st (List.mem_cons_of_mem _ hst)
    exact ⟨s'', hσ'', hframe.trans hframe'⟩

/-- The key of a view's base is that of the base joined to the top. -/
theorem resolve_join_top (b : String) : Key.resolve (Path.join ["/", b]) = Key.resolve b := by
  rw [Path.join_top, Path.resolve_toString (Path.isName_resolve b)]

/-- Whatever is done through a view of a filesystem in memory, through views of that view and
through their handles, without climbing, leaves all outside the view's base as it is, but for the
directories that lead to the base. -/
theorem frame_after {w : World} {s : Store} (hm : w.stores[m]? = some s) (hs : Reachable s)
    (b : String) {steps : List Step} (hsteps : ∀ st ∈ steps, st.Descends) :
    ∃ s', ((⟨w, [.view (.memory m .plain) b], []⟩ : Session).after steps).world.stores[m]? =
        some s' ∧ Store.Frame (Key.resolve (Path.join ["/", b])) s s' := by
  have hconfined : (⟨w, [.view (.memory m .plain) b], []⟩ : Session).Confined m
      (Key.resolve (Path.join ["/", b])) s := by
    refine ⟨hm, hs.sound, fun fs hfs => ⟨b, List.mem_singleton.1 hfs, ?_⟩, fun f hf => by cases hf⟩
    rw [resolve_join_top, Key.within_self]
  obtain ⟨s', hσ', hframe⟩ := hconfined.after hsteps
  exact ⟨s', hσ'.store, hframe⟩

/-- A view of a directory that is missing, next to a directory whose name begins alike. -/
theorem frame_after_sibling :
    let s := (Memory.after (Event.call (.create "pro-x/f")).run ⟨.empty 0, 0, {}⟩).store
    let w : World := { stores := [s], host := { tree := ⟨[]⟩ } }
    let steps : List Step := [.call 0 (.create "x"), .dir 0 "lib", .use 0 (.write [1]),
      .call 1 (.create "/y"), .call 0 (.rename "x" "lib/../z"), .use 0 .close]
    (s.files.keys = [["pro-x", "f"]] ∧ ∀ st ∈ steps, st.Descends) ∧
      ∃ s', ((⟨w, [.view (.memory 0 .plain) "a/../pro"], []⟩ : Session).after
          steps).world.stores[0]? = some s' ∧
        Store.Frame (Key.resolve (Path.join ["/", "a/../pro"])) s s' := by
  intro s w steps
  have hm : w.stores[0]? = some s := rfl
  have hs : Reachable s := .step (.new 0) 0 {} _
  have hsteps : ∀ st ∈ steps, st.Descends := by decide
  exact ⟨⟨by decide, hsteps⟩, frame_after hm hs _ hsteps⟩

end Session

end RootedFS
