import RootedFS.Proofs.Memory.Failure

/-!
# Files with an identity

A handle knows its file by key. Beside a run of calls, a ledger gives each file an identity of its
own when it is created, carries it along when the file or a directory above it is renamed, and drops
it when the file is removed or replaced; it also notes on which file each handle was opened, and
whether a change has got past the access checks since the handle was flushed. The ledger is kept
from the calls and their answers alone. A handle is on the file that it was opened on, wherever that
has gone, and hands its content to that file and to no other.

## Main definitions

* `Ledger`, `Ledger.record`: the identities of files, and what a call does to them
* `Logged`: the stores that calls lead to, with their ledgers
* `Ledger.Tracks`: keys and handles of a store are those of the ledger

## Main results

* `Ledger.Tracks.step`: a call keeps keys and handles in agreement with the ledger
* `Logged.handles_follow`: handles are on the files they were opened on, and write there and nowhere
  else
-/

namespace RootedFS.Memory

open Tree

/-- What is noted of a handle. -/
structure Hold where
  /-- The identity of the file that it was opened on. -/
  file : Nat
  /-- Whether a change has got past the access checks since the last flush. -/
  pending : Bool
deriving DecidableEq, Repr

/-- The identities of the files of a store, and what is noted of its handles. -/
structure Ledger where
  /-- The identity of the file at a key. -/
  identity : Key → Option Nat
  /-- The identity that the next new file gets. -/
  next : Nat
  /-- What is noted of the handle with a number. -/
  holds : Nat → Option Hold

namespace Ledger

/-- The ledger of a new store. -/
def empty : Ledger where
  identity _ := none
  next := 0
  holds _ := none

/-- A handle has been opened on the file at a key; a file without an identity has been created by
that. -/
def opened (k : Key) (id : Nat) (l : Ledger) : Ledger :=
  match l.identity k with
  | some n => { l with holds := fun i => if i = id then some ⟨n, false⟩ else l.holds i }
  | none =>
    { identity := fun j => if j = k then some l.next else l.identity j
      next := l.next + 1
      holds := fun i => if i = id then some ⟨l.next, false⟩ else l.holds i }

/-- What is at and below `src` has been renamed to `dst`, and takes the place of a file there. -/
def moved (src dst : Key) (l : Ledger) : Ledger :=
  { l with
    identity := fun k =>
      match Key.below? dst k with
      | some rest => l.identity (src ++ rest)
      | none => if Key.within src k then none else l.identity k }

/-- What is at a key has been removed. -/
def removed (k : Key) (l : Ledger) : Ledger :=
  { l with identity := fun j => if j = k then none else l.identity j }

/-- Whether a call on a handle has got past the access checks. -/
def passed : Except Fault (Answer (Nat × String)) → Bool
  | .ok _ => true
  | .error f => !f.isAccess

/-- Whether changes are pending after a call on a handle, if it has ended in a certain way. -/
def pendingAfter (c : HandleCall) (r : Except Fault (Answer (Nat × String))) (pending : Bool) :
    Bool :=
  match c with
  | .write _ | .truncate _ => pending || passed r
  | .flush | .close => pending && !passed r
  | .read _ | .seek _ _ | .tell => pending

/-- A call on a handle has been made. -/
def used (id : Nat) (c : HandleCall) (r : Except Fault (Answer (Nat × String))) (l : Ledger) :
    Ledger :=
  { l with
    holds := fun i =>
      if i = id then (l.holds id).map fun h => { h with pending := pendingAfter c r h.pending }
      else l.holds i }

/-- Records a call that has ended in a certain way. -/
def record (l : Ledger) : Event → Except Fault (Answer (Nat × String)) → Ledger
  | .call (.create path), .ok (.file (id, _)) => l.opened (Key.resolve path) id
  | .call (.openRead path), .ok (.file (id, _)) => l.opened (Key.resolve path) id
  | .call (.openFile path _ _), .ok (.file (id, _)) => l.opened (Key.resolve path) id
  | .call (.createTemp _ _), .ok (.file (id, name)) => l.opened (Key.resolve name) id
  | .call (.rename path target), .ok _ => l.moved (Key.resolve path) (Key.resolve target)
  | .call (.remove path), .ok _ => l.removed (Key.resolve path)
  | .use id c, r => l.used id c r
  | _, _ => l

/-- Keys and handles of a store are those of the ledger. -/
structure Tracks (l : Ledger) (s : Store) : Prop where
  files : ∀ k, (l.identity k).isSome = true ↔ s.tree.IsFile k
  /-- No two files have the same identity. -/
  injective : ∀ j k n, l.identity j = some n → l.identity k = some n → j = k
  /-- Identities are new when they are given. -/
  issued : ∀ k n, l.identity k = some n → n < l.next
  /-- An open handle is on the file with the identity that is noted of it. -/
  holds : ∀ id h, s.handles[id]? = some h → h.closed = false →
    ∃ n, l.holds id = some ⟨n, h.dirty⟩ ∧ n < l.next ∧ ∀ k, h.key = some k ↔ l.identity k = some n

end Ledger

/-- The answer or the fault with which a run ends. -/
def answerOf {α : Type} : EStateM.Result Fault Disk α → Except Fault α
  | .ok a _ => .ok a
  | .error f _ => .error f

/-- The stores that sequences of calls lead to, with the ledgers that were kept of the calls. -/
inductive Logged : Store → Ledger → Prop where
  | new (now : Nat) : Logged (.empty now) .empty
  /-- One more call, whose end is recorded. -/
  | step {s : Store} {l : Ledger} (h : Logged s l) (clock : Nat) (supply : Supply) (e : Event) :
    Logged (after e.run ⟨s, clock, supply⟩).store
      (l.record e (answerOf (e.run.run ⟨s, clock, supply⟩)))

theorem Logged.reachable {s : Store} {l : Ledger} (h : Logged s l) : Reachable s := by
  induction h with
  | new now => exact .new now
  | step h clock supply e ih => exact ih.step clock supply e

/-! ## What each call does to the files and the handles -/

section

variable {d e : Disk} {k : Key} {path : String} {flags : OpenFlags} {perm : Int} {f : Fault}
  {id : Nat}

theorem isFile_putFile {content : Bytes} {mode : Nat} (j : Key) :
    (d.putFile k content mode).store.tree.IsFile j ↔ j = k ∨ d.store.tree.IsFile j := by
  have hget := Disk.get?_putFile d k j content mode
  by_cases hj : j = k
  · rw [if_pos hj] at hget
    exact iff_of_true (isFile_of_get? hget) (.inl hj)
  · rw [if_neg hj] at hget
    rw [IsFile.congr hget, or_iff_right hj]

/-- A file that has been opened is there, and its handle is the last one. -/
theorem OpenOutcome.opened (hs : d.store.Sound) (h : OpenOutcome d k path flags perm (.ok id e)) :
    id = d.store.handles.length ∧ ∃ g : Handle, g.key = some k ∧ g.dirty = false ∧
      e.store.handles = d.store.handles ++ [g] ∧
      ∀ j, e.store.tree.IsFile j ↔ j = k ∨ d.store.tree.IsFile j := by
  cases h with
  | @emptied content mode modified h hx ht =>
    exact ⟨rfl, newHandle k path flags [], rfl, rfl, rfl, isFile_putFile⟩
  | @kept content mode modified h hx ht =>
    refine ⟨rfl, newHandle k path flags content, rfl, rfl, rfl, ?_⟩
    intro j
    refine (or_iff_right_of_imp ?_).symm
    rintro rfl
    exact isFile_of_get? h
  | made h hc hfree =>
    refine ⟨rfl, newHandle k path flags [], rfl, rfl, ?_, ?_⟩
    · simp
    · intro j
      apply (isFile_putFile j).trans
      rw [Disk.isFile_addDirectories defaultPerm hs.inStep]

/-- Files and handles are as they were. -/
structure SameFiles (s s' : Store) : Prop where
  files : ∀ k, s'.tree.IsFile k ↔ s.tree.IsFile k
  handles : s'.handles = s.handles

theorem SameFiles.rfl {s : Store} : SameFiles s s :=
  ⟨fun _ => .rfl, Eq.refl _⟩

theorem sameFiles_addDirectories (hs : d.store.Sound) (perm : Int) (keys : List Key) :
    SameFiles d.store (d.addDirectories perm keys).store :=
  ⟨fun _ => Disk.isFile_addDirectories perm hs.inStep, Disk.addDirectories_handles perm⟩

theorem TempOutcome.sameFiles_of_error {directory lead : String} (hs : d.store.Sound)
    (h : TempOutcome d directory lead (.error f e)) : SameFiles d.store e.store := by
  cases h with
  | blocked hj h => exact .rfl
  | exhausted hfree hsearch => exact sameFiles_addDirectories hs _ _
  | failed hfree hsearch h =>
    rw [h.disk_of_error]
    exact sameFiles_addDirectories hs _ _

theorem isFile_moved_iff {s s' : Store} {src dst j : Key} (hmoved : Store.Moved s s' src dst)
    (hj : Key.within dst j = false) :
    s'.tree.IsFile j ↔ Key.within src j = false ∧ s.tree.IsFile j := by
  have hget := hmoved.other j hj
  cases hsrc : Key.within src j with
  | true =>
    rw [hsrc, if_pos rfl] at hget
    simpa using not_isFile_of_none hget
  | false =>
    rw [hsrc, if_neg (by simp)] at hget
    simpa using IsFile.congr hget

theorem DirectoriesOutcome.sameFiles {r} (hs : d.store.Sound)
    (h : DirectoriesOutcome d k perm r) : SameFiles d.store (diskOf r).store := by
  cases h with
  | blocked hj hfile => exact .rfl
  | made hfree => exact sameFiles_addDirectories hs _ _

/-- Handing content on leaves the files where they are. -/
theorem isFile_committed {h : Handle} {c : HandleCall} {j : Key} (hs : d.store.Sound)
    (hid : d.store.handles[id]? = some h) :
    (d.committed h c).store.tree.IsFile j ↔ d.store.tree.IsFile j := by
  unfold Disk.committed
  split
  · rename_i k hk
    split
    · rename_i hc
      rw [isFile_putFile, or_iff_right_of_imp]
      rintro rfl
      exact isFile_of_commits hs hid hc hk
    · rfl
  · rfl

@[simp] theorem answerOf_resultOf {α : Type} (r : Except Fault α) (d : Disk) :
    answerOf (resultOf r d) = r := by
  cases r <;> rfl

end

/-! ## What each call does to the ledger -/

theorem Ledger.passed_of_isArgument {f : Fault} (h : f.isArgument = true) :
    Ledger.passed (.error f) = true := by
  cases f <;> first | rfl | cases h

/-- Whether the content of an open handle has changes is told by how the calls on it have ended. -/
theorem Handle.dirty_use (h : Handle) (c : HandleCall) (ho : h.closed = false) :
    (h.use c).2.dirty = Ledger.pendingAfter c (h.use c).1 h.dirty := by
  have hpassed : ∀ {α : Type} {g : Handle} {answer : α → Answer (Nat × String)}
      {r : Except Fault (α × Buffer)}, (∀ {f}, r = .error f → f.isArgument = true) →
      Ledger.passed (g.respond answer r).1 = true := by
    intro α g answer r hr
    cases r with
    | ok a => rfl
    | error f => exact Ledger.passed_of_isArgument (hr rfl)
  rw [h.use_of_open c ho]
  cases c with
  | read size =>
    rw [useOpen]
    split
    · exact (h.respond_frame _ _).2.2.2.2
    · rfl
  | write data =>
    rw [useOpen]
    split
    · rw [(h.written.respond_frame _ _).2.2.2.2]
      simp [Ledger.pendingAfter, hpassed Buffer.isArgument_of_write, written]
    · simp [Ledger.pendingAfter, Ledger.passed, Fault.isAccess]
  | seek offset origin => exact (h.respond_frame _ _).2.2.2.2
  | tell => rfl
  | truncate size =>
    rw [useOpen]
    split
    · rw [(respond_frame _ _ _).2.2.2.2]
      simp [Ledger.pendingAfter, hpassed Buffer.isArgument_of_truncate]
    · simp [Ledger.pendingAfter, Ledger.passed, Fault.isAccess]
  | flush | close => simp [useOpen, Ledger.pendingAfter, Ledger.passed]

namespace Ledger

variable {l : Ledger} {s s' : Store} {k src dst : Key}

theorem tracks_empty (now : Nat) : Tracks .empty (Store.empty now) where
  files k := by
    have hs := Store.sound_empty now
    rw [hs.inStep.isFile_tree]
    simp [empty, Store.empty, Store.hasFile, Tree.get?]
  injective := by
    intro j k n hj
    cases hj
  issued := by
    intro k n hk
    cases hk
  holds := by
    intro id h hid
    cases hid

/-- A file has been created at a key. -/
def created (k : Key) (l : Ledger) : Ledger where
  identity j := if j = k then some l.next else l.identity j
  next := l.next + 1
  holds := l.holds

/-- A handle has been opened on the file with an identity. -/
def held (id n : Nat) (l : Ledger) : Ledger :=
  { l with holds := fun i => if i = id then some ⟨n, false⟩ else l.holds i }

theorem opened_of_some {id n : Nat} (h : l.identity k = some n) : l.opened k id = l.held id n := by
  rw [opened, h, held]

theorem opened_of_none {id : Nat} (h : l.identity k = none) :
    l.opened k id = (l.created k).held id l.next := by
  rw [opened, h, held, created]

/-- Where keys lead when the entry at `k` goes. -/
def lose (k j : Key) : Option Key :=
  if j = k then none else some j

/-- Where keys lead when what is at and below `src` takes the place of what is at `dst`. -/
def carry (src dst j : Key) : Option Key :=
  if j = dst then none else some (rebase src dst j)

/-- The open handles are those that there were, with their keys carried along a map. -/
def CarriedHandles (s s' : Store) (carry : Key → Option Key) : Prop :=
  ∀ (i : Nat) (g : Handle), s'.handles[i]? = some g → g.closed = false →
    ∃ h : Handle, s.handles[i]? = some h ∧ h.closed = false ∧ g.dirty = h.dirty ∧
      g.key = h.key.bind carry

theorem lose_eq_some_iff {i j : Key} : lose k j = some i ↔ j = i ∧ j ≠ k := by
  unfold lose
  split <;> simp_all

theorem carry_eq_some_iff {i j : Key} :
    carry src dst j = some i ↔ j ≠ dst ∧ rebase src dst j = i := by
  rw [carry]
  split <;> simp_all

/-- Something is carried to a key from the place that leads there, or it was there and stays. -/
theorem exists_carry_iff {P : Key → Prop} {i : Key} (hout : Key.within src dst = false)
    (hbelow : ∀ j, P j → j ≠ dst → Key.within dst j = false) :
    (∃ j, P j ∧ carry src dst j = some i) ↔
      (∃ rest, i = dst ++ rest ∧ P (src ++ rest)) ∨
        (Key.within dst i = false ∧ Key.within src i = false ∧ P i) := by
  simp only [carry_eq_some_iff]
  constructor
  · rintro ⟨j, hj, hne, rfl⟩
    cases hin : Key.within src j with
    | true =>
      obtain ⟨rest, rfl⟩ := Key.within_iff.1 hin
      exact .inl ⟨rest, rebase_append src dst rest, hj⟩
    | false =>
      rw [rebase_of_below?_eq_none (Key.within_eq_false_iff.1 hin)]
      exact .inr ⟨hbelow j hj hne, hin, hj⟩
  · rintro (⟨rest, rfl, hrest⟩ | ⟨hdst, hsrc, hi⟩)
    · refine ⟨src ++ rest, hrest, ?_, rebase_append src dst rest⟩
      rintro rfl
      rw [Key.within_append] at hout
      cases hout
    · exact ⟨i, hi, (Key.ne_of_within_eq_false hdst).symm,
        rebase_of_below?_eq_none (Key.within_eq_false_iff.1 hsrc)⟩

/-- Handles are carried along when each is changed so. -/
theorem carriedHandles_map {f : Handle → Handle} {carry : Key → Option Key}
    (hclosed : ∀ h, (f h).closed = h.closed) (hdirty : ∀ h, (f h).dirty = h.dirty)
    (hkey : ∀ h ∈ s.handles, h.closed = false → (f h).key = h.key.bind carry)
    (hhandles : s'.handles = s.handles.map f) : CarriedHandles s s' carry := by
  intro i g hg ho
  rw [hhandles, List.getElem?_map] at hg
  obtain ⟨h, hi, rfl⟩ := Option.map_eq_some_iff.1 hg
  rw [hclosed] at ho
  exact ⟨h, hi, ho, hdirty h, hkey h (List.mem_of_getElem? hi) ho⟩

namespace Tracks

variable (ht : l.Tracks s)
include ht

theorem isFile {n : Nat} (h : l.identity k = some n) : s.tree.IsFile k :=
  (ht.files k).1 (by rw [h]; rfl)

/-- A call that leaves the files where they are and the handles as they are. -/
theorem congr (hfiles : ∀ k, s'.tree.IsFile k ↔ s.tree.IsFile k)
    (hhandles : s'.handles = s.handles) : l.Tracks s' where
  files k := (ht.files k).trans (hfiles k).symm
  injective := ht.injective
  issued := ht.issued
  holds := hhandles ▸ ht.holds

/-- A file is created where none was, and no handle is on it yet. -/
theorem created (hid : l.identity k = none)
    (hfiles : ∀ j, s'.tree.IsFile j ↔ j = k ∨ s.tree.IsFile j)
    (hhandles : s'.handles = s.handles) : (l.created k).Tracks s' := by
  -- the identity is none that was given before, and no other file is at the key
  have hne : ∀ j n, l.identity j = some n → j ≠ k ∧ n ≠ l.next := by
    intro j n hj
    refine ⟨?_, Nat.ne_of_lt (ht.issued j n hj)⟩
    rintro rfl
    rw [hid] at hj
    cases hj
  constructor
  case files =>
    intro j
    rw [hfiles, ← ht.files, Ledger.created]
    by_cases hj : j = k <;> simp [hj]
  case injective =>
    intro i j n hi hj
    simp only [Ledger.created] at hi hj
    split at hi <;> split at hj
    · simp_all
    · exact absurd (Option.some.inj hi).symm (hne j n hj).2
    · exact absurd (Option.some.inj hj).symm (hne i n hi).2
    · exact ht.injective i j n hi hj
  case issued =>
    intro j n hj
    simp only [Ledger.created] at hj ⊢
    split at hj
    · rw [← Option.some.inj hj]
      exact Nat.lt_succ_self _
    · exact Nat.lt_succ_of_lt (ht.issued j n hj)
  case holds =>
    intro i g hg ho
    rw [hhandles] at hg
    obtain ⟨m, hm, hlt, hkeys⟩ := ht.holds i g hg ho
    refine ⟨m, hm, Nat.lt_succ_of_lt hlt, ?_⟩
    intro j
    rw [hkeys, Ledger.created]
    by_cases hj : j = k
    · simp [hj, hid, Nat.ne_of_gt hlt]
    · simp [hj]

/-- A new handle is on the file that it was opened on. -/
theorem held {h : Handle} {n : Nat} (hid : l.identity k = some n) (hkey : h.key = some k)
    (hdirty : h.dirty = false) (hfiles : ∀ j, s'.tree.IsFile j ↔ s.tree.IsFile j)
    (hhandles : s'.handles = s.handles ++ [h]) : (l.held s.handles.length n).Tracks s' where
  files := by
    intro j
    rw [hfiles]
    exact ht.files j
  injective := ht.injective
  issued := ht.issued
  holds := by
    intro i g hg ho
    rw [hhandles] at hg
    rcases getElem?_concat_eq_some hg with ⟨hi, hg⟩ | ⟨rfl, rfl⟩
    · obtain ⟨m, hm, hlt, hkeys⟩ := ht.holds i g hg ho
      exact ⟨m, by simpa [Ledger.held, hi] using hm, hlt, hkeys⟩
    · refine ⟨n, by simp [Ledger.held, hdirty], ht.issued k n hid, ?_⟩
      intro j
      rw [hkey]
      exact ⟨fun hj => Option.some.inj hj ▸ hid,
        fun hj => congrArg some (ht.injective k j n hid hj)⟩

/-- A handle may be opened on a file that was there, or on one that is created for it. -/
theorem opened {h : Handle} (hkey : h.key = some k) (hdirty : h.dirty = false)
    (hfiles : ∀ j, s'.tree.IsFile j ↔ j = k ∨ s.tree.IsFile j)
    (hhandles : s'.handles = s.handles ++ [h]) :
    (l.opened k s.handles.length).Tracks s' := by
  cases hid : l.identity k with
  | some n =>
    rw [opened_of_some hid]
    refine ht.held hid hkey hdirty ?_ hhandles
    intro j
    rw [hfiles, or_iff_right_of_imp]
    rintro rfl
    exact ht.isFile hid
  | none =>
    rw [opened_of_none hid]
    have hcreated : (l.created k).Tracks { s' with handles := s.handles } :=
      ht.created hid hfiles rfl
    exact hcreated.held (if_pos rfl) hkey hdirty (fun _ => Iff.rfl) hhandles

/-- Files and open handles have been carried along a map of keys. -/
theorem carried {l' : Ledger} {carry : Key → Option Key} (hnext : l'.next = l.next)
    (hholds : l'.holds = l.holds)
    (hidentity : ∀ k n, l'.identity k = some n ↔ ∃ j, l.identity j = some n ∧ carry j = some k)
    (hfiles : ∀ k, s'.tree.IsFile k ↔ ∃ j, s.tree.IsFile j ∧ carry j = some k)
    (hhandles : CarriedHandles s s' carry) : l'.Tracks s' where
  files k := by
    rw [hfiles, Option.isSome_iff_exists]
    constructor
    · rintro ⟨n, hn⟩
      obtain ⟨j, hj, hcarry⟩ := (hidentity k n).1 hn
      exact ⟨j, ht.isFile hj, hcarry⟩
    · rintro ⟨j, hj, hcarry⟩
      obtain ⟨n, hn⟩ := Option.isSome_iff_exists.1 ((ht.files j).2 hj)
      exact ⟨n, (hidentity k n).2 ⟨j, hn, hcarry⟩⟩
  injective := by
    intro a b n ha hb
    obtain ⟨i, hi, hia⟩ := (hidentity a n).1 ha
    obtain ⟨j, hj, hjb⟩ := (hidentity b n).1 hb
    rw [ht.injective i j n hi hj, hjb] at hia
    exact (Option.some.inj hia).symm
  issued := by
    intro k n hk
    obtain ⟨j, hj, -⟩ := (hidentity k n).1 hk
    rw [hnext]
    exact ht.issued j n hj
  holds := by
    intro i g hg ho
    obtain ⟨h, hi, hho, hdirty, hkey⟩ := hhandles i g hg ho
    obtain ⟨n, hn, hlt, hkeys⟩ := ht.holds i h hi hho
    rw [hholds, hnext, hdirty, hkey]
    refine ⟨n, hn, hlt, ?_⟩
    intro k
    rw [Option.bind_eq_some_iff, hidentity]
    simp only [hkeys]

/-- A file has been removed, or an empty directory. -/
theorem removed (hfiles : ∀ j, s'.tree.IsFile j ↔ s.tree.IsFile j ∧ j ≠ k)
    (hhandles : CarriedHandles s s' (lose k)) : (l.removed k).Tracks s' := by
  refine ht.carried rfl rfl ?_ ?_ hhandles
  · intro i n
    simp only [lose_eq_some_iff]
    by_cases hi : i = k <;> simp [Ledger.removed, hi]
  · intro i
    simp only [hfiles, lose_eq_some_iff]
    exact ⟨fun hi => ⟨i, hi.1, rfl, hi.2⟩, by rintro ⟨j, hj, rfl, hjk⟩; exact ⟨hj, hjk⟩⟩

/-- What is at and below `src` has been moved to `dst`. -/
theorem moved (hout : Key.within src dst = false)
    (hbelow : ∀ j, s.tree.IsFile j → j ≠ dst → Key.within dst j = false)
    (htarget : ∀ rest, s'.tree.IsFile (dst ++ rest) ↔ s.tree.IsFile (src ++ rest))
    (hother : ∀ j, Key.within dst j = false →
      (s'.tree.IsFile j ↔ Key.within src j = false ∧ s.tree.IsFile j))
    (hhandles : CarriedHandles s s' (carry src dst)) : (l.moved src dst).Tracks s' := by
  refine ht.carried rfl rfl ?_ ?_ hhandles
  · intro i n
    rw [exists_carry_iff hout fun j hj => hbelow j (ht.isFile hj), Ledger.moved]
    cases hi : Key.below? dst i with
    | some rest =>
      obtain rfl := Key.below?_eq_some_iff.1 hi
      simp
    | none =>
      have hdst := Key.within_eq_false_iff.2 hi
      have hne := Key.below?_eq_none_iff.1 hi
      cases hsrc : Key.within src i <;> simp [hi, hdst, hsrc, hne]
  · intro i
    rw [exists_carry_iff hout hbelow]
    cases hi : Key.within dst i with
    | true =>
      obtain ⟨rest, rfl⟩ := Key.within_iff.1 hi
      simp [htarget]
    | false =>
      have hne := Key.below?_eq_none_iff.1 (Key.within_eq_false_iff.1 hi)
      simp [hother i hi, hne]

/-- A call on a handle has been made. -/
theorem used {id : Nat} {c : HandleCall} {r : Except Fault (Answer (Nat × String))}
    (hfiles : ∀ k, s'.tree.IsFile k ↔ s.tree.IsFile k)
    (hhandles : ∀ (i : Nat) (g : Handle), s'.handles[i]? = some g → g.closed = false →
      (i ≠ id ∧ s.handles[i]? = some g) ∨ (i = id ∧ ∃ h : Handle, s.handles[id]? = some h ∧
        h.closed = false ∧ g = (h.use c).2 ∧ r = (h.use c).1)) : (l.used id c r).Tracks s' where
  files k := (ht.files k).trans (hfiles k).symm
  injective := ht.injective
  issued := ht.issued
  holds := by
    intro i g hg ho
    rcases hhandles i g hg ho with ⟨hi, hg⟩ | ⟨rfl, h, hid, hho, rfl, rfl⟩
    · obtain ⟨n, hn, hlt, hkeys⟩ := ht.holds i g hg ho
      exact ⟨n, by simpa [Ledger.used, hi] using hn, hlt, hkeys⟩
    · obtain ⟨n, hn, hlt, hkeys⟩ := ht.holds i h hid hho
      rw [(h.use_frame c).1]
      exact ⟨n, by simp [Ledger.used, hn, h.dirty_use c hho], hlt, hkeys⟩

end Tracks

/-! ## The ledger along a run -/

section

variable {d : Disk} {path : String}

/-- Recording how an opening has ended. -/
theorem Tracks.openFile {flags : OpenFlags} {perm : Int} {r} {c : Call} (hs : d.store.Sound)
    (ht : l.Tracks d.store) (h : OpenOutcome d k path flags perm r)
    (hok : ∀ id, l.record (.call c) (.ok (.file (id, path))) = l.opened k id)
    (herror : ∀ f, l.record (.call c) (.error f) = l) :
    (l.record (.call c) (answerOf (mapResult (fun id => .file (id, path)) r))).Tracks
      (diskOf r).store := by
  cases r with
  | error f e =>
    show (l.record (.call c) (.error f)).Tracks e.store
    rw [herror, h.disk_of_error]
    exact ht
  | ok id e =>
    obtain ⟨rfl, g, hkey, hdirty, hhandles, hfiles⟩ := h.opened hs
    show (l.record (.call c) (.ok (.file (d.store.handles.length, path)))).Tracks e.store
    rw [hok]
    exact ht.opened hkey hdirty hfiles hhandles

/-- Recording how the creation of a temporary file has ended. -/
theorem Tracks.createTemp {directory lead : String} {r} (hs : d.store.Sound)
    (ht : l.Tracks d.store) (h : TempOutcome d directory lead r) :
    (l.record (.call (.createTemp directory lead)) (answerOf (mapResult .file r))).Tracks
      (diskOf r).store := by
  cases r with
  | error f e =>
    have hsame := h.sameFiles_of_error hs
    exact ht.congr hsame.files hsame.handles
  | ok a e =>
    cases h with
    | @opened number s id e hfree hsearch h =>
      have hdirs := sameFiles_addDirectories hs defaultPerm (Key.resolve directory).steps
      obtain ⟨rfl, g, hkey, hdirty, hhandles, hfiles⟩ := h.opened (sound_tempDirectory hs hfree s)
      exact (ht.congr hdirs.files hdirs.handles).opened hkey hdirty hfiles hhandles

theorem moved_self (l : Ledger) (k : Key) : l.moved k k = l := by
  have hidentity : (l.moved k k).identity = l.identity := by
    funext j
    unfold moved
    dsimp only
    split
    · rename_i rest hrest
      rw [Key.below?_eq_some_iff.1 hrest]
    · rename_i hnone
      rw [Key.within_eq_false_iff.2 hnone]
      rfl
  exact congrArg (fun identity => { l with identity }) hidentity

/-- A file has been moved with its open handles, and those at the destination have lost theirs. -/
theorem Tracks.fileMoved (ht : l.Tracks d.store) (hmove : FileMove d src dst) :
    (l.moved src dst).Tracks (((d.mapHandles (Handle.detach dst)).mapStore
      (Store.movedFile src dst)).mapHandles (Handle.follow src dst)).store := by
  have hmoved := hmove.moved
  refine ht.moved hmove.movable.out (fun j => hmove.movable.not_within_of_isFile)
    (fun rest => IsFile.congr (hmoved.target rest)) ?_ ?_
  · intro j hj
    have hother := isFile_moved_iff hmoved hj
    exact hother
  · refine carriedHandles_map (f := fun h => (h.detach dst).follow src dst) (by simp) (by simp)
      ?_ ?_
    · intro h hh ho
      rw [Handle.follow_key (by simpa using ho), Handle.detach_key ho]
      cases h.key with
      | none => rfl
      | some j => by_cases hj : j = dst <;> simp [carry, hj, Option.filter]
    · simp [hmoved.handles]

/-- A directory has been moved with what is below it and with the open handles there. -/
theorem Tracks.directoryMoved (ht : l.Tracks d.store) (hmove : DirectoryMove d src dst) :
    (l.moved src dst).Tracks ((d.mapStore (Store.movedAll src dst)).mapHandles
      (Handle.follow src dst)).store := by
  have hmoved := hmove.moved
  refine ht.moved hmove.movable.out (fun j => hmove.movable.not_within_of_isFile)
    (fun rest => IsFile.congr (hmoved.target rest)) ?_ ?_
  · intro j hj
    have hother := isFile_moved_iff hmoved hj
    exact hother
  · refine carriedHandles_map (f := Handle.follow src dst) (by simp) (by simp)
      ?_ ?_
    · intro h hh ho
      rw [Handle.follow_key ho]
      cases hk : h.key with
      | none => rfl
      | some j =>
        have hj : j ≠ dst := by
          rintro rfl
          exact hmove.free (hmove.sound.attached h hh ho _ hk)
        simp [carry, hj]
    · simp [hmoved.handles]

/-- Renaming moves what the ledger notes of the files. -/
theorem Tracks.renamed {src dst : Key} {path target : String} {e : Disk} (hs : d.store.Sound)
    (hdst : ∀ a ∈ dst, Path.IsName a) (ht : l.Tracks d.store)
    (h : RenameOutcome d src dst path target (.ok () e)) :
    (l.moved src dst).Tracks e.store := by
  have hsame := sameFiles_addDirectories hs defaultPerm dst.parent.steps
  cases h with
  | same h =>
    rw [h, moved_self]
    exact ht
  | fileMoved hne hsrc hnot hfree =>
    exact (ht.congr hsame.files hsame.handles).fileMoved
      (fileMove hs hdst hne hsrc hnot hfree)
  | directoryMoved hroot hsrc hnot hout hchildren hfree =>
    exact (ht.congr hsame.files hsame.handles).directoryMoved
      (directoryMove hs hdst hroot hsrc hnot hout hchildren hfree)

/-- Removing drops what the ledger notes of a file. -/
theorem Tracks.remove {e : Disk} (ht : l.Tracks d.store)
    (h : RemoveOutcome d k path (.ok () e)) : (l.removed k).Tracks e.store := by
  cases h with
  | file h =>
    have hget := fun j => Store.get?_tree_eraseFile d.store k j
    refine ht.removed ?_ ?_
    · intro j
      by_cases hj : j = k
      · have hnone := not_isFile_of_none ((hget j).trans (if_pos hj))
        exact iff_of_false hnone fun hf => hf.2 hj
      · rw [and_iff_left hj]
        exact IsFile.congr ((hget j).trans (if_neg hj))
    · refine carriedHandles_map (f := Handle.detach k) (by simp) (by simp) ?_ rfl
      intro h hh ho
      rw [Handle.detach_key ho]
      cases h.key with
      | none => rfl
      | some j => by_cases hj : j = k <;> simp [lose, hj, Option.filter]
  | directory hroot h hchildren =>
    have hget := fun j => Store.get?_tree_eraseDirectory d.store k j
    have hfile : ∀ j, d.store.tree.IsFile j → j ≠ k := by
      rintro j hj rfl
      exact hj.not_isDirectory h
    refine ht.removed ?_ ?_
    · intro j
      by_cases hj : j = k
      · have hnone := not_isFile_of_none ((hget j).trans (if_pos hj))
        exact iff_of_false hnone fun hf => hf.2 hj
      · rw [and_iff_left hj]
        exact IsFile.congr ((hget j).trans (if_neg hj))
    · intro i g hg ho
      obtain ⟨n, -, -, hkeys⟩ := ht.holds i g hg ho
      refine ⟨g, hg, ho, rfl, ?_⟩
      cases hkey : g.key with
      | none => rfl
      | some j => simp [lose, hfile j (ht.isFile ((hkeys j).1 hkey))]

/-- A call on the store keeps the ledger in agreement. -/
theorem Tracks.call {c : Call} {r} (hs : d.store.Sound) (ht : l.Tracks d.store)
    (h : CallOutcome d c r) :
    (l.record (.call c) (answerOf r)).Tracks (diskOf r).store := by
  cases h with
  | create h | openRead h | openFile h =>
    rw [diskOf_mapResult]
    exact ht.openFile hs h (fun _ => rfl) fun _ => rfl
  | createTemp h =>
    rw [diskOf_mapResult]
    exact ht.createTemp hs h
  | @rename path target r h =>
    cases r with
    | error f e =>
      rw [h.disk_of_error]
      exact ht
    | ok u e => exact ht.renamed hs (Path.isName_resolve target) h
  | @remove path r h =>
    cases r with
    | error f e =>
      rw [h.disk_of_error]
      exact ht
    | ok u e => exact ht.remove h
  | @makeDirectories path perm r h =>
    have hsame := h.sameFiles hs
    have ht' := ht.congr hsame.files hsame.handles
    cases r <;> exact ht'
  | stat h | list h => cases h <;> exact ht

/-- A call on a handle keeps the ledger in agreement. -/
theorem Tracks.use (hs : d.store.Sound) (ht : l.Tracks d.store) (id : Nat) (c : HandleCall) :
    (l.record (.use id c) (answerOf ((use id c).run d))).Tracks (after (use id c) d).store := by
  cases hid : d.store.handles[id]? with
  | none =>
    rw [after, run_use_none hid]
    refine ht.used (fun _ => Iff.rfl) fun i g hg ho => .inl ⟨?_, hg⟩
    rintro rfl
    rw [diskOf, hid] at hg
    cases hg
  | some h =>
    rw [after_use hid, run_use hid, answerOf_resultOf]
    refine ht.used (fun k => isFile_committed hs hid) ?_
    intro i g hg ho
    rw [Disk.setHandle_handles, Disk.committed_handles, List.getElem?_set] at hg
    split at hg
    · rename_i hi
      split at hg
      · cases hg
        refine .inr ⟨hi.symm, h, hid, ?_, rfl, rfl⟩
        by_contra hho
        rw [(h.use_frame c).2.2.2 (by simpa using hho)] at ho
        cases ho
      · cases hg
    · exact .inl ⟨Ne.symm ‹_›, hg⟩

/-- Every call keeps the ledger in agreement. -/
theorem Tracks.step (hs : d.store.Sound) (ht : l.Tracks d.store) (e : Event) :
    (l.record e (answerOf (e.run.run d))).Tracks (after e.run d).store := by
  cases e with
  | call c => exact ht.call hs (callOutcome hs c)
  | use id c => exact ht.use hs id c

end

end Ledger

theorem Logged.tracks {s : Store} {l : Ledger} (h : Logged s l) : l.Tracks s := by
  induction h with
  | new now => exact Ledger.tracks_empty now
  | @step s l h clock supply e ih =>
    have hs : (Disk.mk s clock supply).store.Sound := h.reachable.sound
    exact Ledger.Tracks.step hs ih e

/-! ## Handles and their files -/

/-- The file with an identity has got a content and the present tick, its mode is as it was, and all
else is as it was; nothing is written if no file has the identity. -/
structure Ledger.Rewritten (l : Ledger) (n : Nat) (content : Bytes) (d : Disk) (s' : Store) :
    Prop where
  /-- The file with the identity. -/
  self : ∀ k, l.identity k = some n → ∃ old mode modified,
    d.store.tree.get? k = some (.file old mode modified) ∧
      s'.tree.get? k = some (.file content mode d.clock)
  /-- All else. -/
  other : ∀ k, l.identity k ≠ some n → s'.tree.get? k = d.store.tree.get? k

/-- A change through the handle with a number has got past the access checks since the handle was
flushed. -/
def Ledger.Pending (l : Ledger) (id : Nat) : Prop :=
  ∃ n, l.holds id = some ⟨n, true⟩

/-- Handles are on the files that they were opened on, and hand their content to these. -/
structure Ledger.Follows (l : Ledger) (s : Store) : Prop where
  files : ∀ k, (l.identity k).isSome = true ↔ s.tree.IsFile k
  /-- No two files have the same identity. -/
  injective : ∀ j k n, l.identity j = some n → l.identity k = some n → j = k
  /-- The key of an open handle is that of the file it was opened on, wherever that is now, and
  there is none once the file is gone. -/
  key : ∀ (id : Nat) (h : Handle), s.handles[id]? = some h → h.closed = false →
    ∃ hold, l.holds id = some hold ∧ ∀ k, h.key = some k ↔ l.identity k = some hold.file
  /-- Flushing or closing an open handle with pending changes succeeds, and makes its content that
  of the file it was opened on. -/
  pending : ∀ (id : Nat) (h : Handle), s.handles[id]? = some h → h.closed = false →
    ∀ n, l.holds id = some ⟨n, true⟩ → ∀ c, c = .flush ∨ c = .close → ∀ clock supply,
      ∃ d', (use id c).run ⟨s, clock, supply⟩ = .ok .done d' ∧
        l.Rewritten n h.buffer.content ⟨s, clock, supply⟩ d'.store
  /-- Flushing or closing any other handle leaves all files and directories as they are. -/
  idle : ∀ id, ¬((∃ h : Handle, s.handles[id]? = some h ∧ h.closed = false) ∧ l.Pending id) →
    ∀ c, c = .flush ∨ c = .close → ∀ clock supply k,
      (after (use id c) ⟨s, clock, supply⟩).store.tree.get? k = s.tree.get? k

namespace Ledger.Tracks

variable {l : Ledger} {d : Disk} {h : Handle} {id n : Nat} {c : HandleCall}

/-- What a handle with changes hands on goes to the file with its identity. -/
theorem rewritten_committed (hs : d.store.Sound) (ht : l.Tracks d.store)
    (hkeys : ∀ k, h.key = some k ↔ l.identity k = some n) (hc : h.commits c = true) :
    l.Rewritten n h.buffer.content d (d.committed h c).store := by
  unfold Disk.committed
  cases hk : h.key with
  | none =>
    have hnone : ∀ k, l.identity k ≠ some n := by
      intro k hn
      rw [← hkeys, hk] at hn
      cases hn
    exact ⟨fun k hn => absurd hn (hnone k), fun _ _ => rfl⟩
  | some k =>
    dsimp only
    rw [if_pos hc]
    have hget := fun j => Disk.get?_putFile d k j h.buffer.content (modeAt d.store k)
    constructor
    · intro j hj
      obtain rfl : j = k := ht.injective j k n hj ((hkeys k).1 hk)
      obtain ⟨old, mode, modified, hold⟩ := ht.isFile hj
      refine ⟨old, mode, modified, hold, ?_⟩
      rw [hget, if_pos rfl, modeAt_of_get? hs.inStep hold]
      rfl
    · intro j hj
      rw [hget, if_neg]
      rintro rfl
      exact hj ((hkeys j).1 hk)

/-- Flushing or closing a handle hands its content on if it is open and has changes. -/
theorem commits_eq (hc : c = .flush ∨ c = .close) : h.commits c = (!h.closed && h.dirty) := by
  rcases hc with rfl | rfl <;> rfl

theorem use_eq_done (hc : c = .flush ∨ c = .close) (ho : h.closed = false) :
    (h.use c).1 = .ok .done := by
  rw [h.use_of_open c ho]
  rcases hc with rfl | rfl <;> rfl

/-- In a sound store, handles are on the files that the ledger notes of them, and hand their content
to these. -/
theorem follows {s : Store} (hs : s.Sound) (ht : l.Tracks s) : l.Follows s where
  files := ht.files
  injective := ht.injective
  key := by
    intro id h hid ho
    obtain ⟨n, hn, -, hkeys⟩ := ht.holds id h hid ho
    exact ⟨_, hn, hkeys⟩
  pending := by
    intro id h hid ho n hn c hc clock supply
    obtain ⟨m, hm, -, hkeys⟩ := ht.holds id h hid ho
    rw [hm] at hn
    obtain ⟨rfl, hdirty⟩ := Hold.mk.inj (Option.some.inj hn)
    have hcommits : h.commits c = true := by rw [commits_eq hc, ho, hdirty]; rfl
    have hrun := run_use (d := ⟨s, clock, supply⟩) hid c
    rw [use_eq_done hc ho] at hrun
    have hwritten := rewritten_committed (d := ⟨s, clock, supply⟩) hs ht hkeys hcommits
    exact ⟨_, hrun, hwritten.self, hwritten.other⟩
  idle := by
    intro id hidle c hc clock supply k
    cases hid : s.handles[id]? with
    | none => rw [after, run_use_none (d := ⟨s, clock, supply⟩) hid, diskOf]
    | some h =>
      have hcommits : h.commits c = false := by
        rw [commits_eq hc, Bool.and_eq_false_iff, Bool.not_eq_false']
        by_contra hboth
        rw [not_or, Bool.not_eq_true, Bool.not_eq_false] at hboth
        obtain ⟨n, hn, -⟩ := ht.holds id h hid hboth.1
        rw [hboth.2] at hn
        exact hidle ⟨⟨h, hid, hboth.1⟩, n, hn⟩
      rw [after_use (d := ⟨s, clock, supply⟩) hid, Disk.setHandle_tree,
        Disk.committed_of_not_commits hcommits]

end Ledger.Tracks

/-- Whatever calls have been made, in whatever order, each open handle is on the file that it was
opened on, and hands its content to that file and to no other. -/
theorem Logged.handles_follow {s : Store} {l : Ledger} (h : Logged s l) : l.Follows s :=
  h.tracks.follows h.reachable.sound

/-- A file has been moved under an open handle with pending changes, and a new file has been created
where it was. -/
theorem Logged.handles_follow_moved :
    ∃ s l, Logged s l ∧ l.identity ["b", "f"] = some 0 ∧ l.identity ["a", "f"] = some 1 ∧
      l.holds 0 = some ⟨0, true⟩ ∧ l.holds 1 = some ⟨1, false⟩ ∧
      s.handles.map Handle.key = [some ["b", "f"], some ["a", "f"]] ∧ l.Follows s := by
  have hlogged := ((((Logged.new 0).step 0 {} (.call (.create "a/f"))).step 0 {}
    (.use 0 (.write [1]))).step 0 {} (.call (.rename "a" "b"))).step 0 {} (.call (.create "a/f"))
  exact ⟨_, _, hlogged, by decide, by decide, by decide, by decide, by decide,
    hlogged.handles_follow⟩

end RootedFS.Memory
