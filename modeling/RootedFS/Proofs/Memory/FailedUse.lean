import RootedFS.Proofs.Memory.Identity
import RootedFS.Proofs.Memory.OneHandle

/-!
# Calls on handles that fail

A call on a handle that fails for a lack of access leaves no trace, and neither does reading or
seeking with arguments that cannot be had. Writing and cutting note a change before they ask the
buffer, and a handle that appends goes to its end first. If the buffer refuses, the note and the
position are left behind. They come to light when the handle is flushed or closed, or where its
position is asked for; a later change of the content covers them.

## Main definitions

* `Leftover`, `Handle.leftover`: what a failed call leaves behind on its handle
* `Leftover.told`, `Leftover.next`: whether a later call brings it to light, and what is left of it
* `Turn`, `observe`: later calls, and all that is seen of them
* `Leftover.quiet`: no call of a sequence brings to light what is left behind

## Main results

* `Leftover.Left.use`: a call that does not bring it to light has the same answer
* `observe_failed`: after a call that fails, all is seen as if it had not been made, as long as no
  call brings to light what is left behind
* `flush_left`: what comes of flushing a handle that counts as changed
-/

namespace RootedFS.Memory

variable {h h' : Handle} {c : HandleCall} {f : Fault} {id : Nat} {d d' : Disk} {s : Store}

/-! ## What is left behind -/

/-- What a failed call leaves behind on its handle. -/
structure Leftover where
  /-- The handle counts as changed, and was not changed. -/
  marked : Bool
  /-- The position is at the end, and was elsewhere. -/
  moved : Bool
deriving DecidableEq, Repr

/-- No trace. -/
def Leftover.nothing : Leftover := ⟨false, false⟩

/-- The handle with a note of changes, and with its position elsewhere. -/
def Handle.left (h : Handle) (marked : Bool) (position : Nat) : Handle :=
  { h with buffer := { h.buffer with position }, dirty := h.dirty || marked }

/-- What a call leaves behind on a handle, if it fails. -/
def Handle.leftover (h : Handle) (c : HandleCall) : Leftover where
  marked := (h.use c).2.dirty && !h.dirty
  moved := (h.use c).2.buffer.position != h.buffer.position

namespace Leftover

variable {δ : Leftover}

/-- A handle is another one on which something has been left behind. Only an open handle that may
be written has a trace, and only one that appends has been moved. -/
structure Left (δ : Leftover) (h h' : Handle) : Prop where
  handle : ∃ position, h' = h.left δ.marked position ∧
    (h.closed = false → δ.moved = false → position = h.buffer.position)
  writable : δ ≠ nothing → h.flags.writable = true
  append : δ.moved = true → h.flags.append = true
  notClosed : δ ≠ nothing → h.closed = false

/-- Whether a call on the handle brings to light what is left behind: a note of changes where the
content is handed on, and a position where it is asked for. -/
def tells (δ : Leftover) (h : Handle) : HandleCall → Bool
  | .flush | .close => δ.marked && h.key.isSome
  | .read _ | .tell => δ.moved
  | .seek _ origin => δ.moved && origin == 1
  | .truncate size => δ.moved && size.isNone
  | .write _ => false

/-- What is left behind after one more call on the handle. -/
def past (δ : Leftover) (h : Handle) : HandleCall → Leftover
  | .read _ | .tell => δ
  | .seek offset origin =>
    match h.buffer.seek offset origin with
    | .ok _ => { δ with moved := false }
    | .error _ => δ
  | .truncate _ | .flush => { δ with marked := false }
  | .write _ | .close => nothing

theorem left_nothing_self (h : Handle) : Left nothing h h where
  handle := ⟨h.buffer.position, by simp [Handle.left, nothing], fun _ _ => rfl⟩
  writable hne := absurd rfl hne
  append := by simp [nothing]
  notClosed hne := absurd rfl hne

@[simp] theorem past_nothing (h : Handle) (c : HandleCall) : nothing.past h c = nothing := by
  cases c <;> simp only [past, nothing]
  split <;> rfl

theorem Left.content_eq (hL : Left δ h h') : h'.buffer.content = h.buffer.content := by
  obtain ⟨position, rfl, -⟩ := hL.handle
  rfl

theorem Left.flags_eq (hL : Left δ h h') : h'.flags = h.flags := by
  obtain ⟨position, rfl, -⟩ := hL.handle
  rfl

/-- Where the position has not been moved, the buffers are the same. -/
theorem Left.buffer_eq (hL : Left δ h h') (ho : h.closed = false) (hm : δ.moved = false) :
    h'.buffer = h.buffer := by
  obtain ⟨position, rfl, hposition⟩ := hL.handle
  rw [Handle.left, hposition ho hm]

theorem detach_left (h : Handle) (marked : Bool) (position : Nat) (k : Key) :
    (h.left marked position).detach k = (h.detach k).left marked position := by
  by_cases hk : (!h.closed && decide (h.key = some k)) = true
  · have hself : h.detach k = { h with key := none } := if_pos hk
    have hleft : (h.left marked position).detach k =
        { h.left marked position with key := none } := if_pos hk
    rw [hself, hleft]
    rfl
  · have hself : h.detach k = h := if_neg hk
    have hleft : (h.left marked position).detach k = h.left marked position := if_neg hk
    rw [hself, hleft]

theorem follow_left (h : Handle) (marked : Bool) (position : Nat) (src dst : Key) :
    (h.left marked position).follow src dst = (h.follow src dst).left marked position := by
  cases hc : h.closed <;> simp [Handle.follow, Handle.left, hc]

/-- The trace stays on a handle that follows its file. -/
theorem trailing_left (δ : Leftover) : Trailing (Left δ) where
  detach := by
    intro h h' hL k
    obtain ⟨position, rfl, hposition⟩ := hL.handle
    refine ⟨⟨position, detach_left .., by simpa using hposition⟩, ?_, ?_, ?_⟩
    · simpa using hL.writable
    · simpa using hL.append
    · simpa using hL.notClosed
  follow := by
    intro h h' hL src dst
    obtain ⟨position, rfl, hposition⟩ := hL.handle
    refine ⟨⟨position, follow_left .., by simpa using hposition⟩, ?_, ?_, ?_⟩
    · simpa using hL.writable
    · simpa using hL.append
    · simpa using hL.notClosed

/-! ## One more call on the handle -/

/-- One buffer takes the place of either. -/
theorem Left.withBuffer (hL : Left δ h h') (b : Buffer) :
    Left { δ with moved := false } { h with buffer := b } { h' with buffer := b } := by
  obtain ⟨position, rfl, -⟩ := hL.handle
  have hne : ({ δ with moved := false } : Leftover) ≠ nothing → δ ≠ nothing := by
    rintro hne rfl
    exact hne rfl
  exact ⟨⟨b.position, rfl, fun _ _ => rfl⟩, fun h => hL.writable (hne h), by simp,
    fun h => hL.notClosed (hne h)⟩

/-- A position that has been moved is not asked for by a move from the start or the end. -/
theorem seek_congr {b b' : Buffer} (hcontent : b'.content = b.content) {origin : Int}
    (horigin : origin ≠ 1) (offset : Int) : b'.seek offset origin = b.seek offset origin := by
  simp [Buffer.seek, hcontent, horigin]

/-- Cutting to a size, or at a position that has not been moved, cuts either content alike. -/
theorem Left.truncate (hL : Left δ h h') (ho : h.closed = false) (hw : h.flags.writable = true)
    {size : Option Int} (ht : (δ.moved && size.isNone) = false) :
    (h'.useOpen (.truncate size)).1 = (h.useOpen (.truncate size)).1 ∧
      Left { δ with marked := false } (h.useOpen (.truncate size)).2
        (h'.useOpen (.truncate size)).2 := by
  obtain ⟨position, rfl, hposition⟩ := hL.handle
  have hsize : size.getD position = size.getD h.buffer.position := by
    cases size with
    | none => rw [hposition ho (by simpa using ht)]
    | some n => rfl
  have hw' : (h.left δ.marked position).flags.writable = true := hw
  have hleft : ∀ content : Bytes, Left { δ with marked := false }
      { h with buffer := { h.buffer with content }, dirty := true }
      { h with buffer := ⟨content, position⟩, dirty := true } := by
    intro content
    refine ⟨⟨position, rfl, hposition⟩, fun _ => hw, hL.append, fun _ => ho⟩
  rw [Handle.useOpen, Handle.useOpen, if_pos hw, if_pos hw']
  simp only [Handle.left, Buffer.truncate, hsize]
  split
  · exact ⟨rfl, hleft h.buffer.content⟩
  · split
    · exact ⟨rfl, hleft h.buffer.content⟩
    · exact ⟨rfl, hleft _⟩

/-- A write goes over what is left behind. -/
theorem Left.written (hL : Left δ h h') (ho : h.closed = false) : h'.written = h.written := by
  obtain ⟨position, rfl, hposition⟩ := hL.handle
  cases ha : h.flags.append with
  | true => simp [Handle.written, Handle.left, Buffer.toEnd, ha]
  | false =>
    have hm : δ.moved = false := by
      by_contra hm
      rw [hL.append (by simpa using hm)] at ha
      cases ha
    simp [Handle.written, Handle.left, ha, hposition ho hm]

theorem Left.useOpen (hL : Left δ h h') (ho : h.closed = false) (ht : δ.tells h c = false) :
    (h'.useOpen c).1 = (h.useOpen c).1 ∧ Left (δ.past h c) (h.useOpen c).2 (h'.useOpen c).2 := by
  have hnothing : h.flags.writable = false → δ = nothing := by
    intro hw
    by_contra hne
    rw [hL.writable hne] at hw
    cases hw
  cases c with
  | read size =>
    have hself : { δ with moved := false } = δ := by rw [← show δ.moved = false from ht]
    rw [Handle.useOpen, Handle.useOpen, hL.flags_eq, hL.buffer_eq ho ht]
    split
    · cases h.buffer.read size with
      | ok a => exact ⟨rfl, hself ▸ hL.withBuffer a.2⟩
      | error f => exact ⟨rfl, hL⟩
    · exact ⟨rfl, hL⟩
  | tell =>
    rw [Handle.useOpen, Handle.useOpen, hL.buffer_eq ho ht]
    exact ⟨rfl, hL⟩
  | seek offset origin =>
    have hseek : h'.buffer.seek offset origin = h.buffer.seek offset origin := by
      by_cases hm : δ.moved = false
      · rw [hL.buffer_eq ho hm]
      · have horigin : origin ≠ 1 := by simpa [tells, hm] using ht
        exact seek_congr hL.content_eq horigin offset
    rw [Handle.useOpen, Handle.useOpen, hseek, past]
    cases h.buffer.seek offset origin with
    | ok a => exact ⟨rfl, hL.withBuffer a.2⟩
    | error f => exact ⟨rfl, hL⟩
  | write data =>
    rw [Handle.useOpen, Handle.useOpen, hL.flags_eq, hL.written ho]
    cases hw : h.flags.writable with
    | true => exact ⟨rfl, left_nothing_self _⟩
    | false => exact ⟨rfl, hnothing hw ▸ hL⟩
  | truncate size =>
    cases hw : h.flags.writable with
    | true => exact hL.truncate ho hw ht
    | false =>
      rw [hnothing hw] at hL ⊢
      rw [Handle.useOpen, Handle.useOpen, hL.flags_eq, hw]
      exact ⟨rfl, hL⟩
  | flush =>
    obtain ⟨position, rfl, hposition⟩ := hL.handle
    have hne : ({ δ with marked := false } : Leftover) ≠ nothing → δ ≠ nothing := by
      rintro hne rfl
      exact hne rfl
    exact ⟨rfl, ⟨position, rfl, hposition⟩, fun h => hL.writable (hne h), hL.append,
      fun h => hL.notClosed (hne h)⟩
  | close =>
    obtain ⟨position, rfl, -⟩ := hL.handle
    exact ⟨rfl, ⟨position, rfl, fun hc => absurd hc (Ne.symm Bool.false_ne_true)⟩,
      fun hne => absurd rfl hne, fun hm => absurd hm Bool.false_ne_true,
      fun hne => absurd rfl hne⟩

/-- What is handed to the file is the same. -/
theorem Left.committed (hL : Left δ h h') (ht : δ.tells h c = false) (d : Disk) :
    d.committed h' c = d.committed h c := by
  obtain ⟨position, rfl, -⟩ := hL.handle
  cases hk : h.key with
  | none =>
    have hk' : (h.left δ.marked position).key = none := hk
    rw [Disk.committed, Disk.committed, hk, hk']
  | some k =>
    have hcommits : (h.left δ.marked position).commits c = h.commits c := by
      cases c with
      | flush | close =>
        have hm : δ.marked = false := by simpa [tells, hk] using ht
        simp [Handle.commits, Handle.left, hm]
      | read | write | seek | tell | truncate => rfl
    rw [Disk.committed, Disk.committed, hcommits]
    rfl

/-- A call that does not bring to light what is left behind has the same answer, hands on the same,
and leaves behind what is past it. -/
theorem Left.use (hL : Left δ h h') (ht : δ.tells h c = false) :
    (h'.use c).1 = (h.use c).1 ∧ Left (δ.past h c) (h.use c).2 (h'.use c).2 := by
  cases ho : h.closed with
  | false =>
    have ho' : h'.closed = false := by
      obtain ⟨position, rfl, -⟩ := hL.handle
      exact ho
    rw [h.use_of_open c ho, h'.use_of_open c ho']
    exact hL.useOpen ho ht
  | true =>
    have hδ : δ = nothing := by
      by_contra hne
      rw [hL.notClosed hne] at ho
      cases ho
    subst hδ
    obtain ⟨position, rfl, -⟩ := hL.handle
    have hanswer : ∀ g : Handle, g.closed = true → (g.use c).1 =
        if c = .close then .ok .done else .error (.closedHandle g.name) := by
      intro g hg
      rw [Handle.use, hg, if_neg (by simp)]
      split <;> rfl
    have ho' : (h.left nothing.marked position).closed = true := ho
    rw [h.use_of_closed c ho, Handle.use_of_closed _ c ho', past_nothing, hanswer h ho,
      hanswer _ ho']
    exact ⟨rfl, hL⟩

/-! ## Later calls -/

/-- Whether an event brings to light what is left behind on the handle with a number. -/
def told (δ : Leftover) (id : Nat) (s : Store) : Event → Bool
  | .call _ => false
  | .use i c => i == id && (s.handles[i]?).any (δ.tells · c)

/-- What is left behind on the handle with a number after one more event. -/
def next (δ : Leftover) (id : Nat) (s : Store) : Event → Leftover
  | .call _ => δ
  | .use i c => if i = id then ((s.handles[i]?).map (δ.past · c)).getD δ else δ

theorem answerOf_together {α : Type} {R : Disk → Disk → Prop}
    {r r' : EStateM.Result Fault Disk α} (h : Together R (fun _ => R) r r') :
    answerOf r' = answerOf r ∧ R (diskOf r) (diskOf r') := by
  cases h with
  | ok h => exact ⟨rfl, h⟩
  | error h => exact ⟨rfl, h⟩

/-- An event that does not bring to light what is left behind has the same answer with it as
without it. -/
theorem event_of_not_told {e : Event} (hd : Apart id (Left δ) d d')
    (ht : δ.told id d.store e = false) :
    answerOf (e.run.run d') = answerOf (e.run.run d) ∧
      Apart id (Left (δ.next id d.store e)) (after e.run d) (after e.run d') := by
  cases e with
  | call c => exact answerOf_together (respects_perform (trailing_left δ) c d d' hd)
  | use i c =>
    by_cases hi : i = id
    · subst hi
      obtain ⟨hid, hL⟩ := hd
      rename_i h h'
      have hlt : i < d.store.handles.length := (List.getElem?_eq_some_iff.1 hid).1
      have hid' : (d.setHandle i h').store.handles[i]? = some h' := List.getElem?_set_self hlt
      have htells : δ.tells h c = false := by simpa [told, hid] using ht
      obtain ⟨hanswer, hleft⟩ := hL.use htells
      have hnext : δ.next i d.store (.use i c) = δ.past h c := by simp [next, hid]
      have hdisk : ((d.setHandle i h').committed h' c).setHandle i (h'.use c).2 =
          ((d.committed h c).setHandle i (h.use c).2).setHandle i (h'.use c).2 := by
        rw [Disk.committed_setHandle, hL.committed htells, Disk.setHandle_setHandle,
          Disk.setHandle_setHandle]
      rw [hnext, Event.run, after_use hid, after_use hid', run_use hid, run_use hid', hdisk,
        answerOf_resultOf, answerOf_resultOf]
      refine ⟨hanswer, .intro ?_ hleft⟩
      rw [Disk.setHandle_handles, Disk.committed_handles, List.getElem?_set_self hlt]
    · rw [next, if_neg hi]
      exact answerOf_together (respects_use hi c d d' hd)

end Leftover

/-- A later call: an event with the clock and the supply that it finds. -/
structure Turn where
  clock : Nat
  supply : Supply
  event : Event

/-- What is seen of a call: how it has ended, the entries after it with all that is noted of them,
and the clock and the supply that are left to others. -/
structure Observation where
  answer : Except Fault (Answer (Nat × String))
  tree : Tree Entry
  clock : Nat
  supply : Supply

namespace Turn

/-- The disk on which a call is made. -/
def disk (t : Turn) (s : Store) : Disk :=
  ⟨s, t.clock, t.supply⟩

/-- The store after a call. -/
def next (t : Turn) (s : Store) : Store :=
  (after t.event.run (t.disk s)).store

/-- What is seen of a call. -/
def observation (t : Turn) (s : Store) : Observation where
  answer := answerOf (t.event.run.run (t.disk s))
  tree := (t.next s).tree
  clock := (after t.event.run (t.disk s)).clock
  supply := (after t.event.run (t.disk s)).supply

end Turn

/-- What is seen of the calls of a sequence, one after another. -/
def observe (s : Store) : List Turn → List Observation
  | [] => []
  | t :: turns => t.observation s :: observe (t.next s) turns

/-- No call of a sequence brings to light what is left behind on the handle with a number. -/
def Leftover.quiet (id : Nat) (δ : Leftover) (s : Store) : List Turn → Bool
  | [] => true
  | t :: turns => !δ.told id s t.event && (δ.next id s t.event).quiet id (t.next s) turns

namespace Leftover

variable {δ : Leftover} {s' : Store}

/-- Two stores differ in one handle, which others do not see. -/
theorem observation_of_not_told {t : Turn} (hd : Apart id (Left δ) (t.disk s) (t.disk s'))
    (ht : δ.told id s t.event = false) : t.observation s' = t.observation s := by
  obtain ⟨hanswer, hafter⟩ := event_of_not_told hd ht
  rw [Turn.observation, Turn.observation, Turn.next, Turn.next, hanswer]
  generalize after t.event.run (t.disk s) = e at hafter
  generalize after t.event.run (t.disk s') = e' at hafter
  obtain ⟨hid, hL⟩ := hafter
  rfl

/-- Another clock and another supply may be found. -/
theorem apart_disk {P : Handle → Handle → Prop} (hd : Apart id P d d') (t : Turn) :
    Apart id P (t.disk d.store) (t.disk d'.store) := by
  obtain ⟨hid, hP⟩ := hd
  exact .intro (d := t.disk _) hid hP

/-- With a trace on one handle all is seen as without it, until a call brings it to light. -/
theorem observe_of_quiet {turns : List Turn} (hd : Apart id (Left δ) d d')
    (hquiet : δ.quiet id d.store turns = true) :
    observe d'.store turns = observe d.store turns := by
  -- by induction on the calls, with whatever each of them leaves of the trace
  induction turns generalizing δ d d' with
  | nil => rfl
  | cons t turns ih =>
    rw [quiet, Bool.and_eq_true, Bool.not_eq_true'] at hquiet
    have hdisk := apart_disk hd t
    rw [observe, observe, observation_of_not_told hdisk hquiet.1]
    congr 1
    exact ih (event_of_not_told hdisk hquiet.1).2 hquiet.2

theorem told_nothing (s : Store) (e : Event) : nothing.told id s e = false := by
  cases e with
  | call c => rfl
  | use i c =>
    have htells : ∀ h, nothing.tells h c = false := by
      intro h
      cases c <;> simp [tells, nothing]
    cases hi : s.handles[i]? <;> simp [told, hi, htells]

theorem next_nothing (s : Store) (e : Event) : nothing.next id s e = nothing := by
  cases e with
  | call c => rfl
  | use i c => cases hi : s.handles[i]? <;> simp [next, hi]

/-- Without a trace there is nothing to bring to light. -/
theorem quiet_nothing (s : Store) (turns : List Turn) : nothing.quiet id s turns = true := by
  induction turns generalizing s with
  | nil => rfl
  | cons t turns ih => rw [quiet, told_nothing, next_nothing, ih, Bool.not_false, Bool.and_self]

end Leftover

/-! ## After a call that fails -/

namespace Handle

theorem leftover_of_same (hsame : (h.use c).2 = h) : h.leftover c = .nothing := by
  simp [leftover, hsame, Leftover.nothing]

theorem respond_of_failed {α : Type} {answer : α → Answer (Nat × String)}
    {r : Except Fault (α × Buffer)} (hf : (h.respond answer r).1 = .error f) :
    r = .error f ∧ (h.respond answer r).2 = h := by
  cases r with
  | ok a => cases hf
  | error f' =>
    cases hf
    exact ⟨rfl, rfl⟩

/-- A call that fails leaves its handle as it is, unless it is a write or a cut that the buffer
refuses. -/
theorem use_of_failed (hf : (h.use c).1 = .error f) :
    (h.use c).2 = h ∨
      (f.isArgument = true ∧ h.closed = false ∧ h.flags.writable = true ∧
        ((∃ data, c = .write data ∧ (h.use c).2 = h.written) ∨
          ∃ size, c = .truncate size ∧ (h.use c).2 = { h with dirty := true })) := by
  by_cases ho : h.closed = true
  · exact .inl (h.use_of_closed c ho)
  rw [Bool.not_eq_true] at ho
  rw [h.use_of_open c ho] at hf ⊢
  cases c with
  | read size =>
    rw [useOpen] at hf ⊢
    split at hf
    · rw [if_pos ‹_›]
      exact .inl (respond_of_failed hf).2
    · rw [if_neg ‹_›]
      exact .inl rfl
  | write data =>
    rw [useOpen] at hf ⊢
    split at hf
    · rename_i hw
      obtain ⟨hr, hself⟩ := respond_of_failed hf
      rw [if_pos hw]
      exact .inr ⟨Buffer.isArgument_of_write hr, ho, hw, .inl ⟨data, rfl, hself⟩⟩
    · rw [if_neg ‹_›]
      exact .inl rfl
  | seek offset origin => exact .inl (respond_of_failed hf).2
  | truncate size =>
    rw [useOpen] at hf ⊢
    split at hf
    · rename_i hw
      obtain ⟨hr, hself⟩ := respond_of_failed hf
      rw [if_pos hw]
      exact .inr ⟨Buffer.isArgument_of_truncate hr, ho, hw, .inr ⟨size, rfl, hself⟩⟩
    · rw [if_neg ‹_›]
      exact .inl rfl
  | tell | flush | close => cases hf

/-- A call that asks for no change leaves no trace where it fails, and neither does one that lacks
access. -/
theorem same_of_failed (hf : (h.use c).1 = .error f)
    (hc : f.isAccess = true ∨ (∀ data, c ≠ .write data) ∧ ∀ size, c ≠ .truncate size) :
    (h.use c).2 = h := by
  refine (use_of_failed hf).resolve_right ?_
  rintro ⟨hargument, -, -, hchange⟩
  rcases hc with haccess | ⟨hwrite, htruncate⟩
  · have hpassed := Ledger.passed_of_isArgument hargument
    rw [Ledger.passed, haccess] at hpassed
    cases hpassed
  · rcases hchange with ⟨data, hdata, -⟩ | ⟨size, hsize, -⟩
    · exact hwrite data hdata
    · exact htruncate size hsize

/-- What a call that fails leaves behind. -/
theorem left_of_failed (hf : (h.use c).1 = .error f) :
    (h.leftover c).Left h (h.use c).2 := by
  rcases use_of_failed hf with hsame | ⟨-, ho, hw, hchange⟩
  · rw [leftover_of_same hsame, hsame]
    exact Leftover.left_nothing_self h
  · have hmoved : (h.leftover c).moved = false →
        (h.use c).2.buffer.position = h.buffer.position := by simp [leftover]
    refine ⟨⟨(h.use c).2.buffer.position, ?_, fun _ => hmoved⟩, fun _ => hw, ?_, fun _ => ho⟩
    · rcases hchange with ⟨data, -, hwritten⟩ | ⟨size, -, hdirty⟩
      · simp only [leftover, left, hwritten, written]
        cases h.dirty <;> split <;> rfl
      · simp only [leftover, left, hdirty]
        cases h.dirty <;> rfl
    · intro hm
      rcases hchange with ⟨data, -, hwritten⟩ | ⟨size, -, hdirty⟩
      · by_contra ha
        simp [leftover, hwritten, written, ha] at hm
      · simp [leftover, hdirty] at hm

/-- A call that fails hands nothing on. -/
theorem commits_of_failed (hf : (h.use c).1 = .error f) : h.commits c = false := by
  by_contra hc
  rw [Bool.not_eq_false] at hc
  rw [h.use_of_open c (open_of_commits hc)] at hf
  cases c with
  | flush | close => cases hf
  | _ => cases hc

end Handle

/-- A call that fails leaves a disk that differs in the trace on the handle. -/
theorem run_use_of_failed (hid : d.store.handles[id]? = some h)
    (hfail : (use id c).run d = .error f d') :
    (h.use c).1 = .error f ∧ d' = d.setHandle id (h.use c).2 := by
  rw [run_use hid] at hfail
  cases hr : (h.use c).1 with
  | ok a =>
    rw [hr] at hfail
    cases hfail
  | error f' =>
    rw [hr, Disk.committed_of_not_commits (Handle.commits_of_failed hr)] at hfail
    cases hfail
    exact ⟨rfl, rfl⟩

/-- After a call on a handle that fails the entries are as they were. If it lacked access or asked
for no change, all later calls are seen as if it had not been made. If it is a write or a cut that
the buffer refuses, they are as long as none of them brings to light what is left behind on the
handle. -/
theorem observe_failed {clock : Nat} {supply : Supply}
    (hfail : (use id c).run ⟨s, clock, supply⟩ = .error f d') :
    d'.store.tree = s.tree ∧ d'.clock = clock ∧ d'.supply = supply ∧
      ((f.isAccess = true ∨ (∀ data, c ≠ .write data) ∧ ∀ size, c ≠ .truncate size) →
        ∀ turns, observe d'.store turns = observe s turns) ∧
      ∀ turns, (∀ h, s.handles[id]? = some h → (h.leftover c).quiet id s turns = true) →
        observe d'.store turns = observe s turns := by
  cases hid : s.handles[id]? with
  | none =>
    rw [run_use_none (d := ⟨s, clock, supply⟩) hid] at hfail
    cases hfail
    exact ⟨rfl, rfl, rfl, fun _ _ => rfl, fun _ _ => rfl⟩
  | some h =>
    obtain ⟨hf, rfl⟩ := run_use_of_failed (d := ⟨s, clock, supply⟩) hid hfail
    have hquiet : ∀ turns, (h.leftover c).quiet id s turns = true →
        observe ((Disk.setHandle id (h.use c).2 ⟨s, clock, supply⟩)).store turns =
          observe s turns := by
      intro turns hturns
      exact Leftover.observe_of_quiet (d := ⟨s, clock, supply⟩)
        (.intro hid (Handle.left_of_failed hf)) hturns
    refine ⟨rfl, rfl, rfl, ?_, fun turns hturns => hquiet turns (hturns h rfl)⟩
    intro hc turns
    apply hquiet
    rw [Handle.leftover_of_same (Handle.same_of_failed hf hc)]
    exact Leftover.quiet_nothing s turns

/-- A cut to a negative size, after which the content is changed all the same. -/
theorem observe_failed_covered :
    let s := (after (Event.call (.create "f")).run ⟨.empty 0, 1, {}⟩).store
    let d' := after (use 0 (.truncate (some (-1)))) ⟨s, 2, {}⟩
    let turns : List Turn := [⟨2, {}, .use 0 .tell⟩, ⟨2, {}, .use 0 (.write [0x31])⟩,
      ⟨5, {}, .use 0 .flush⟩, ⟨8, {}, .use 0 .close⟩]
    (use 0 (.truncate (some (-1)))).run ⟨s, 2, {}⟩ = .error (.negativeSize (-1)) d' ∧
      (∀ h, s.handles[0]? = some h →
        (h.leftover (.truncate (some (-1)))).quiet 0 s turns = true) ∧
      d'.store.tree = s.tree ∧ observe d'.store turns = observe s turns := by
  intro s d' turns
  have hfail : (use 0 (.truncate (some (-1)))).run ⟨s, 2, {}⟩ =
      .error (.negativeSize (-1)) d' := rfl
  have hquiet : ∀ h, s.handles[0]? = some h →
      (h.leftover (.truncate (some (-1)))).quiet 0 s turns = true := by
    intro h hid
    cases hid
    decide
  obtain ⟨htree, -, -, -, hobserve⟩ := observe_failed hfail
  exact ⟨hfail, hquiet, htree, hobserve turns hquiet⟩

/-! ## What comes to light -/

/-- Flushing or closing a handle that counts as changed, and was not, hands its copy of the content
to the file with the present tick. Without the failed call the file is left as it is. -/
theorem flush_left {δ : Leftover} {k : Key} (hid : d.store.handles[id]? = some h)
    (hL : δ.Left h h') (hm : δ.marked = true) (hclean : h.dirty = false) (hk : h.key = some k)
    (hc : c = .flush ∨ c = .close) :
    (after (use id c) d).store.tree = d.store.tree ∧ (after (use id c) d).clock = d.clock ∧
      (∀ j, (after (use id c) (d.setHandle id h')).store.tree.get? j =
        if j = k then some (.file h.buffer.content (modeAt d.store k) d.clock)
        else d.store.tree.get? j) ∧
      (after (use id c) (d.setHandle id h')).clock = d.clock + 1 := by
  have hlt : id < d.store.handles.length := (List.getElem?_eq_some_iff.1 hid).1
  have hid' : (d.setHandle id h').store.handles[id]? = some h' := List.getElem?_set_self hlt
  have ho : h.closed = false := hL.notClosed (by rintro rfl; cases hm)
  obtain ⟨position, rfl, -⟩ := hL.handle
  have hcommits : h.commits c = false := by
    rcases hc with rfl | rfl <;> simp [Handle.commits, hclean]
  have hcommits' : (h.left δ.marked position).commits c = true := by
    rcases hc with rfl | rfl <;> simp [Handle.commits, Handle.left, hm, ho]
  have hput : (d.setHandle id (h.left δ.marked position)).committed (h.left δ.marked position) c =
      (d.putFile k h.buffer.content (modeAt d.store k)).setHandle id
        (h.left δ.marked position) := by
    rw [Disk.committed_setHandle, Disk.committed, hcommits']
    have hk' : (h.left δ.marked position).key = some k := hk
    rw [hk']
    rfl
  rw [after_use hid, after_use hid', Disk.committed_of_not_commits hcommits, hput]
  exact ⟨rfl, rfl, fun j => Disk.get?_putFile d k j _ _, rfl⟩

/-- After a cut to a negative size has failed, closing the handle takes back what another handle has
written in the meantime. -/
theorem flush_left_lost :
    let s₁ := (after (Event.call (.create "f")).run ⟨.empty 0, 1, {}⟩).store
    let s := (after (Event.call (.openFile "f" ⟨2⟩ 0)).run ⟨s₁, 2, {}⟩).store
    let d' := after (use 0 (.truncate (some (-1)))) ⟨s, 2, {}⟩
    let turns : List Turn := [⟨2, {}, .use 1 (.write [0x32])⟩, ⟨2, {}, .use 1 .close⟩,
      ⟨3, {}, .use 0 .close⟩]
    Reachable s ∧
      (use 0 (.truncate (some (-1)))).run ⟨s, 2, {}⟩ = .error (.negativeSize (-1)) d' ∧
      ((observe s turns).getLast?.bind fun o => o.tree.get? ["f"]) =
        some (.file [0x32] (Mode.regular + 0o666) 2) ∧
      ((observe d'.store turns).getLast?.bind fun o => o.tree.get? ["f"]) =
        some (.file [] (Mode.regular + 0o666) 3) ∧
      observe d'.store turns ≠ observe s turns := by
  intro s₁ s d' turns
  have hwithout : ((observe s turns).getLast?.bind fun o => o.tree.get? ["f"]) =
      some (.file [0x32] (Mode.regular + 0o666) 2) := by decide
  have hwith : ((observe d'.store turns).getLast?.bind fun o => o.tree.get? ["f"]) =
      some (.file [] (Mode.regular + 0o666) 3) := by decide
  refine ⟨.step (.step (.new 0) 1 {} _) 2 {} _, rfl, hwithout, hwith, fun heq => ?_⟩
  rw [heq, hwithout] at hwith
  exact absurd hwith (by decide)

end RootedFS.Memory
