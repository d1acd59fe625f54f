import RootedFS.Proofs.Memory.Contents
import RootedFS.Proofs.Memory.Opening
import RootedFS.Proofs.Memory.Undisturbed

/-!
# Handles that append

A handle that appends only ever adds to its copy of the content or cuts it, wherever its position
has been taken. So the copy is told by the content that the file had when it was opened and by the
writes and the cuts through the handle that have succeeded, in their order. What else is called in
between, on the handle or elsewhere, and what has failed, is of no account. While nobody else
changes the file, it has that content once the handle is closed, wherever it has been moved.

## Main definitions

* `storeAfter`, `callsOn`: what a sequence of calls leads to, and those among them on one handle
* `replay`: a content after the writes and the cuts among calls that have ended in certain ways
* `Settled`: a file has the content that a handle without changes has a copy of
* `Continues`: how an appending handle stands after some calls, beside how it stood before
* `Appends`: a handle appends, and what writing to it and cutting it come to

## Main results

* `Handle.content_use`: what a call makes of an appending handle's copy of the content
* `Appender.turn`, `Appender.continues`: what one call and what a sequence of calls come to
* `Reachable.openFile_appends`: after any calls the copy is the replayed one, and so is the file
  when the handle is closed
-/

namespace RootedFS.Memory

variable {s : Store} {d : Disk} {h h' : Handle} {k : Key} {id : Nat} {c : HandleCall}

/-! ## Calls and what they make of a content -/

/-- A call on a handle, and how it has ended. -/
abbrev Ended := HandleCall × Except Fault (Answer (Nat × String))

/-- The store after a sequence of calls. -/
def storeAfter (s : Store) : List Turn → Store
  | [] => s
  | t :: turns => storeAfter (t.next s) turns

/-- A call on the handle with a number, and how it has ended; nothing for other calls. -/
def Turn.callsOn (t : Turn) (id : Nat) (s : Store) : List Ended :=
  match t.event with
  | .use i c => if i = id then [(c, answerOf ((use i c).run (t.disk s)))] else []
  | .call _ => []

/-- The calls of a sequence on the handle with a number, and how each has ended. -/
def callsOn (id : Nat) (s : Store) : List Turn → List Ended
  | [] => []
  | t :: turns => t.callsOn id s ++ callsOn id (t.next s) turns

/-- What a call through an appending handle makes of a content: a write that succeeds adds its data
at the end, and a cut that succeeds leaves as much as it answers, if there is as much. -/
def replayed (content : Bytes) : Ended → Bytes
  | (.write data, .ok _) => content ++ data
  | (.truncate _, .ok (.number size)) => content.take size.toNat
  | _ => content

/-- What the calls of a sequence make of a content. -/
def replay (content : Bytes) (calls : List Ended) : Bytes :=
  calls.foldl replayed content

theorem replay_append (content : Bytes) (calls calls' : List Ended) :
    replay content (calls ++ calls') = replay (replay content calls) calls' :=
  List.foldl_append

/-! ## Calls on the handle -/

namespace Handle

/-- A handle that appends writes at the end of its copy of the content. -/
theorem use_write_end (ho : h.closed = false) (ha : h.flags.append = true)
    (hw : h.flags.writable = true) (data : Bytes) :
    h.use (.write data) = h.written.respond (fun n : Nat => .number n)
      ((⟨h.buffer.content, h.buffer.content.length⟩ : Buffer).write data) := by
  have hbuffer : h.written.buffer = ⟨h.buffer.content, h.buffer.content.length⟩ := by
    rw [written, ha]
    rfl
  rw [h.use_of_open _ ho, useOpen, if_pos hw, hbuffer]

/-- A write that succeeds has added its data at the end, where the position is then. -/
theorem use_write_of_ok {data : Bytes} {a : Answer (Nat × String)} (ho : h.closed = false)
    (ha : h.flags.append = true) (hw : h.flags.writable = true)
    (hok : (h.use (.write data)).1 = .ok a) :
    h.use (.write data) = (.ok (.number data.length), { h with
      buffer := ⟨h.buffer.content ++ data, (h.buffer.content ++ data).length⟩
      dirty := true }) := by
  rw [use_write_end ho ha hw] at hok ⊢
  cases hwrite : (⟨h.buffer.content, h.buffer.content.length⟩ : Buffer).write data with
  | ok r =>
    rw [Buffer.eq_of_write_end _ hwrite]
    rfl
  | error f =>
    rw [hwrite] at hok
    cases hok

/-- A cut that succeeds leaves as much of the content as was asked for, or what is before the
position. -/
theorem use_truncate_of_ok {size : Option Int} {a : Answer (Nat × String)} (ho : h.closed = false)
    (hok : (h.use (.truncate size)).1 = .ok a) :
    h.use (.truncate size) = (.ok (.number (size.getD h.buffer.position)), { h with
      buffer := { h.buffer with
        content := h.buffer.content.take (size.getD h.buffer.position).toNat }
      dirty := true }) := by
  rw [h.use_of_open _ ho, useOpen] at hok ⊢
  split at hok
  · rename_i hw
    rw [if_pos hw]
    rw [Buffer.truncate] at hok ⊢
    dsimp only at hok ⊢
    split at hok
    · cases hok
    · split at hok
      · cases hok
      · rename_i hfits hneg
        rw [if_neg hfits, if_neg hneg]
        simp [respond, Int.toNat_of_nonneg (Int.not_lt.1 hneg)]
  · cases hok

theorem content_of_read {b b' : Buffer} {size : Option Int} {data : Bytes}
    (hread : b.read size = .ok (data, b')) : b'.content = b.content := by
  rw [Buffer.read] at hread
  split at hread <;> cases hread
  rfl

theorem content_of_seek {b b' : Buffer} {offset origin : Int} {position : Nat}
    (hseek : b.seek offset origin = .ok (position, b')) : b'.content = b.content := by
  simp only [Buffer.seek] at hseek
  repeat' split at hseek
  all_goals cases hseek
  all_goals rfl

/-- A call that fails leaves the content as it is. -/
theorem content_of_failed {f : Fault} (hf : (h.use c).1 = .error f) :
    (h.use c).2.buffer.content = h.buffer.content := by
  rcases use_of_failed hf with hsame | ⟨-, -, -, ⟨data, -, hwritten⟩ | ⟨size, -, hmarked⟩⟩
  · rw [hsame]
  · rw [hwritten, written]
    split <;> rfl
  · rw [hmarked]

/-- A call that asks for no change leaves the content as it is. -/
theorem content_of_no_change (ho : h.closed = false) (hwrite : ∀ data, c ≠ .write data)
    (htruncate : ∀ size, c ≠ .truncate size) :
    (h.use c).2.buffer.content = h.buffer.content := by
  cases hr : (h.use c).1 with
  | error f => exact content_of_failed hr
  | ok a =>
    rw [h.use_of_open _ ho] at hr ⊢
    cases c with
    | write data => exact absurd rfl (hwrite data)
    | truncate size => exact absurd rfl (htruncate size)
    | read size =>
      rw [useOpen] at hr ⊢
      split at hr
      · rw [if_pos ‹_›]
        cases hread : h.buffer.read size with
        | ok r => exact content_of_read hread
        | error f => rfl
      · cases hr
    | seek offset origin =>
      rw [useOpen]
      cases hseek : h.buffer.seek offset origin with
      | ok r => exact content_of_seek hseek
      | error f => rfl
    | tell | flush | close => rfl

/-- What a call makes of an appending handle's copy of the content is told by the call and its
answer; the position plays no part. -/
theorem content_use (ho : h.closed = false) (ha : h.flags.append = true)
    (hw : h.flags.writable = true) (c : HandleCall) :
    (h.use c).2.buffer.content = replayed h.buffer.content (c, (h.use c).1) := by
  cases hr : (h.use c).1 with
  | error f =>
    rw [content_of_failed hr]
    cases c <;> rfl
  | ok a =>
    cases c with
    | write data =>
      rw [use_write_of_ok ho ha hw hr]
      rfl
    | truncate size =>
      have hcut := use_truncate_of_ok ho hr
      rw [hcut] at hr ⊢
      cases hr
      rfl
    | read | seek | tell | flush | close => exact content_of_no_change ho (by simp) (by simp)

/-- A handle that counts as unchanged after a call on it has the content that it had. -/
theorem content_of_clean (ho : h.closed = false) (hclean : (h.use c).2.dirty = false) :
    (h.use c).2.buffer.content = h.buffer.content := by
  cases hr : (h.use c).1 with
  | error f => exact content_of_failed hr
  | ok a =>
    rw [h.dirty_use c ho, hr] at hclean
    apply content_of_no_change ho
    · rintro data rfl
      simp [Ledger.pendingAfter, Ledger.passed] at hclean
    · rintro size rfl
      simp [Ledger.pendingAfter, Ledger.passed] at hclean

/-- Changes go from an open handle only as it hands its content on. -/
theorem commits_of_clean (ho : h.closed = false) (hdirty : h.dirty = true)
    (hclean : (h.use c).2.dirty = false) : h.commits c = true := by
  rw [h.dirty_use c ho, hdirty] at hclean
  cases c with
  | flush | close => rw [commits, ho, hdirty]; rfl
  | read | write | seek | tell | truncate => cases hclean

end Handle

/-! ## The file under the handle -/

/-- The file that a handle is on has the content that the handle has a copy of, unless the copy has
changes. -/
def Settled (s : Store) (h : Handle) : Prop :=
  h.dirty = false → ∀ k, h.key = some k → s.files.get? k = some h.buffer.content

/-- A call on the handle keeps the file settled, since what is handed on is the copy. -/
theorem Settled.use (hset : Settled d.store h) (hid : d.store.handles[id]? = some h)
    (ho : h.closed = false) (c : HandleCall) :
    Settled (after (Memory.use id c) d).store (h.use c).2 := by
  intro hclean k hk
  rw [(h.use_frame c).1] at hk
  have hfiles : (after (Memory.use id c) d).store.files = (d.committed h c).store.files := by
    rw [after_use hid]
    rfl
  rw [Handle.content_of_clean ho hclean, hfiles]
  cases hdirty : h.dirty with
  | true =>
    rw [Disk.committed, hk, Handle.commits_of_clean ho hdirty hclean]
    exact (Tree.get?_insert ..).trans (if_pos rfl)
  | false =>
    have hcommits : h.commits c = false := by
      cases c <;> simp [Handle.commits, hdirty]
    rw [Disk.committed_of_not_commits hcommits]
    exact hset hdirty k hk

/-- A call that is not made on the handle keeps the file settled, if it spares that. -/
theorem Settled.turn {t : Turn} (hset : Settled s h) (hkey : ∃ key, h' = { h with key })
    (hentry : ∀ k', h'.key = some k' →
      ∃ k, h.key = some k ∧ (t.next s).files.get? k' = s.files.get? k) :
    Settled (t.next s) h' := by
  obtain ⟨key, rfl⟩ := hkey
  intro hclean k' hk'
  obtain ⟨k, hk, hfiles⟩ := hentry k' hk'
  exact hfiles.trans (hset hclean k hk)

/-! ## Sequences of calls -/

/-- A handle of a store is open, for writing, and appends. -/
structure Appender (s : Store) (id : Nat) (h : Handle) : Prop where
  handle : s.handles[id]? = some h
  notClosed : h.closed = false
  append : h.flags.append = true
  writable : h.flags.writable = true

/-- A call other than closing leaves a handle open. -/
theorem Handle.closed_use (ho : h.closed = false) (hc : c ≠ .close) :
    (h.use c).2.closed = false := by
  rw [h.use_of_open c ho]
  cases c with
  | close => exact absurd rfl hc
  | _ => simp only [useOpen]; (try split) <;> simp [respond_frame, written, ho]

/-- How an appending handle stands after some calls: it still appends, its copy of the content is
what is replayed of the calls on it, and its file is settled if it was before and has been
spared. -/
structure Continues (id : Nat) (s : Store) (h : Handle) (calls : List Ended) (spared : Bool)
    (s' : Store) (h' : Handle) : Prop where
  appender : Appender s' id h'
  content : h'.buffer.content = replay h.buffer.content calls
  settled : spared = true → Settled s h → Settled s' h'

/-- Some calls are followed by others. -/
theorem Continues.trans {s₁ s' : Store} {h₁ : Handle} {calls calls' : List Ended}
    {spared spared' : Bool} (hfirst : Continues id s h calls spared s₁ h₁)
    (hrest : Continues id s₁ h₁ calls' spared' s' h') :
    Continues id s h (calls ++ calls') (spared && spared') s' h' where
  appender := hrest.appender
  content := by rw [hrest.content, hfirst.content, replay_append]
  settled := by
    intro hboth hset
    rw [Bool.and_eq_true] at hboth
    exact hrest.settled hboth.2 (hfirst.settled hboth.1 hset)

namespace Appender

variable {t : Turn} {turns : List Turn}

/-- A call on the handle makes of the copy of the content what is replayed of it, and keeps the
file settled. -/
theorem turn_own (ha : Appender s id h) (ht : t.event = .use id c) (hc : c ≠ .close) :
    ∃ h', Continues id s h (t.callsOn id s) (t.spares id s) (t.next s) h' := by
  have hnext : t.next s = (after (use id c) (t.disk s)).store := by
    rw [Turn.next, ht]
    rfl
  have hcalls : t.callsOn id s = [(c, (h.use c).1)] := by
    rw [Turn.callsOn, ht]
    simp [run_use (d := t.disk s) ha.handle]
  have hflags := (h.use_frame c).2.2.1
  refine ⟨(h.use c).2, ?_, ?_, fun _ hset => ?_⟩
  · rw [hnext]
    exact ⟨getElem?_handles_use_self (d := t.disk s) ha.handle c, h.closed_use ha.notClosed hc,
      by rw [hflags, ha.append], by rw [hflags, ha.writable]⟩
  · rw [hcalls]
    exact h.content_use ha.notClosed ha.append ha.writable c
  · rw [hnext]
    exact Settled.use (d := t.disk s) hset ha.handle ha.notClosed c

/-- A call elsewhere leaves the copy of the content alone, and keeps the file settled if it spares
that. -/
theorem turn_other (hs : s.Sound) (ha : Appender s id h) (ht : ∀ c, t.event ≠ .use id c) :
    ∃ h', Continues id s h (t.callsOn id s) (t.spares id s) (t.next s) h' := by
  obtain ⟨h', hid', ⟨key, rfl⟩, hentry⟩ := t.exists_handle hs ha.handle ha.notClosed ht
  have hcalls : t.callsOn id s = [] := by
    cases he : t.event with
    | call c => rw [Turn.callsOn, he]
    | use i c =>
      rw [Turn.callsOn, he]
      refine if_neg ?_
      rintro rfl
      exact ht c he
  refine ⟨_, ⟨hid', ha.notClosed, ha.append, ha.writable⟩, ?_, fun hspares hset => ?_⟩
  · rw [hcalls]
    rfl
  · exact hset.turn ⟨key, rfl⟩ (hentry hspares)

/-- One call, on the handle or elsewhere, that does not close it. -/
theorem turn (hs : s.Sound) (ha : Appender s id h) (ht : t.event ≠ .use id .close) :
    ∃ h', Continues id s h (t.callsOn id s) (t.spares id s) (t.next s) h' := by
  by_cases hown : ∃ c, t.event = .use id c
  · obtain ⟨c, hc⟩ := hown
    refine ha.turn_own hc ?_
    rintro rfl
    exact ht hc
  · exact ha.turn_other hs fun c hc => hown ⟨c, hc⟩

/-- Any calls that do not close the handle. -/
theorem continues (hs : Reachable s) (ha : Appender s id h)
    (hturns : ∀ t ∈ turns, t.event ≠ .use id .close) :
    ∃ h', Continues id s h (callsOn id s turns) (undisturbed id s turns) (storeAfter s turns)
      h' := by
  -- by induction on the calls, with the handle and the store that each of them leaves
  induction turns generalizing s h with
  | nil => exact ⟨h, ha, rfl, fun _ hset => hset⟩
  | cons t turns ih =>
    have hnext : Reachable (t.next s) := hs.step t.clock t.supply t.event
    obtain ⟨h₁, hfirst⟩ := ha.turn hs.sound (hturns t List.mem_cons_self)
    obtain ⟨h', hrest⟩ := ih hnext hfirst.appender fun t' ht' =>
      hturns t' (List.mem_cons_of_mem t ht')
    exact ⟨h', hfirst.trans hrest⟩

end Appender

/-! ## What an appending handle does -/

/-- What comes of writing to an appending handle, and of cutting it. -/
structure Appends (s : Store) (id : Nat) (h : Handle) : Prop extends Appender s id h where
  /-- A write that succeeds answers how much it has been given, and has added that at the end, where
  the position is then. -/
  write : ∀ clock supply data a d, (use id (.write data)).run ⟨s, clock, supply⟩ = .ok a d →
    a = .number data.length ∧ d.store.handles[id]? = some { h with
      buffer := ⟨h.buffer.content ++ data, (h.buffer.content ++ data).length⟩
      dirty := true }
  /-- It succeeds if it fits into memory. -/
  room : ∀ clock supply (data : Bytes), h.buffer.content.length + data.length < memoryLimit →
    ∃ a d, (use id (.write data)).run ⟨s, clock, supply⟩ = .ok a d
  /-- A cut that succeeds answers the size asked for, or else the position, and has left that much
  of the content; the position stays. -/
  truncate : ∀ clock supply size a d, (use id (.truncate size)).run ⟨s, clock, supply⟩ = .ok a d →
    a = .number (size.getD h.buffer.position) ∧ d.store.handles[id]? = some { h with
      buffer := { h.buffer with
        content := h.buffer.content.take (size.getD h.buffer.position).toNat }
      dirty := true }

/-- A call on a handle that succeeds is told by the handle. -/
theorem eq_of_run_use_ok {d' : Disk} {a : Answer (Nat × String)}
    (hid : d.store.handles[id]? = some h) (hrun : (use id c).run d = .ok a d') :
    (h.use c).1 = .ok a ∧ d'.store.handles[id]? = some (h.use c).2 := by
  have hafter := getElem?_handles_use_self hid c
  rw [after, hrun] at hafter
  rw [run_use hid] at hrun
  refine ⟨?_, hafter⟩
  cases hr : (h.use c).1 with
  | ok a' =>
    rw [hr] at hrun
    cases hrun
    rfl
  | error f =>
    rw [hr] at hrun
    cases hrun

theorem Appender.appends (ha : Appender s id h) : Appends s id h where
  toAppender := ha
  write clock supply data a d hrun := by
    obtain ⟨hok, hid⟩ := eq_of_run_use_ok (d := ⟨s, clock, supply⟩) ha.handle hrun
    have huse := Handle.use_write_of_ok ha.notClosed ha.append ha.writable hok
    rw [huse] at hok hid
    exact ⟨(Except.ok.inj hok).symm, hid⟩
  room clock supply data hroom := by
    rw [run_use (d := ⟨s, clock, supply⟩) ha.handle,
      Handle.use_write_end ha.notClosed ha.append ha.writable, Buffer.write_end _ hroom]
    exact ⟨_, _, rfl⟩
  truncate clock supply size a d hrun := by
    obtain ⟨hok, hid⟩ := eq_of_run_use_ok (d := ⟨s, clock, supply⟩) ha.handle hrun
    have huse := Handle.use_truncate_of_ok ha.notClosed hok
    rw [huse] at hok hid
    exact ⟨(Except.ok.inj hok).symm, hid⟩

/-- Closing a handle on a settled file leaves the file with the copy of the content, whether or not
anything has to be handed on. -/
theorem Appender.close (ha : Appender s id h) (hset : Settled s h) (hk : h.key = some k)
    (clock : Nat) (supply : Supply) :
    ∃ d', (use id .close).run ⟨s, clock, supply⟩ = .ok .done d' ∧
      d'.store.files.get? k = some h.buffer.content := by
  have huse : h.use .close = (.ok .done, { h with dirty := false, closed := true }) :=
    h.use_of_open .close ha.notClosed
  have hclosed := Settled.use (d := ⟨s, clock, supply⟩) hset ha.handle ha.notClosed .close
  rw [after, run_use (d := ⟨s, clock, supply⟩) ha.handle, huse] at hclosed
  rw [run_use (d := ⟨s, clock, supply⟩) ha.handle, huse]
  exact ⟨_, rfl, hclosed rfl k hk⟩

/-- A file that has been opened without being emptied is on the new handle as it is; one that was
not there is empty. -/
theorem OpenOutcome.exists_newHandle {e : Disk} {path : String} {flags : OpenFlags} {perm : Int}
    (hs : d.store.Sound) (hout : OpenOutcome d k path flags perm (.ok id e))
    (ht : d.store.hasFile k = true → flags.truncate = false) :
    e.store.handles[id]? = some (newHandle k path flags ((d.store.files.get? k).getD [])) ∧
      e.store.files.get? k = some ((d.store.files.get? k).getD []) := by
  cases hout with
  | emptied hget _ hempty =>
    rw [ht (hs.inStep.isFile_tree.1 (Tree.isFile_of_get? hget))] at hempty
    cases hempty
  | kept hget =>
    have hfile := (hs.inStep.get?_of_file hget).1
    rw [hfile]
    exact ⟨getElem?_addHandle _ _, hfile⟩
  | made hnone hc hfree =>
    have hfile : d.store.files.get? k = none := by
      simpa [Store.hasFile] using (hs.inStep.get?_tree_eq_none_iff.1 hnone).1
    rw [hfile]
    refine ⟨?_, (Tree.get?_insert ..).trans (if_pos rfl)⟩
    simp

/-- Whatever calls have been made before, a file may be opened for writing at its end, without being
emptied. After any calls on the handle and elsewhere, but for closing it, its copy of the content is
what the writes and the cuts on it that have succeeded make of the file's content, in their order.
If no other handle that was flushed or closed and no opening that empties has changed the file by
then, and the handle has not lost it, then closing leaves the file with that content. -/
theorem Reachable.openFile_appends {clock : Nat} {supply : Supply} {path : String}
    {flags : OpenFlags} {perm : Int} {turns : List Turn} (hs : Reachable s)
    (ha : flags.append = true) (hw : flags.writable = true)
    (ht : s.hasFile (Key.resolve path) = true → flags.truncate = false)
    (hopen : (Memory.openFile path flags perm).run ⟨s, clock, supply⟩ = .ok id d)
    (hturns : ∀ t ∈ turns, t.event ≠ .use id .close) :
    ∃ h, Appends (storeAfter d.store turns) id h ∧
      h.buffer.content =
        replay ((s.files.get? (Key.resolve path)).getD []) (callsOn id d.store turns) ∧
      (undisturbed id d.store turns = true → ∀ k, h.key = some k → ∀ clock supply,
        ∃ d', (Memory.use id .close).run ⟨storeAfter d.store turns, clock, supply⟩ =
            .ok .done d' ∧
          d'.store.files.get? k = some h.buffer.content) := by
  obtain ⟨r, hout⟩ := openOutcome ⟨s, clock, supply⟩ (Key.resolve path) path flags perm
  have hreach := hs.openFile (d := ⟨s, clock, supply⟩) hout
  have hrun := hout.run (d := ⟨s, clock, supply⟩) hs.sound
  rw [hopen] at hrun
  subst hrun
  obtain ⟨hid, hfile⟩ := hout.exists_newHandle hs.sound ht
  have hfresh := fresh_newHandle (Key.resolve path) path flags
    ((s.files.get? (Key.resolve path)).getD [])
  have hsettled : Settled d.store (newHandle (Key.resolve path) path flags
      ((s.files.get? (Key.resolve path)).getD [])) := by
    intro _ k hk
    obtain rfl := Option.some.inj hk
    rw [hfresh.copy]
    exact hfile
  have happender : Appender d.store id _ := ⟨hid, hfresh.notClosed, ha, hw⟩
  obtain ⟨h, hh⟩ := happender.continues hreach hturns
  have hcontent := hh.content
  rw [hfresh.copy] at hcontent
  refine ⟨h, hh.appender.appends, hcontent, fun hun k hk clock supply => ?_⟩
  exact hh.appender.close (hh.settled hun hsettled) hk clock supply

/-- A handle for writing at the end is taken far beyond it before it writes, and its file is moved
with the directory before it is cut. A cut to a negative size fails, and in the place of the file
another one is created. -/
theorem Reachable.openFile_appends_moved :
    let s₁ := (after (Event.call (.create "a/f")).run ⟨.empty 0, 0, {}⟩).store
    let s₂ := (after (Event.use 0 (.write [1, 2, 3])).run ⟨s₁, 1, {}⟩).store
    let s := (after (Event.use 0 .close).run ⟨s₂, 1, {}⟩).store
    let d := after (Memory.openFile "a//f" ⟨0x402⟩ 0) ⟨s, 2, {}⟩
    let turns : List Turn := [⟨2, {}, .use 1 (.seek 9 0)⟩, ⟨2, {}, .use 1 (.write [4])⟩,
      ⟨2, {}, .call (.rename "a" "b")⟩, ⟨2, {}, .use 1 (.truncate (some 2))⟩,
      ⟨2, {}, .use 1 .flush⟩, ⟨3, {}, .use 1 (.truncate (some (-1)))⟩,
      ⟨3, {}, .call (.create "a/f")⟩, ⟨5, {}, .use 1 (.write [5])⟩]
    Reachable s ∧ (Memory.openFile "a//f" ⟨0x402⟩ 0).run ⟨s, 2, {}⟩ = .ok 1 d ∧
      undisturbed 1 d.store turns = true ∧
      ∃ h, Appends (storeAfter d.store turns) 1 h ∧ h.buffer.content = [1, 2, 5] ∧
        ∃ d', (Memory.use 1 .close).run ⟨storeAfter d.store turns, 5, {}⟩ = .ok .done d' ∧
          d'.store.files.get? ["b", "f"] = some [1, 2, 5] := by
  intro s₁ s₂ s d turns
  have hs : Reachable s := .step (.step (.step (.new 0) 0 {} _) 1 {} _) 1 {} _
  have hopen : (Memory.openFile "a//f" ⟨0x402⟩ 0).run ⟨s, 2, {}⟩ = .ok 1 d := rfl
  have hundisturbed : undisturbed 1 d.store turns = true := by decide
  have hreplay : replay ((s.files.get? (Key.resolve "a//f")).getD []) (callsOn 1 d.store turns) =
      [1, 2, 5] := by decide
  have hkey : (storeAfter d.store turns).handles[1]?.map Handle.key = some (some ["b", "f"]) := by
    decide
  have hturns : ∀ t ∈ turns, t.event ≠ .use 1 .close := by decide
  obtain ⟨h, hh, hcontent, hclose⟩ :=
    hs.openFile_appends (by decide) (by decide) (fun _ => by decide) hopen hturns
  rw [hreplay] at hcontent
  rw [hh.handle] at hkey
  obtain ⟨d', hrun, hfile⟩ := hclose hundisturbed _ (Option.some.inj hkey) 5 {}
  exact ⟨hs, hopen, hundisturbed, h, hh, hcontent, d', hrun, hcontent ▸ hfile⟩

end RootedFS.Memory
