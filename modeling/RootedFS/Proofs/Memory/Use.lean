import RootedFS.Proofs.Calls
import RootedFS.Proofs.Memory.Disk

/-!
# What calls on handles come to

A call on a handle is told by the handle alone: what it answers, the handle afterwards, and whether
its content is handed to its file. Neither the file's place nor the rest of the store plays a part
in the answer.

## Main definitions

* `Handle.use`: the answer to a call on a handle, and the handle afterwards
* `Handle.commits`: whether a call hands the content on
* `Fault.isArgument`, `Fault.isAccess`: the faults that calls on handles can end in

## Main results

* `run_use`: a call on a handle of a store is told by the handle
-/

namespace RootedFS

/-! ## Faults of calls on handles -/

/-- A size, a position or an origin was asked for that cannot be had. -/
def Fault.isArgument : Fault → Bool
  | outOfRange _ | negativeSeek _ | negativeSize _ | unknownOrigin _ => true
  | wrappedLength | outOfMemory => true
  | _ => false

/-- The handle does not allow the access, or is closed. -/
def Fault.isAccess : Fault → Bool
  | closedHandle _ | unsupported _ => true
  | _ => false

section

variable {b : Buffer} {f : Fault}

theorem isArgument_of_requireLength {length : Nat} (h : requireLength length = .error f) :
    f.isArgument = true := by
  simp only [requireLength, bind, Except.bind, throw, throwThe, MonadExceptOf.throw, pure,
    Except.pure] at h
  repeat' split at h
  all_goals cases h <;> rfl

theorem Buffer.isArgument_of_read {size : Option Int} (h : b.read size = .error f) :
    f.isArgument = true := by
  rw [Buffer.read] at h
  split at h <;> cases h
  rfl

theorem Buffer.isArgument_of_write {data : Bytes} (h : b.write data = .error f) :
    f.isArgument = true := by
  have hlength := @isArgument_of_requireLength f (b.position + data.length + 1)
  have hbuffer : (Fault.outOfRange .buffer).isArgument = true := rfl
  simp only [Buffer.write, bind, Except.bind, throw, throwThe, MonadExceptOf.throw, pure,
    Except.pure] at h
  repeat' split at h
  all_goals simp_all

theorem Buffer.isArgument_of_seek {offset origin : Int} (h : b.seek offset origin = .error f) :
    f.isArgument = true := by
  simp only [Buffer.seek] at h
  repeat' split at h
  all_goals cases h <;> rfl

theorem Buffer.isArgument_of_truncate {size : Option Int} (h : b.truncate size = .error f) :
    f.isArgument = true := by
  simp only [Buffer.truncate] at h
  repeat' split at h
  all_goals cases h <;> rfl

end

/-! ## Writing at the end -/

section

variable (content : Bytes) {data : Bytes}

theorem Bytes.writeAt_length (data : Bytes) :
    content.writeAt content.length data = content ++ data := by
  simp [writeAt, resize]

/-- Bytes that a buffer takes at its end follow its content, with the position behind them. -/
theorem Buffer.eq_of_write_end {r : Nat × Buffer}
    (h : (⟨content, content.length⟩ : Buffer).write data = .ok r) :
    r = (data.length, ⟨content ++ data, (content ++ data).length⟩) := by
  by_cases hdata : data = []
  · subst hdata
    rw [List.append_nil]
    exact (Except.ok.inj h).symm
  · simp only [write, if_neg hdata, bind, Except.bind] at h
    repeat' split at h
    all_goals cases h
    all_goals rw [Bytes.writeAt_length, List.length_append]

/-- A buffer takes at its end what fits into memory with its content. -/
theorem Buffer.write_end (h : content.length + data.length < memoryLimit) :
    (⟨content, content.length⟩ : Buffer).write data =
      .ok (data.length, ⟨content ++ data, (content ++ data).length⟩) := by
  have hposition : ¬maxPosition < content.length + data.length := by
    rw [memoryLimit] at h
    rw [maxPosition]
    omega
  have hlength : requireLength (content.length + data.length + 1) = .ok () := by
    rw [memoryLimit] at h
    rw [requireLength, maxLength, maxPosition, memoryLimit, if_neg (by omega), if_neg (by omega),
      if_neg (by omega)]
    rfl
  by_cases hdata : data = []
  · simp [write, hdata, pure, Except.pure]
  · simp [write, hdata, hposition, hlength, Bytes.writeAt_length, bind, Except.bind, pure,
      Except.pure]

end

namespace Memory

/-! ## Calls on handles -/

namespace Handle

variable {α : Type}

/-- The answer to a call that works on the buffer, and the handle afterwards. -/
def respond (h : Handle) (answer : α → Answer (Nat × String)) :
    Except Fault (α × Buffer) → Except Fault (Answer (Nat × String)) × Handle
  | .ok (a, buffer) => (.ok (answer a), { h with buffer })
  | .error f => (.error f, h)

/-- The handle as a write finds it: with its position at the end where it appends, and with changes
to hand on. -/
def written (h : Handle) : Handle :=
  { h with buffer := if h.flags.append then h.buffer.toEnd else h.buffer, dirty := true }

/-- The answer to a call on an open handle, and the handle afterwards. -/
def useOpen (h : Handle) : HandleCall → Except Fault (Answer (Nat × String)) × Handle
  | .read size =>
    if h.flags.readable then h.respond .bytes (h.buffer.read size)
    else (.error (.unsupported .read), h)
  | .write data =>
    if h.flags.writable then
      h.written.respond (fun n : Nat => .number n) (h.written.buffer.write data)
    else (.error (.unsupported .write), h)
  | .seek offset origin => h.respond (fun n : Nat => .number n) (h.buffer.seek offset origin)
  | .tell => (.ok (.number h.buffer.position), h)
  | .truncate size =>
    if h.flags.writable then
      { h with dirty := true }.respond (fun n : Nat => .number n) (h.buffer.truncate size)
    else (.error (.unsupported .truncate), h)
  | .flush => (.ok .done, { h with dirty := false })
  | .close => (.ok .done, { h with dirty := false, closed := true })

/-- The answer to a call on a handle, and the handle afterwards. A closed handle may be closed
again, and nothing else. -/
def use (h : Handle) (c : HandleCall) : Except Fault (Answer (Nat × String)) × Handle :=
  if !h.closed then h.useOpen c
  else if c = .close then (.ok .done, h)
  else (.error (.closedHandle h.name), h)

/-- Whether a call hands the content of the handle to its file. -/
def commits (h : Handle) : HandleCall → Bool
  | .flush | .close => !h.closed && h.dirty
  | _ => false

variable (h : Handle) (c : HandleCall)

theorem use_of_open (ho : h.closed = false) : h.use c = h.useOpen c := by
  rw [use, ho]
  rfl

/-- A closed handle stays as it is. -/
theorem use_of_closed (ho : h.closed = true) : (h.use c).2 = h := by
  rw [use, ho, if_neg (by simp)]
  split <;> rfl

theorem commits_of_closed (ho : h.closed = true) : h.commits c = false := by
  cases c <;> simp [commits, ho]

/-- Only open handles hand their content on. -/
theorem open_of_commits {h : Handle} {c : HandleCall} (hc : h.commits c = true) :
    h.closed = false := by
  by_contra ho
  rw [h.commits_of_closed c (by simpa using ho)] at hc
  cases hc

/-- A call other than closing leaves all but the buffer and the note of changes as it is. -/
theorem respond_frame (answer : α → Answer (Nat × String)) (r : Except Fault (α × Buffer)) :
    (h.respond answer r).2.key = h.key ∧ (h.respond answer r).2.name = h.name ∧
      (h.respond answer r).2.flags = h.flags ∧ (h.respond answer r).2.closed = h.closed ∧
      (h.respond answer r).2.dirty = h.dirty := by
  cases r <;> exact ⟨rfl, rfl, rfl, rfl, rfl⟩

theorem isArgument_of_respond {h : Handle} {answer : α → Answer (Nat × String)}
    {r : Except Fault (α × Buffer)} {f : Fault} (hr : ∀ {f}, r = .error f → f.isArgument = true)
    (hf : (h.respond answer r).1 = .error f) : f.isArgument = true := by
  cases r with
  | ok a => cases hf
  | error f' => exact Except.error.inj hf ▸ hr rfl

/-- A call on a handle fails for a lack of access or because of its arguments. -/
theorem isAccess_or_isArgument_of_use {h : Handle} {c : HandleCall} {f : Fault}
    (hf : (h.use c).1 = .error f) : f.isAccess = true ∨ f.isArgument = true := by
  cases ho : h.closed with
  | true =>
    rw [use, ho, if_neg (by simp)] at hf
    split at hf <;> cases hf
    exact .inl rfl
  | false =>
    rw [h.use_of_open c ho] at hf
    cases c with
    | read size =>
      rw [useOpen] at hf
      split at hf
      · exact .inr (isArgument_of_respond Buffer.isArgument_of_read hf)
      · cases hf
        exact .inl rfl
    | write data =>
      rw [useOpen] at hf
      split at hf
      · exact .inr (isArgument_of_respond Buffer.isArgument_of_write hf)
      · cases hf
        exact .inl rfl
    | seek offset origin => exact .inr (isArgument_of_respond Buffer.isArgument_of_seek hf)
    | truncate size =>
      rw [useOpen] at hf
      split at hf
      · exact .inr (isArgument_of_respond Buffer.isArgument_of_truncate hf)
      · cases hf
        exact .inl rfl
    | tell | flush | close => cases hf

/-- No call changes which file the handle is on, or how it was opened. -/
theorem use_frame :
    (h.use c).2.key = h.key ∧ (h.use c).2.name = h.name ∧ (h.use c).2.flags = h.flags ∧
      (h.closed = true → (h.use c).2.closed = true) := by
  cases ho : h.closed with
  | true => simp [use_of_closed h c ho, ho]
  | false =>
    rw [use_of_open h c ho]
    cases c <;> simp only [useOpen] <;> (try split) <;> simp [respond_frame, written]

end Handle

/-- The disk after a call on a handle has handed on what it hands on. -/
def Disk.committed (h : Handle) (c : HandleCall) (d : Disk) : Disk :=
  match h.key with
  | some k => if h.commits c then d.putFile k h.buffer.content (modeAt d.store k) else d
  | none => d

/-- An outcome with a disk. -/
def resultOf {α : Type} : Except Fault α → Disk → EStateM.Result Fault Disk α
  | .ok a, d => .ok a d
  | .error f, d => .error f d

variable {d : Disk} {id : Nat} {h : Handle}

theorem Disk.committed_of_not_commits {c : HandleCall} (hc : h.commits c = false) :
    d.committed h c = d := by
  rw [Disk.committed, hc]
  cases h.key <;> rfl

@[simp] theorem Disk.committed_handles {c : HandleCall} :
    (d.committed h c).store.handles = d.store.handles := by
  unfold Disk.committed
  split
  · split <;> rfl
  · rfl

@[simp] theorem diskOf_resultOf {α : Type} (r : Except Fault α) (d : Disk) :
    diskOf (resultOf r d) = d := by
  cases r <;> rfl

theorem Disk.setHandle_self (hid : d.store.handles[id]? = some h) : d.setHandle id h = d := by
  obtain ⟨hlt, rfl⟩ := List.getElem?_eq_some_iff.1 hid
  simp only [Disk.setHandle, Disk.mapStore, List.set_getElem_self]

@[simp] theorem Disk.setHandle_setHandle (h' : Handle) :
    (d.setHandle id h).setHandle id h' = d.setHandle id h' := by
  simp [Disk.setHandle, Disk.mapStore, List.set_set]

theorem run_handle (hid : d.store.handles[id]? = some h) : (handle id).run d = .ok h d := by
  rw [handle, run_bind_ok (EStateM.run_get d), hid]
  rfl

theorem run_openHandle (hid : d.store.handles[id]? = some h) (ho : h.closed = false) :
    (openHandle id).run d = .ok h d := by
  rw [openHandle, run_bind_ok (run_handle hid), ho]
  rfl

theorem run_openHandle_closed (hid : d.store.handles[id]? = some h) (ho : h.closed = true) :
    (openHandle id).run d = .error (.closedHandle h.name) d := by
  rw [openHandle, run_bind_ok (run_handle hid), if_pos ho]
  rfl

/-- Calls on a closed handle leave it as it is. -/
theorem run_use_closed (hid : d.store.handles[id]? = some h) (ho : h.closed = true)
    (c : HandleCall) : (use id c).run d = resultOf (h.use c).1 d := by
  have hopen := run_openHandle_closed hid ho
  rw [Handle.use, ho]
  cases c with
  | read | write | seek | tell | truncate => exact run_bind_error (run_bind_error hopen)
  | flush => exact run_bind_error (run_bind_error hopen)
  | close =>
    have hclose : (close id).run d = .ok () d := by
      rw [close, run_bind_ok (run_handle hid), ho]
      rfl
    exact run_bind_ok hclose

/-- Flushing an open handle hands its content on if there are changes. -/
theorem run_flush (hid : d.store.handles[id]? = some h) (ho : h.closed = false) :
    (flush id).run d = .ok () ((d.committed h .flush).setHandle id { h with dirty := false }) := by
  rw [flush, run_bind_ok (run_openHandle hid ho), Disk.committed]
  cases hd : h.dirty with
  | false =>
    have hself : { h with dirty := false } = h := by rw [← hd]
    have hcommits : h.commits .flush = false := by simp [Handle.commits, hd]
    rw [hself, hcommits]
    cases h.key <;> simp [Disk.setHandle_self hid]
  | true =>
    have hcommits : h.commits .flush = true := by simp [Handle.commits, hd, ho]
    cases h.key with
    | none => simp
    | some k => simp [run_commit, hcommits]

/-- A call on an open handle is told by the handle. -/
theorem run_use_open (hid : d.store.handles[id]? = some h) (ho : h.closed = false)
    (c : HandleCall) :
    (use id c).run d =
      resultOf (h.useOpen c).1 ((d.committed h c).setHandle id (h.useOpen c).2) := by
  have hopen := run_openHandle hid ho
  cases c with
  | read size =>
    rw [Disk.committed_of_not_commits rfl, Handle.useOpen]
    cases hr : h.flags.readable with
    | false => simp [Memory.use, read, hopen, hr, resultOf, Disk.setHandle_self hid]
    | true =>
      cases hb : h.buffer.read size <;>
        simp [Memory.use, read, hopen, hr, hb, resultOf, Handle.respond, Disk.setHandle_self hid]
  | write data =>
    rw [Disk.committed_of_not_commits rfl, Handle.useOpen]
    cases hw : h.flags.writable with
    | false => simp [Memory.use, write, hopen, hw, resultOf, Disk.setHandle_self hid]
    | true =>
      cases hb : h.written.buffer.write data <;>
        simp_all [Memory.use, write, resultOf, Handle.respond, Handle.written]
  | seek offset origin =>
    rw [Disk.committed_of_not_commits rfl, Handle.useOpen]
    cases hb : h.buffer.seek offset origin <;>
      simp [Memory.use, seek, hopen, hb, resultOf, Handle.respond, Disk.setHandle_self hid]
  | tell =>
    rw [Disk.committed_of_not_commits rfl, Handle.useOpen]
    simp [Memory.use, tell, hopen, resultOf, Disk.setHandle_self hid]
  | truncate size =>
    rw [Disk.committed_of_not_commits rfl, Handle.useOpen]
    cases hw : h.flags.writable with
    | false => simp [Memory.use, truncate, hopen, hw, resultOf, Disk.setHandle_self hid]
    | true =>
      cases hb : h.buffer.truncate size <;>
        simp [Memory.use, truncate, hopen, hw, hb, resultOf, Handle.respond]
  | flush => exact run_bind_ok (run_flush hid ho)
  | close =>
    have hclose : (close id).run d =
        .ok () ((d.committed h .close).setHandle id { h with dirty := false, closed := true }) := by
      rw [close, run_bind_ok (run_handle hid), ho]
      exact (run_bind_ok (run_flush hid ho)).trans
        (congrArg (EStateM.Result.ok ()) (Disk.setHandle_setHandle _))
    exact run_bind_ok hclose

/-- A call on a handle of a store is told by the handle. -/
theorem run_use (hid : d.store.handles[id]? = some h) (c : HandleCall) :
    (use id c).run d = resultOf (h.use c).1 ((d.committed h c).setHandle id (h.use c).2) := by
  cases ho : h.closed with
  | false =>
    rw [h.use_of_open c ho]
    exact run_use_open hid ho c
  | true =>
    rw [run_use_closed hid ho, Disk.committed_of_not_commits (h.commits_of_closed c ho),
      h.use_of_closed c ho, Disk.setHandle_self hid]

/-- The disk after a call on a handle. -/
theorem after_use (hid : d.store.handles[id]? = some h) (c : HandleCall) :
    after (use id c) d = (d.committed h c).setHandle id (h.use c).2 := by
  rw [after, run_use hid, diskOf_resultOf]

/-- Calls on a handle that was never opened fail. -/
theorem run_use_none (hid : d.store.handles[id]? = none) (c : HandleCall) :
    (use id c).run d = .error (.closedHandle "") d := by
  have hhandle : (handle id).run d = .error (.closedHandle "") d := by
    rw [handle, run_bind_ok (EStateM.run_get d), hid]
    rfl
  have hopen : (openHandle id).run d = .error (.closedHandle "") d := run_bind_error hhandle
  cases c with
  | read | write | seek | tell | truncate => exact run_bind_error (run_bind_error hopen)
  | flush => exact run_bind_error (run_bind_error hopen)
  | close => exact run_bind_error (run_bind_error hhandle)

/-- A call on a handle replaces that handle at most. -/
theorem length_handles_use (id : Nat) (c : HandleCall) :
    (after (use id c) d).store.handles.length = d.store.handles.length := by
  cases hid : d.store.handles[id]? with
  | none => rw [after, run_use_none hid, diskOf_error]
  | some h => rw [after_use hid, Disk.setHandle_handles, List.length_set, Disk.committed_handles]

theorem getElem?_handles_use {j : Nat} (hne : id ≠ j) (c : HandleCall) :
    (after (use id c) d).store.handles[j]? = d.store.handles[j]? := by
  cases hid : d.store.handles[id]? with
  | none => rw [after, run_use_none hid, diskOf_error]
  | some h =>
    rw [after_use hid, Disk.setHandle_handles, List.getElem?_set_ne hne, Disk.committed_handles]

theorem getElem?_handles_use_self (hid : d.store.handles[id]? = some h) (c : HandleCall) :
    (after (use id c) d).store.handles[id]? = some (h.use c).2 := by
  have hlt : id < d.store.handles.length := (List.getElem?_eq_some_iff.1 hid).1
  rw [after_use hid, Disk.setHandle_handles, Disk.committed_handles, List.getElem?_set_self hlt]

end Memory

end RootedFS
