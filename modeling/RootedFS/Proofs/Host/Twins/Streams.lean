import RootedFS.Proofs.Host.Twins

/-!
# Streams on twins

An operation on a stream never leaves the stream's file. On twins it therefore works on the same
stream and the same shared file, and leaves twins.

## Main definitions

* `Stream.OnFile`: one stream on one file, run twice

## Main results

* `Stream.respects_readBytes`, `Stream.respects_writeBytes`, `Stream.respects_seek`,
  `Stream.respects_tell`, `Stream.respects_truncate`, `Stream.respects_flush`,
  `Stream.respects_close`: operations stay on their file
* `respects_onStream`: what stays on its file leaves twins
-/

namespace RootedFS.Host

namespace Stream

variable {file : Option Nat} {r : Regular} {α : Type}

/-- One stream on a file that has gone on from what it was, run twice. -/
def OnFile (file : Option Nat) (r : Regular) (o o' : Opened) : Prop :=
  o = o' ∧ o.stream.file = file ∧ r.GoesOn o.file

/-! ## Steps -/

theorem respects_get {g : Opened → StreamM α} (hg : ∀ o, Respects (OnFile file r) (g o)) :
    Respects (OnFile file r) (get >>= g) := by
  refine Respects.get fun o o' h => ?_
  obtain ⟨rfl, -⟩ := id h
  exact hg o o o h

theorem respects_current {g : Stream → StreamM α} (hg : ∀ s, Respects (OnFile file r) (g s)) :
    Respects (OnFile file r) (current >>= g) :=
  respects_get fun o => hg o.stream

theorem respects_change {f : Stream → Stream} (hf : ∀ s, (f s).file = s.file) :
    Respects (OnFile file r) (change f) := by
  refine Respects.modify fun o o' h => ?_
  obtain ⟨rfl, hfile, hgoes⟩ := h
  exact ⟨rfl, (hf o.stream).trans hfile, hgoes⟩

/-- The content of the file is changed. -/
theorem respects_modify_file {f : Opened → Bytes} :
    Respects (OnFile file r)
      (modify fun o => { o with file := o.file.change (f o) } : StreamM PUnit) := by
  refine Respects.modify fun o o' h => ?_
  obtain ⟨rfl, hfile, hgoes⟩ := h
  exact ⟨rfl, hfile, hgoes.change _⟩

theorem respects_descriptorRead (count : Nat) : Respects (OnFile file r) (descriptorRead count) :=
  respects_get fun _ => .unless (.throw _) fun _ =>
    .bind (respects_change fun _ => rfl) fun _ => .pure _

theorem respects_descriptorWrite (data : Bytes) :
    Respects (OnFile file r) (descriptorWrite data) := by
  refine Respects.get fun o o' h => ?_
  obtain ⟨rfl, hfile, hgoes⟩ := id h
  refine Respects.unless (.throw _) (fun _ => ?_) o o h
  have hset : Respects (OnFile file r) (set ({ o with file := o.file.change (o.file.content.writeAt
      (if o.stream.appends then o.file.content.length else o.stream.offset) data) } : Opened) :
      StreamM PUnit) := fun _ _ _ => .ok ⟨rfl, hfile, hgoes.change _⟩
  exact .bind hset fun _ => respects_change fun _ => rfl

theorem respects_requireFile : Respects (OnFile file r) requireFile := by
  refine respects_current fun s => ?_
  split
  · exact .throw _
  · exact .pure _

theorem respects_descriptorSeek (offset origin : Int) :
    Respects (OnFile file r) (descriptorSeek offset origin) := by
  refine .bind respects_requireFile fun _ => respects_get fun o => ?_
  split
  · exact .bind (respects_change fun _ => rfl) fun _ => .pure _
  · exact .throw _

theorem respects_fill : Respects (OnFile file r) fill := by
  refine respects_current fun s => .bind (respects_descriptorRead _) fun data => ?_
  split
  · exact .pure _
  · exact respects_change fun _ => rfl

theorem respects_writePending : Respects (OnFile file r) writePending := by
  refine respects_current fun s => ?_
  split
  · exact .pure _
  · dsimp only
    split
    · refine .unless (respects_descriptorSeek _ _).discard fun _ => ?_
      refine .bind (respects_descriptorWrite _) fun _ => ?_
      exact .bind (respects_change fun _ => rfl) fun _ => respects_change fun _ => rfl
    · exact respects_change fun _ => rfl

theorem respects_settle : Respects (OnFile file r) settle := by
  refine .bind respects_writePending fun _ => respects_current fun s => ?_
  split
  · refine respects_current fun s => .bind (respects_descriptorSeek _ _).discard fun _ => ?_
    exact respects_change fun _ => rfl
  · exact .pure _

/-! ## Operations -/

theorem respects_readAll : Respects (OnFile file r) readAll := by
  refine respects_current fun s => .bind (respects_change fun _ => rfl) fun _ => ?_
  refine respects_current fun s => .when respects_settle fun _ => ?_
  refine .bind (respects_change fun _ => rfl) fun _ => respects_get fun o => ?_
  exact .bind (respects_descriptorRead _) fun _ => .pure _

theorem respects_readOn (count : Nat) : Respects (OnFile file r) (readOn count) := by
  refine .bind (respects_ofExcept _) fun _ => respects_current fun s => ?_
  refine .bind (respects_change fun _ => rfl) fun _ => ?_
  refine respects_current fun s => .when respects_settle fun _ => ?_
  refine .bind (respects_change fun _ => rfl) fun _ => ?_
  refine .either (respects_descriptorRead _) (.pure _) fun direct => ?_
  refine .bind (respects_change fun _ => rfl) fun _ => .when respects_fill fun _ => ?_
  refine respects_current fun s => ?_
  exact .bind (respects_change fun _ => rfl) fun _ => .pure _

theorem respects_readBytes (size : Option Int) : Respects (OnFile file r) (readBytes size) := by
  refine respects_current fun s => .unless (.throw _) fun _ => ?_
  refine .unless (.throw _) fun _ => .when (.throw _) fun _ => ?_
  refine respects_current fun s => .when (.throw _) fun _ => ?_
  split
  · exact respects_readAll
  · refine respects_current fun s => ?_
    split
    · exact .bind (respects_change fun _ => rfl) fun _ => .pure _
    · exact respects_readOn _

theorem respects_writeOn (data : Bytes) : Respects (OnFile file r) (writeOn data) := by
  refine .bind respects_writePending fun _ => respects_current fun s => ?_
  have hrest (rest : Bytes) : Respects (OnFile file r) (do
      if blockSize < data.length then descriptorWrite data
      change fun s => { s with
        filled := none, block := rest, pending := some (0, rest.length), cursor := rest.length
        anchor := some 0 }) :=
    .when (respects_descriptorWrite _) fun _ => respects_change fun _ => rfl
  dsimp only
  split
  · exact hrest _
  · refine .bind (respects_descriptorSeek _ _).discard fun _ => ?_
    exact .bind (respects_change fun _ => rfl) fun _ => hrest _

theorem respects_writeBytes (data : Bytes) : Respects (OnFile file r) (writeBytes data) := by
  refine respects_current fun s => .unless (.throw _) fun _ => ?_
  refine respects_current fun s => .when (.throw _) fun _ => respects_current fun s => ?_
  refine .when (respects_change fun _ => rfl) fun _ => respects_current fun s => ?_
  split
  · exact .bind (respects_change fun _ => rfl) fun _ => .pure _
  · exact .bind (respects_writeOn _) fun _ => .pure _

theorem respects_seek (offset origin : Int) : Respects (OnFile file r) (seek offset origin) := by
  refine .unless (.throw _) fun _ => .when (.throw _) fun _ => ?_
  refine respects_current fun s => .when (.throw _) fun _ => ?_
  refine respects_current fun s => .when (.throw _) fun _ => .unless (.throw _) fun _ => ?_
  refine respects_current fun s => ?_
  split
  · exact .bind (respects_change fun _ => rfl) fun _ => .pure _
  · refine .when respects_writePending fun _ => respects_current fun s => ?_
    refine .bind (respects_descriptorSeek _ _) fun n => ?_
    exact .bind (respects_change fun _ => rfl) fun _ => .pure _

theorem respects_tell : Respects (OnFile file r) tell := by
  refine respects_current fun s => .when (.throw _) fun _ => .bind respects_requireFile fun _ => ?_
  refine .bind (respects_change fun _ => rfl) fun _ => ?_
  exact respects_current fun s => .pure _

theorem respects_truncate (size : Option Int) : Respects (OnFile file r) (truncate size) := by
  refine respects_current fun s => .when (.throw _) fun _ => ?_
  refine respects_current fun s => .unless (.throw _) fun _ => .bind respects_settle fun _ => ?_
  refine .when respects_requireFile fun _ => respects_current fun s => ?_
  refine .unless (.throw _) fun _ => .when (.throw _) fun _ => ?_
  refine .bind respects_requireFile fun _ => respects_get fun o => .when (.throw _) fun _ => ?_
  refine .when (.throw _) fun _ => .bind respects_modify_file fun _ => ?_
  exact .bind (respects_change fun _ => rfl) fun _ => .pure _

theorem respects_flush : Respects (OnFile file r) flush := by
  refine respects_current fun s => .when (.throw _) fun _ => ?_
  split
  · exact respects_settle
  · exact .pure _

theorem respects_close : Respects (OnFile file r) close := by
  refine respects_current fun s => ?_
  split
  · exact .pure _
  · exact respects_flush.tryFinally (respects_change fun _ => rfl)

end Stream

variable {root : Key} {b id : Nat} {o o' h h' : Host} {s : Stream} {α : Type}

/-- The file and the stream that an operation leaves are put back on both hosts. -/
theorem Twins.putOpened (ht : Twins root b o o' h h') (hid : b ≤ id)
    (hs : h.streams[id]? = some s) {p : Opened} (hfile : p.stream.file = s.file)
    (hgoes : ∀ n, s.file = some n → (h.file n).GoesOn p.file) :
    Twins root b o o'
      { h with
        files := (s.file.map fun n => h.files.set n p.file).getD h.files
        streams := h.streams.set id p.stream }
      { h' with
        files := (s.file.map fun n => h'.files.set n p.file).getD h'.files
        streams := h'.streams.set id p.stream } := by
  cases hn : s.file with
  | none =>
    refine ht.setStream fun n hfile' => ?_
    rw [hfile, hn] at hfile'
    cases hfile'
  | some n =>
    obtain ⟨hset, hshared⟩ := ht.setFile (ht.opened id s n hid hs hn) (hgoes n hn)
    refine hset.setStream fun n' hfile' => ?_
    rw [hfile, hn] at hfile'
    exact Option.some.inj hfile' ▸ hshared

/-- What stays on its file leaves twins, on a stream that both have. -/
theorem respects_onStream {act : StreamM α}
    (hact : ∀ file r, Respects (Stream.OnFile file r) act) (hid : b ≤ id) :
    Respects (Twins root b o o') (onStream id act) := by
  intro h h' ht
  have hsame := ht.streams id hid
  rw [EStateM.run, EStateM.run, onStream, onStream, ← hsame]
  cases hs : h.streams[id]? with
  | none => exact .error ht
  | some s =>
    have hfile : s.file.map h'.file = s.file.map h.file :=
      Option.map_congr fun n hn => (ht.opened id s n hid hs hn).file.symm
    have hrun := hact s.file _ ⟨s, (s.file.map h.file).getD (.owned [] 0)⟩ _
      ⟨rfl, rfl, .refl _⟩
    rw [EStateM.run] at hrun
    dsimp only
    rw [hfile]
    generalize act ⟨s, (s.file.map h.file).getD (.owned [] 0)⟩ = r at hrun
    cases hrun with
    | ok hout => exact .ok (ht.putOpened hid hs hout.2.1 fun n hn => by simpa [hn] using hout.2.2)
    | error hout =>
      exact .error (ht.putOpened hid hs hout.2.1 fun n hn => by simpa [hn] using hout.2.2)

end RootedFS.Host
