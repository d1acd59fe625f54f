import RootedFS.Proofs.Host.Entries

/-!
# A directory of the host does what its contents say

A file is written through the block of a stream: what fits into the block waits there until the
stream is closed, and more goes to the file at once. Either way the file has the written bytes when
the stream is closed. With that, every request on a directory of the host comes to what its contents
say.

## Main definitions

* `Stream.writing`, `Stream.reading`: new streams on files
* `Request.Fits`: the host takes the paths of a request

## Main results

* `Stream.exists_run_write`, `Stream.run_readBytes`: whole files through streams
* `Holds.outcome`: a request on a directory of the host comes to what the contents say
-/

namespace RootedFS

open Memory (run_bind_ok run_bind_error)

namespace Host

/-! ## Streams -/

/-- A file with a new content gets no new permissions. -/
theorem perm_change_le (r : Regular) (content : Bytes) : (r.change content).perm ≤ r.perm := by
  unfold Regular.change
  split
  · exact Nat.le_refl _
  · change unprivileged r.perm ≤ r.perm
    rw [unprivileged]
    omega

/-- What a file is once bytes have been written to it as its content. -/
structure Regular.Written (r : Regular) (data : Bytes) (r' : Regular) : Prop where
  sink : r'.sink = r.sink
  content : r.sink = false → r'.content = data
  perm : r'.perm ≤ r.perm

theorem Regular.written_change (r : Regular) (data : Bytes) : r.Written data (r.change data) where
  sink := r.sink_change data
  content := fun hr => content_change hr data
  perm := perm_change_le r data

namespace Stream

variable {data : Bytes} {r : Regular} {n : Nat} {o o' : Opened}

theorem run_current (o : Opened) : current.run o = .ok o.stream o := rfl

theorem run_change (f : Stream → Stream) (o : Opened) :
    (change f).run o = .ok () { o with stream := f o.stream } := rfl

theorem run_descriptorWrite (hwrite : o.stream.canWrite = true) (happend : o.stream.appends = false)
    (data : Bytes) :
    (descriptorWrite data).run o = .ok ()
      { stream := { o.stream with
          offset := if o.file.sink then o.stream.offset else o.stream.offset + data.length
          known := o.stream.known + data.length }
        file := o.file.change (o.file.content.writeAt o.stream.offset data) } := by
  rw [descriptorWrite, run_bind_ok (EStateM.run_get o)]
  have hstart : (if o.stream.appends = true then o.file.content.length else o.stream.offset) =
      o.stream.offset := by simp [happend]
  dsimp only
  rw [if_pos hwrite, hstart]
  rfl

theorem run_descriptorRead (hread : o.stream.canRead = true) (count : Nat) :
    (descriptorRead count).run o = .ok (o.file.content.slice o.stream.offset count)
      { o with stream := { o.stream with
          offset := o.stream.offset + (o.file.content.slice o.stream.offset count).length } } := by
  rw [descriptorRead, run_bind_ok (EStateM.run_get o)]
  dsimp only
  rw [if_pos hread]
  rfl

/-- Closing hands on what is pending. -/
theorem run_close (hopen : o.stream.closed = false) (hflush : flush.run o = .ok () o') :
    close.run o = .ok () { o' with stream := { o'.stream with closed := true } } := by
  rw [close, run_bind_ok (run_current o), hopen]
  dsimp only
  rw [if_neg Bool.false_ne_true, run_tryFinally, hflush]
  rfl

/-! ### Writing -/

/-- A new stream for writing. -/
def writing (n : Nat) : Stream where
  file := some n
  canRead := false
  canWrite := true
  appends := false
  reads := false
  writes := true

/-- A stream for writing whose block holds all that was written. -/
def holding (n : Nat) (data : Bytes) : Stream :=
  { writing n with
    block := data, cursor := data.length, anchor := some 0, pending := some (0, data.length) }

/-- A stream for writing that has written bytes past its block. -/
def past (n offset count : Nat) : Stream :=
  { writing n with offset, known := count, anchor := some 0, pending := some (0, 0) }

theorem writeAt_nil (data : Bytes) : Bytes.writeAt [] 0 data = data := by
  simp [Bytes.writeAt, Bytes.resize]

/-- Bytes written to a new stream wait in its block, or pass it by. -/
theorem run_writeBytes (n : Nat) (r : Regular) (data : Bytes) :
    (writeBytes data).run ⟨writing n, r⟩ =
      (if data.length ≤ blockSize then do
          change (writeBlock · data)
          return data.length
        else do
          writeOn data
          return data.length).run ⟨{ writing n with anchor := some 0 }, r⟩ := rfl

theorem run_writeBytes_of_le (hdata : data.length ≤ blockSize) (n : Nat) (r : Regular) :
    (writeBytes data).run ⟨writing n, r⟩ = .ok data.length ⟨holding n data, r⟩ := by
  rw [run_writeBytes, if_pos hdata, run_bind_ok (run_change _ _), writeBlock]
  simp [writing, holding, writeAt_nil]

theorem exists_run_writeBytes_of_lt (hdata : blockSize < data.length) (hr : r.content = [])
    (n : Nat) :
    ∃ offset, (writeBytes data).run ⟨writing n, r⟩ =
      .ok data.length ⟨past n offset data.length, r.change data⟩ := by
  have hwrite : (descriptorWrite data).run ⟨{ writing n with anchor := some 0 }, r⟩ =
      .ok () ⟨{ writing n with
          anchor := some 0, offset := if r.sink then 0 else data.length, known := data.length },
        r.change data⟩ := by
    rw [run_descriptorWrite rfl rfl, hr]
    simp [writing, writeAt_nil]
  have hon : (writeOn data).run ⟨{ writing n with anchor := some 0 }, r⟩ = (do
      let whole := blockSize < data.length
      if whole then descriptorWrite data
      let rest := if whole then [] else data
      change fun s => { s with
        filled := none, block := rest, pending := some (0, rest.length), cursor := rest.length
        anchor := some 0 } : StreamM Unit).run ⟨{ writing n with anchor := some 0 }, r⟩ := rfl
  simp only [if_pos hdata] at hon
  rw [run_bind_ok hwrite] at hon
  rw [run_writeBytes, if_neg (Nat.not_le.2 hdata), run_bind_ok hon]
  exact ⟨_, rfl⟩

theorem lead_holding (n : Nat) (data : Bytes) : (holding n data).lead = -data.length := by
  simp [lead, holding, writing]

theorem exists_run_writePending_holding (hr : r.content = []) (n : Nat) (data : Bytes) :
    ∃ s r', writePending.run ⟨holding n data, r⟩ = .ok () ⟨s, r'⟩ ∧ s.reads = false ∧
      r.Written data r' := by
  rw [writePending, run_bind_ok (run_current _)]
  change ∃ s r', EStateM.run (do
    if 0 < data.length then
      let back := (holding n data).lead + ((holding n data).cursor - (0 : Nat))
      unless back = 0 do discard <| descriptorSeek (-back) 1
      descriptorWrite (((holding n data).block.take data.length).drop 0)
      change fun s => { s with anchor := some data.length }
    change fun s => { s with pending := none } : StreamM Unit) _ = _ ∧ _
  by_cases hdata : 0 < data.length
  · have hback : (holding n data).lead + ((holding n data).cursor - (0 : Nat)) = 0 := by
      change (holding n data).lead + ((data.length : Int) - (0 : Nat)) = 0
      rw [lead_holding]
      omega
    have hblock : ((holding n data).block.take data.length).drop 0 = data := by simp [holding]
    simp only [if_pos hdata, if_pos hback]
    rw [hblock, run_bind_ok (run_descriptorWrite rfl rfl data)]
    have hwhole : r.content.writeAt 0 data = data := by rw [hr, writeAt_nil]
    refine ⟨_, _, rfl, rfl, ?_⟩
    change r.Written data (r.change (r.content.writeAt 0 data))
    rw [hwhole]
    exact r.written_change data
  · have hnil : data = [] := List.length_eq_zero_iff.1 (Nat.eq_zero_of_not_pos hdata)
    simp only [if_neg hdata]
    exact ⟨_, _, rfl, rfl, rfl, fun _ => hr.trans hnil.symm, Nat.le_refl _⟩

/-- A stream that does not read flushes by writing what is pending. -/
theorem run_flush_of_writePending (hopen : o.stream.closed = false)
    (hwrites : o.stream.writes = true) (hpending : writePending.run o = .ok () o')
    (hreads : o'.stream.reads = false) : flush.run o = .ok () o' := by
  have hsettle : settle.run o = .ok () o' := by
    rw [settle, run_bind_ok hpending, run_bind_ok (run_current o'), hreads]
    rfl
  rw [flush, run_bind_ok (run_current o), hopen, hwrites]
  exact hsettle

/-- What is written to a new stream on an empty file is what the file has when the stream is
closed. -/
theorem exists_run_write (hr : r.content = []) (n : Nat) (data : Bytes) :
    ∃ o o', (writeBytes data).run ⟨writing n, r⟩ = .ok data.length o ∧ close.run o = .ok () o' ∧
      o.stream.file = some n ∧ r.Written data o'.file := by
  by_cases hdata : data.length ≤ blockSize
  · obtain ⟨s, r', hpending, hreads, hwritten⟩ := exists_run_writePending_holding hr n data
    have hflush := run_flush_of_writePending rfl rfl hpending hreads
    exact ⟨_, _, run_writeBytes_of_le hdata n r, run_close rfl hflush, rfl, hwritten⟩
  · obtain ⟨offset, hwrite⟩ := exists_run_writeBytes_of_lt (Nat.not_le.1 hdata) hr n
    have hpending : writePending.run ⟨past n offset data.length, r.change data⟩ =
        .ok () ⟨{ past n offset data.length with pending := none }, r.change data⟩ := rfl
    have hflush := run_flush_of_writePending rfl rfl hpending rfl
    exact ⟨_, _, hwrite, run_close rfl hflush, rfl, r.written_change data⟩

/-! ### Reading -/

/-- A new stream for reading. -/
def reading (n : Nat) : Stream where
  file := some n
  canRead := true
  canWrite := false
  appends := false
  reads := true
  writes := false

/-- A stream for reading that has read bytes past its block. -/
def taken (n count : Nat) : Stream :=
  { reading n with offset := count }

/-- All that is read from a new stream is what the file has. -/
theorem run_readBytes (n : Nat) (r : Regular) :
    (readBytes (some (-1))).run ⟨reading n, r⟩ =
      .ok r.content ⟨taken n r.content.length, r⟩ := by
  have hread : (readBytes (some (-1))).run ⟨reading n, r⟩ = (do
      let rest ← descriptorRead (r.content.length - 0)
      return [] ++ rest : StreamM Bytes).run ⟨reading n, r⟩ := rfl
  have hslice : r.content.slice (reading n).offset (r.content.length - 0) = r.content := by
    simp [Bytes.slice, reading]
  rw [hread, run_bind_ok (run_descriptorRead rfl _)]
  simp only [hslice]
  simp [taken, reading]

theorem run_close_taken (n count : Nat) (r : Regular) :
    close.run ⟨taken n count, r⟩ = .ok () ⟨{ taken n count with closed := true }, r⟩ := by
  have hflush : flush.run ⟨taken n count, r⟩ = .ok () ⟨taken n count, r⟩ := rfl
  exact run_close rfl hflush

end Stream

open Rooted

variable {root k : Key} {h h' : Host} {c : Contents} {perm : Int} {f : Fault} {s : String}
  {n id : Nat} {w w' : World}

/-- What is done to a stream and its file is kept. -/
theorem run_onStream {α : Type} {act : StreamM α} {stream : Stream} {a : α} {o : Opened}
    (hget : h.streams[id]? = some stream) (hfile : stream.file = some n)
    (hact : act.run ⟨stream, h.file n⟩ = .ok a o) :
    (onStream id act).run h =
      .ok a { h with files := h.files.set n o.file, streams := h.streams.set id o.stream } := by
  rw [EStateM.run] at hact ⊢
  simp only [onStream, hget, hfile, Option.map_some, Option.getD_some, hact]

/-! ## Opening files -/

theorem run_openStream (flags : OpenFlags) (n : Nat) (h : Host) :
    (openStream flags (some n)).run h =
      .ok h.streams.length { h with
        streams := h.streams ++ [Stream.ofFlags flags (some n) (h.file n).content.length] } := rfl

theorem run_openEntry {path : List String} (hpath : hasNull (Key.toString path) = false)
    (flags : OpenFlags) (hflags : fitsInt flags.bits = true) (perm : Int)
    (hperm : fitsInt perm = true) (h : Host) :
    (openEntry path flags perm).run h = (do
      match ← onRoute path (opening h.tree path flags) with
      | .directory => throw (.unnamed .isDirectory)
      | .file number =>
        unless h.grants number flags do throw (.onPath .forbidden (Key.toString path))
        if flags.truncate then changeFile number []
        return some number
      | .make k =>
        let number ← newFile perm
        modifyTree (·.insert k (.file number))
        return some number
      | .makeNameless => newFile perm
      | .mark => return none : HostM (Option Nat)).run h := by
  rw [openEntry, run_bind_ok (run_requirePath hpath h), run_bind_ok (run_requireInt hflags h),
    run_bind_ok (run_requireInt hperm h)]
  exact run_bind_ok (EStateM.run_get h)

/-- Opening for overwriting follows links and makes a file where nothing is. -/
theorem opening_overwriting (t : Tree Node) (path : List String) :
    opening t path .overwriting =
      match walk ⟨true, true⟩ t path with
      | .ok (.entry _ (.directory _)) => .error .isDirectory
      | .ok (.entry _ (.link _)) => .error .linkLoop
      | .ok (.entry _ (.file number)) => .ok (.file number)
      | .ok (.absent k name _) => .ok (.make (k ++ [name]))
      | .error why => .error why := by
  change (walk ⟨true, true⟩ t path >>= _) = _
  cases walk ⟨true, true⟩ t path with
  | error why => rfl
  | ok found =>
    cases found with
    | absent k name asDirectory => rfl
    | entry k node => cases node <;> rfl

/-- Opening for reading follows links and makes nothing. -/
theorem opening_reading (t : Tree Node) (path : List String) :
    opening t path .reading =
      match walk ⟨true, false⟩ t path with
      | .ok (.entry _ (.directory _)) => .ok .directory
      | .ok (.entry _ (.link _)) => .error .linkLoop
      | .ok (.entry _ (.file number)) => .ok (.file number)
      | .ok (.absent ..) => .error .missing
      | .error why => .error why := by
  change (walk ⟨true, false⟩ t path >>= _) = _
  cases walk ⟨true, false⟩ t path with
  | error why => rfl
  | ok found =>
    cases found with
    | absent k name asDirectory => rfl
    | entry k node => cases node <;> rfl

namespace Rooted.Holds

variable (hh : Holds root h c) (hc : c.Sound)
include hh hc

/-- In a directory, a file is emptied or made for overwriting. -/
theorem openEntry_overwriting (hfits : Fits (root ++ k)) (hperm : fitsInt perm = true)
    (hdir : c k.parent = some .directory) (hk : c.HasFile k ∨ c k = none) :
    ∃ h' n, (openEntry (root ++ k) .overwriting perm).run h = .ok (some n) h' ∧
      Holds root h' (c.put k (.file [])) ∧ h'.tree.get? (root ++ k) = some (.file n) ∧
      (h'.file n).content = [] := by
  have hopen := run_openEntry hfits.hasNull_eq_false .overwriting (by decide) _ hperm h
  rcases hk with ⟨content, hk⟩ | hk
  · obtain ⟨node, hget, hitem, hwalk⟩ := hh.walk_item hc hfits hk
    cases node with
    | directory p => cases hitem
    | link target => cases hitem
    | file n =>
      have hopening : opening h.tree (root ++ k) .overwriting = .ok (.file n) := by
        rw [opening_overwriting, hwalk]
      have hperm' : ((h.file n).change []).perm < 0o10000 :=
        Nat.lt_of_le_of_lt (perm_change_le _ _) (hh.sound.file_perm n)
      have htruncate : OpenFlags.truncate .overwriting = true := by decide
      have hsink : ((h.file n).change []).sink = false := by
        rw [Regular.sink_change]
        exact hh.keeps k n hget
      have hrun : (openEntry (root ++ k) .overwriting perm).run h =
          .ok (some n) { h with files := h.files.set n ((h.file n).change []) } := by
        rw [hopen, hopening, run_bind_ok (run_onRoute_ok _ _ h)]
        simp only [hh.unhindered.grants, htruncate]
        rfl
      have hfile := file_set_self (hh.sound.filed _ n hget) ((h.file n).change [])
      have hempty := Regular.content_change_nil (h.file n)
      exact ⟨_, n, hrun, hh.setFile hget hperm' hsink hempty, hget,
        (congrArg Regular.content hfile).trans hempty⟩
  · obtain ⟨k', a, rfl⟩ := List.eq_nil_or_concat k |>.resolve_left (hh.ne_nil_of_none hk)
    rw [List.concat_eq_append, Key.parent_append_singleton] at *
    have hopening : opening h.tree (root ++ (k' ++ [a])) .overwriting =
        .ok (.make (root ++ k' ++ [a])) := by
      rw [opening_overwriting, hh.walk_free hc hfits hdir hk]
    have hrun : (openEntry (root ++ (k' ++ [a])) .overwriting perm).run h =
        .ok (some h.files.length) { h with
          files := h.files ++ [.owned [] (withheld 0o7777 perm)]
          tree := h.tree.insert (root ++ (k' ++ [a])) (.file h.files.length) } := by
      rw [hopen, hopening, run_bind_ok (run_onRoute_ok _ _ h), ← List.append_assoc]
      rfl
    refine ⟨_, _, hrun, hh.insertFile hk (withheld_lt 0o7777 perm) rfl, ?_, ?_⟩
    · exact (Tree.get?_insert _ _ _ _).trans (if_pos rfl)
    · exact congrArg Regular.content (file_append_length h _)

/-- Opening for overwriting empties the file, or makes it and the way to it. -/
theorem openFile_overwriting (hfits : Fits (root ++ Key.resolve s)) (hperm : fitsInt perm = true)
    (hadmits : c.HasFile (Key.resolve s) ∨
      (c (Key.resolve s) = none ∧ c.Clear (Key.resolve s).parent)) :
    ∃ h' id n, (openFile root s .overwriting perm).run h = .ok id h' ∧
      Holds root h' ((c.makeWay (Key.resolve s).parent).put (Key.resolve s) (.file [])) ∧
      h'.tree.get? (root ++ Key.resolve s) = some (.file n) ∧
      h'.streams[id]? = some (Stream.writing n) ∧ (h'.file n).content = [] := by
  have hclear : c.Clear (Key.resolve s).parent := by
    rcases hadmits with hfile | ⟨-, hclear⟩
    · exact hc.clear_of_directory (hc.parent_directory hfile.ne_none)
    · exact hclear
  have houtcome := hh.makeParents hc hfits
  have hrun : (openFile root s .overwriting perm).run h = (do
      Rooted.makeParents (root ++ Key.resolve s)
      let file ← openEntry (root ++ Key.resolve s) .overwriting perm
      openStream .overwriting file).run h := rfl
  generalize hparents : (Rooted.makeParents (root ++ Key.resolve s)).run h = r at houtcome
  cases houtcome with
  | blocked hblocked => exact absurd hclear hblocked
  | @made h₁ hclear hholds =>
    have hnames : ∀ b ∈ (Key.resolve s).parent, Path.IsName b := fun b hb =>
      hfits.names b (List.mem_append_right root (List.dropLast_subset _ hb))
    have hplace : (c.makeWay (Key.resolve s).parent).HasFile (Key.resolve s) ∨
        c.makeWay (Key.resolve s).parent (Key.resolve s) = none := by
      rw [Contents.hasFile_makeWay, Contents.makeWay_parent_self]
      exact hadmits.imp_right And.left
    obtain ⟨h₂, n, hopen, hholds', hget, hcontent⟩ := hholds.openEntry_overwriting
      (hc.makeWay hclear hnames) hfits hperm (hc.makeWay_directory hclear List.prefix_rfl) hplace
    rw [run_bind_ok hparents, run_bind_ok hopen, run_openStream, hcontent] at hrun
    refine ⟨_, _, n, hrun, hholds'.withStreams _, hget, ?_, hcontent⟩
    exact List.getElem?_concat_length

/-- Opening for overwriting fails at what is a directory, and below a file. -/
theorem openFile_overwriting_error (hfits : Fits (root ++ Key.resolve s))
    (hperm : fitsInt perm = true)
    (hrefuses : ¬(c.HasFile (Key.resolve s) ∨
      (c (Key.resolve s) = none ∧ c.Clear (Key.resolve s).parent))) :
    ∃ f h', (openFile root s .overwriting perm).run h = .error f h' := by
  have houtcome := hh.makeParents hc hfits
  have hrun : (openFile root s .overwriting perm).run h = (do
      Rooted.makeParents (root ++ Key.resolve s)
      let file ← openEntry (root ++ Key.resolve s) .overwriting perm
      openStream .overwriting file).run h := rfl
  generalize hparents : (Rooted.makeParents (root ++ Key.resolve s)).run h = r at houtcome
  cases houtcome with
  | blocked hblocked => exact ⟨_, _, hrun.trans (run_bind_error hparents)⟩
  | @made h₁ hclear hholds =>
    have hdir : c (Key.resolve s) = some .directory := by
      by_cases hnone : c (Key.resolve s) = none
      · exact absurd (.inr ⟨hnone, hclear⟩) hrefuses
      · exact (hc.directory_or_hasFile hnone).resolve_right fun hfile => hrefuses (.inl hfile)
    have hnames : ∀ b ∈ (Key.resolve s).parent, Path.IsName b := fun b hb =>
      hfits.names b (List.mem_append_right root (List.dropLast_subset _ hb))
    have hdir' : c.makeWay (Key.resolve s).parent (Key.resolve s) = some .directory := by
      rw [Contents.makeWay_parent_self, hdir]
    obtain ⟨node, -, hitem, hwalk⟩ := hholds.walk_item (hc.makeWay hclear hnames) hfits hdir'
    have hopen := run_openEntry hfits.hasNull_eq_false .overwriting (by decide) _ hperm h₁
    rw [opening_overwriting, hwalk] at hopen
    cases node with
    | file n => cases hitem
    | link target => cases hitem
    | directory p =>
      rw [run_bind_ok hparents] at hrun
      exact ⟨_, _, hrun.trans (run_bind_error hopen)⟩

/-- Opening for reading finds the file. -/
theorem openFile_reading {content : Bytes} (hfits : Fits (root ++ Key.resolve s))
    (hk : c (Key.resolve s) = some (.file content)) :
    ∃ h' id n, (openFile root s .reading 0).run h = .ok id h' ∧ Holds root h' c ∧
      h'.tree.get? (root ++ Key.resolve s) = some (.file n) ∧
      h'.streams[id]? = some (Stream.reading n) ∧ (h'.file n).content = content := by
  have hrun : (openFile root s .reading 0).run h = (do
      let file ← openEntry (root ++ Key.resolve s) .reading 0
      openStream .reading file).run h := rfl
  obtain ⟨node, hget, hitem, hwalk⟩ := hh.walk_item hc hfits hk
  have hopen := run_openEntry hfits.hasNull_eq_false .reading (by decide) 0 (by decide) h
  rw [opening_reading, hwalk] at hopen
  cases node with
  | directory p => cases hitem
  | link target => cases hitem
  | file n =>
    rw [run_bind_ok (run_onRoute_ok _ _ h)] at hopen
    simp only [hh.unhindered.grants] at hopen
    rw [run_bind_ok hopen, run_openStream] at hrun
    exact ⟨_, _, n, hrun, hh.withStreams _, hget, List.getElem?_concat_length,
      Item.file.inj hitem⟩

/-- Opening for reading fails where there is no file. -/
theorem openFile_reading_error (hfits : Fits (root ++ Key.resolve s))
    (hk : ¬c.HasFile (Key.resolve s)) :
    ∃ f h', (openFile root s .reading 0).run h = .error f h' := by
  have hrun : (openFile root s .reading 0).run h = (do
      let file ← openEntry (root ++ Key.resolve s) .reading 0
      openStream .reading file).run h := rfl
  have hopen := run_openEntry hfits.hasNull_eq_false .reading (by decide) 0 (by decide) h
  rw [opening_reading] at hopen
  by_cases hnone : c (Key.resolve s) = none
  · obtain ⟨why, hlookup, -⟩ := hh.lookup_none hc hfits hnone ⟨true, false⟩
    rw [lookup] at hlookup
    cases hwalk : walk ⟨true, false⟩ h.tree (root ++ Key.resolve s) with
    | error why =>
      rw [hwalk] at hopen
      exact ⟨_, _, hrun.trans (run_bind_error hopen)⟩
    | ok found =>
      rw [hwalk] at hopen hlookup
      cases found with
      | entry k node => cases hlookup
      | absent k name asDirectory => exact ⟨_, _, hrun.trans (run_bind_error hopen)⟩
  · have hdir := (hc.directory_or_hasFile hnone).resolve_right hk
    obtain ⟨node, hget, hitem, hwalk⟩ := hh.walk_item hc hfits hdir
    rw [hwalk] at hopen
    cases node with
    | directory p => exact ⟨_, _, hrun.trans (run_bind_error hopen)⟩
    | link target => cases hitem
    | file n => cases hitem

end Rooted.Holds

end Host

/-! ## Requests -/

open World Host

/-- The host takes the paths of a request, and its permissions; a listing also asks for the entries
of its directory. -/
def Request.Fits (root : Key) (c : Contents) : Request → Prop
  | .write path _ perm | .makeDirectories path perm =>
    Host.Fits (root ++ Key.resolve path) ∧ fitsInt perm = true
  | .read path | .remove path | .stat path => Host.Fits (root ++ Key.resolve path)
  | .rename path target =>
    Host.Fits (root ++ Key.resolve path) ∧ Host.Fits (root ++ Key.resolve target)
  | .list path =>
    Host.Fits (root ++ Key.resolve path) ∧
      ∀ a, c (Key.resolve path ++ [a]) ≠ none → Host.Fits (root ++ (Key.resolve path ++ [a]))

variable {root : Key} {c : Contents} {w : World} {h h' : Host} {n id : Nat} {path : String}
  {data content : Bytes} {perm : Int} {r : Request}

/-- What a computation on the host comes to, it comes to in the world. -/
theorem Contents.Outcome.onHost {act : HostM Reply}
    (houtcome : Contents.Outcome (Rooted.Holds root) c r (act.run w.host)) :
    Contents.Outcome (fun w => Rooted.Holds root w.host) c r ((World.onHost act).run w) := by
  rw [run_onHost]
  generalize act.run w.host = result at houtcome
  cases houtcome with
  | served hadmits hreply hafter => exact .served hadmits hreply hafter
  | refused hrefuses => exact .refused hrefuses

/-- Opening a file of a directory of the host opens a stream. -/
theorem run_openFile_host {flags : OpenFlags}
    (hopen : (Rooted.openFile root path flags perm).run w.host = .ok id h') :
    ((FileSystem.host root).openFile path flags perm).run w =
      .ok (.host id path) { w with host := h' } := by
  have hrun := run_onHost (Rooted.openFile root path flags perm) w
  rw [hopen] at hrun
  rw [FileSystem.openFile, run_bind_ok hrun]
  rfl

theorem run_openFile_host_error {flags : OpenFlags} {f : Fault}
    (hopen : (Rooted.openFile root path flags perm).run w.host = .error f h') :
    ((FileSystem.host root).openFile path flags perm).run w = .error f { w with host := h' } := by
  have hrun := run_onHost (Rooted.openFile root path flags perm) w
  rw [hopen] at hrun
  exact run_bind_error hrun

theorem run_use_write_host {name : String}
    (hwrite : (onStream id (Stream.writeBytes data)).run h = .ok n h') :
    ((File.host id name).use (.write data)).run { w with host := h } =
      .ok (.number n) { w with host := h' } := by
  have hrun : ((File.host id name).write data).run { w with host := h } =
      .ok n { w with host := h' } := by
    rw [File.write, File.onStream, run_onHost, hwrite]
  exact run_bind_ok hrun

theorem run_use_read_host {name : String} {size : Option Int}
    (hread : (onStream id (Stream.readBytes size)).run h = .ok content h') :
    ((File.host id name).use (.read size)).run { w with host := h } =
      .ok (.bytes content) { w with host := h' } := by
  have hrun : ((File.host id name).read size).run { w with host := h } =
      .ok content { w with host := h' } := by
    rw [File.read, File.onStream, run_onHost, hread]
  exact run_bind_ok hrun

theorem run_use_close_host {name : String}
    (hclose : (onStream id Stream.close).run h = .ok () h') :
    ((File.host id name).use .close).run { w with host := h } =
      .ok .done { w with host := h' } := by
  have hrun : (File.onStream id Stream.close).run { w with host := h } =
      .ok () { w with host := h' } := by
    rw [File.onStream, run_onHost, hclose]
  exact run_bind_ok (run_bind_ok hrun)

/-- A file that has been opened for overwriting is written and closed; no other file changes. -/
theorem exists_run_writeContent_host
    (hopen : (Rooted.openFile root path .overwriting perm).run w.host = .ok id h)
    (hn : n < h.files.length) (hstream : h.streams[id]? = some (Stream.writing n))
    (hempty : (h.file n).content = []) (data : Bytes) :
    ∃ r streams, ((FileSystem.host root).writeContent path data perm).run w =
      .ok () { w with host := { h with files := h.files.set n r, streams } } ∧
        (h.file n).Written data r := by
  obtain ⟨o, o', hwrite, hclose, hfile, hwritten⟩ := Stream.exists_run_write hempty n data
  have hrun₁ := run_onStream hstream rfl hwrite
  obtain ⟨hlt, -⟩ := List.getElem?_eq_some_iff.1 hstream
  have hset := file_set_self hn o.file
  have hclose₁ : Stream.close.run ⟨o.stream, ({ h with
      files := h.files.set n o.file, streams := h.streams.set id o.stream } : Host).file n⟩ =
      .ok () o' := (congrArg (fun r => Stream.close.run ⟨o.stream, r⟩) hset).trans hclose
  have hrun₂ := run_onStream (List.getElem?_set_self hlt) hfile hclose₁
  rw [List.set_set] at hrun₂
  exact ⟨_, _, FileSystem.run_writeContent (run_openFile_host hopen) (run_use_write_host hrun₁)
    (run_use_close_host hrun₂), hwritten⟩

/-- A file that has been opened for reading is read and closed; no file changes. -/
theorem exists_run_readContent_host
    (hopen : (Rooted.openFile root path .reading 0).run w.host = .ok id h)
    (hn : n < h.files.length) (hstream : h.streams[id]? = some (Stream.reading n)) :
    ∃ streams, ((FileSystem.host root).readContent path).run w =
      .ok (h.file n).content { w with host := { h with streams } } := by
  have hself : h.files.set n (h.file n) = h.files := by simp [file, hn]
  have hrun₁ := run_onStream hstream rfl (Stream.run_readBytes n (h.file n))
  rw [hself] at hrun₁
  obtain ⟨hlt, -⟩ := List.getElem?_eq_some_iff.1 hstream
  have hclose := Stream.run_close_taken n (h.file n).content.length (h.file n)
  have hrun₂ := run_onStream (h := { h with streams := h.streams.set id _ })
    (List.getElem?_set_self hlt) rfl hclose
  rw [hself] at hrun₂
  exact ⟨_, FileSystem.run_readContent (run_openFile_host hopen) (run_use_read_host hrun₁)
    (run_use_close_host hrun₂)⟩

namespace Host.Rooted.Holds

/-- The contents below a root after a file has been written. -/
theorem exists_run_writeContent {k : Key} (hh : Holds root h (c.put k (.file [])))
    (hopen : (openFile root path .overwriting perm).run w.host = .ok id h)
    (hget : h.tree.get? (root ++ k) = some (.file n))
    (hstream : h.streams[id]? = some (Stream.writing n)) (hempty : (h.file n).content = [])
    (data : Bytes) :
    ∃ w', ((FileSystem.host root).writeContent path data perm).run w = .ok () w' ∧
      Holds root w'.host (c.put k (.file data)) := by
  obtain ⟨r, streams, hrun, hwritten⟩ :=
    exists_run_writeContent_host hopen (hh.sound.filed _ n hget) hstream hempty data
  have hsink := hh.keeps k n hget
  have hholds := hh.setFile hget (Nat.lt_of_le_of_lt hwritten.perm (hh.sound.file_perm n))
    (hwritten.sink.trans hsink) (hwritten.content hsink)
  rw [Contents.put_put] at hholds
  exact ⟨_, hrun, hholds.withStreams streams⟩

/-- The contents below a root after a file has been read. -/
theorem exists_run_readContent {k : Key} (hh : Holds root h c)
    (hopen : (openFile root path .reading 0).run w.host = .ok id h)
    (hget : h.tree.get? (root ++ k) = some (.file n))
    (hstream : h.streams[id]? = some (Stream.reading n)) :
    ∃ w', ((FileSystem.host root).readContent path).run w = .ok (h.file n).content w' ∧
      Holds root w'.host c := by
  obtain ⟨streams, hrun⟩ :=
    exists_run_readContent_host hopen (hh.sound.filed _ n hget) hstream
  exact ⟨_, hrun, hh.withStreams streams⟩

end Host.Rooted.Holds

/-- Every request on a directory of the host comes to what its contents say. -/
theorem Host.Rooted.Holds.outcome (hh : Holds root w.host c) (hc : c.Sound) (hproper : r.Proper)
    (hfits : r.Fits root c) :
    Contents.Outcome (fun w => Holds root w.host) c r (((FileSystem.host root).serve r).run w) := by
  cases r with
  | write path data perm =>
    by_cases hadmits : c.Admits (.write path data perm)
    · obtain ⟨h', id, n, hopen, hholds, hget, hstream, hempty⟩ :=
        hh.openFile_overwriting hc hfits.1 hfits.2 hadmits
      obtain ⟨w', hrun, hholds'⟩ := hholds.exists_run_writeContent hopen hget hstream hempty data
      rw [FileSystem.run_serve_write hrun]
      exact .served hadmits (.write path data perm) hholds'
    · obtain ⟨f, h', hopen⟩ := hh.openFile_overwriting_error hc hfits.1 hfits.2 hadmits
      rw [FileSystem.run_serve_write_error (run_openFile_host_error hopen)]
      exact .refused hadmits
  | read path =>
    by_cases hadmits : c.HasFile (Key.resolve path)
    · obtain ⟨content, hk⟩ := hadmits
      obtain ⟨h', id, n, hopen, hholds, hget, hstream, rfl⟩ := hh.openFile_reading hc hfits hk
      obtain ⟨w', hrun, hholds'⟩ := hholds.exists_run_readContent hopen hget hstream
      rw [FileSystem.run_serve_read hrun]
      exact .served ⟨_, hk⟩ (.read hk) hholds'
    · obtain ⟨f, h', hopen⟩ := hh.openFile_reading_error hc hfits hadmits
      rw [FileSystem.run_serve_read_error (run_openFile_host_error hopen)]
      exact .refused hadmits
  | makeDirectories path perm =>
    have hserve : (FileSystem.host root).serve (.makeDirectories path perm) =
        World.onHost (done (Rooted.makeDirectories root path perm)) := by
      simp [FileSystem.serve, FileSystem.makeDirectories, done, map_onHost]
    rw [hserve]
    exact (hh.outcome_makeDirectories hc hfits.1 hfits.2).onHost
  | rename path target =>
    have hserve : (FileSystem.host root).serve (.rename path target) =
        World.onHost (done (Rooted.rename root path target)) := by
      simp [FileSystem.serve, FileSystem.rename, done, map_onHost]
    rw [hserve]
    exact (hh.outcome_rename hc hfits.1 hfits.2 hproper).onHost
  | remove path =>
    have hserve : (FileSystem.host root).serve (.remove path) =
        World.onHost (done (Rooted.remove root path)) := by
      simp [FileSystem.serve, FileSystem.remove, done, map_onHost]
    rw [hserve]
    exact (hh.outcome_remove hc hfits hproper).onHost
  | stat path =>
    have hserve : (FileSystem.host root).serve (.stat path) =
        World.onHost (infoReply (Rooted.stat root path)) := by
      simp [FileSystem.serve, FileSystem.stat, infoReply, map_onHost]
    rw [hserve]
    exact (hh.outcome_stat hc hfits).onHost
  | list path =>
    have hserve : (FileSystem.host root).serve (.list path) =
        World.onHost (listReply (Rooted.list root path)) := by
      simp [FileSystem.serve, FileSystem.list, listReply, map_onHost]
    rw [hserve]
    exact (hh.outcome_list hc hfits.1 hfits.2).onHost

end RootedFS
