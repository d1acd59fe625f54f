import RootedFS.FileSystem.Content
import RootedFS.Proofs.Calls
import RootedFS.Proofs.Memory.Disk

/-!
# What a filesystem holds, and what requests do to it

The contents of a filesystem say what there is at each key, whatever the filesystem keeps besides. A
request is admitted or not by the contents alone; they determine its answer, and what there is
afterwards. A filesystem meets this specification when every request comes to what the contents say.

## Main definitions

* `Item`, `Contents`: what there is at a key, and at each key
* `Contents.Sound`: contents without links, in which all but the top stands in a directory
* `Contents.makeWay`, `Contents.put`, `Contents.erase`, `Contents.move`: changes of contents
* `Request`, `Reply`, `FileSystem.serve`: requests, their answers, and how filesystems serve them
* `Request.Proper`: requests that are not among the few on which filesystems may differ
* `Contents.Admits`, `Contents.Replies`, `Contents.after`: what contents say of a request
* `Contents.Outcome`: a request comes to what the contents say

## Main results

* `Contents.Replies.unique`: contents determine the answer to a request
* `FileSystem.run_writeContent`, `FileSystem.run_readContent`: writing and reading a file at once,
  by the calls that they are made of
-/

namespace RootedFS

/-! ## Contents -/

/-- What there is at a key. -/
inductive Item where
  | directory
  | file (content : Bytes)
  | link (target : String)
deriving DecidableEq, Repr

/-- What there is at each key of a filesystem. -/
abbrev Contents := Key → Option Item

namespace Contents

/-- A file is at a key. -/
def HasFile (c : Contents) (k : Key) : Prop :=
  ∃ content, c k = some (.file content)

/-- No file is on the way to a key, or at the key. -/
def Clear (c : Contents) (k : Key) : Prop :=
  ∀ j ∈ k.steps, ¬c.HasFile j

/-- Nothing is below a key. -/
def Bare (c : Contents) (k : Key) : Prop :=
  ∀ rest, rest ≠ [] → c (k ++ rest) = none

/-- Contents without links, in which all but the top stands in a directory. -/
structure Sound (c : Contents) : Prop where
  top : c [] = some .directory
  closed : ∀ k a, c (k ++ [a]) ≠ none → c k = some .directory
  names : ∀ k, c k ≠ none → ∀ a ∈ k, Path.IsName a
  not_link : ∀ k target, c k ≠ some (.link target)

/-- The contents with the missing directories on the way to a key, the key included. -/
def makeWay (c : Contents) (k : Key) : Contents := fun j =>
  if k.steps.contains j ∧ c j = none then some .directory else c j

/-- The contents with an item at a key. -/
def put (c : Contents) (k : Key) (i : Item) : Contents := fun j =>
  if j = k then some i else c j

/-- The contents with nothing at a key. -/
def erase (c : Contents) (k : Key) : Contents := fun j =>
  if j = k then none else c j

/-- The contents with all that is at and below `src` taken to `dst`. -/
def move (c : Contents) (src dst : Key) : Contents := fun j =>
  match Key.below? dst j with
  | some rest => c (src ++ rest)
  | none => if Key.within src j then none else c j

/-- What is at `src` may be taken to `dst`: out of itself, along a way without files, to a place
where nothing is, or something of its kind with nothing below. -/
structure Movable (c : Contents) (src dst : Key) : Prop where
  src_ne : src ≠ []
  source : c src ≠ none
  out : Key.within src dst = false
  way : c.Clear dst.parent
  bare : c.Bare dst
  kind : c dst = none ∨ (c src = some .directory ↔ c dst = some .directory)

variable {c : Contents} {j k : Key} {a : String}

theorem put_put (c : Contents) (k : Key) (i i' : Item) : (c.put k i).put k i' = c.put k i' := by
  funext j
  simp only [put]
  split <;> rfl

theorem HasFile.ne_none (h : c.HasFile k) : c k ≠ none := by
  obtain ⟨content, h⟩ := h
  simp [h]

theorem HasFile.ne_directory (h : c.HasFile k) : c k ≠ some .directory := by
  obtain ⟨content, h⟩ := h
  simp [h]

namespace Sound

/-- Whatever has something below it is a directory. -/
theorem directory_of_append (h : c.Sound) {rest : Key} (hrest : rest ≠ [])
    (hk : c (k ++ rest) ≠ none) : c k = some .directory := by
  induction rest using List.reverseRecOn with
  | nil => exact absurd rfl hrest
  | append_singleton rest a ih =>
    rw [← List.append_assoc] at hk
    have hparent := h.closed _ a hk
    cases rest with
    | nil => rwa [List.append_nil] at hparent
    | cons b rest => exact ih (by simp) (by simp [hparent])

/-- What leads to a directory is one. -/
theorem directory_of_prefix (h : c.Sound) (hj : j <+: k) (hk : c k = some .directory) :
    c j = some .directory := by
  obtain ⟨rest, rfl⟩ := hj
  by_cases hrest : rest = []
  · rwa [hrest, List.append_nil] at hk
  · exact h.directory_of_append hrest (by simp [hk])

/-- Nothing is below what is no directory. -/
theorem bare (h : c.Sound) (hk : c k ≠ some .directory) : c.Bare k := by
  intro rest hrest
  by_contra hne
  exact hk (h.directory_of_append hrest hne)

/-- An item is a directory or a file. -/
theorem directory_or_hasFile (h : c.Sound) (hk : c k ≠ none) :
    c k = some .directory ∨ c.HasFile k := by
  obtain ⟨i, hi⟩ := Option.ne_none_iff_exists'.1 hk
  cases i with
  | directory => exact .inl hi
  | file content => exact .inr ⟨content, hi⟩
  | link target => exact absurd hi (h.not_link k target)

/-- No file is on the way to a directory. -/
theorem clear_of_directory (h : c.Sound) (hk : c k = some .directory) : c.Clear k := by
  intro j hj hfile
  exact hfile.ne_directory (h.directory_of_prefix (Key.mem_steps.1 hj).2 hk)

end Sound

/-! ## Making the way -/

theorem clear_append_singleton :
    c.Clear (k ++ [a]) ↔ c.Clear k ∧ ¬c.HasFile (k ++ [a]) := by
  constructor
  · refine fun h => ⟨fun j hj => ?_, h _ (Key.mem_steps.2 ⟨by simp, List.prefix_rfl⟩)⟩
    obtain ⟨hne, hbegin⟩ := Key.mem_steps.1 hj
    exact h j (Key.mem_steps.2 ⟨hne, hbegin.trans (List.prefix_append k [a])⟩)
  · rintro ⟨hclear, hlast⟩ j hj
    obtain ⟨hne, hbegin⟩ := Key.mem_steps.1 hj
    rcases List.prefix_concat_iff.1 hbegin with rfl | hbegin
    · exact hlast
    · exact hclear j (Key.mem_steps.2 ⟨hne, hbegin⟩)

theorem makeWay_apply (c : Contents) (k j : Key) :
    c.makeWay k j = if j ∈ k.steps ∧ c j = none then some .directory else c j := by
  simp only [makeWay, List.contains_iff_mem]

@[simp] theorem makeWay_nil (c : Contents) : c.makeWay [] = c := by
  funext j
  simp [makeWay_apply, Key.steps, Key.chain]

/-- What is there stays when a way is made. -/
theorem makeWay_of_ne_none (hj : c j ≠ none) : c.makeWay k j = c j :=
  if_neg fun h => hj h.2

theorem hasFile_makeWay : (c.makeWay k).HasFile j ↔ c.HasFile j := by
  rw [HasFile, HasFile, makeWay_apply]
  split
  · rename_i h
    simp [h.2]
  · rfl

theorem clear_makeWay {l : Key} : (c.makeWay l).Clear k ↔ c.Clear k :=
  forall₂_congr fun _ _ => not_congr hasFile_makeWay

/-- A way that ends at a missing name is the way to there, and a directory of that name. -/
theorem makeWay_append_singleton (hnone : c (k ++ [a]) = none) :
    c.makeWay (k ++ [a]) = (c.makeWay k).put (k ++ [a]) .directory := by
  funext j
  by_cases hj : j = k ++ [a]
  · subst hj
    rw [put, if_pos rfl, makeWay_apply, if_pos ⟨Key.mem_steps.2 ⟨by simp, List.prefix_rfl⟩, hnone⟩]
  · have hsteps : j ∈ Key.steps (k ++ [a]) ↔ j ∈ Key.steps k := by
      rw [Key.mem_steps, Key.mem_steps, List.prefix_concat_iff, or_iff_right hj]
    simp only [put, if_neg hj, makeWay_apply, hsteps]

namespace Sound

/-- An item stands in a directory; the top stands in itself. -/
theorem parent_directory (h : c.Sound) (hk : c k ≠ none) : c k.parent = some .directory := by
  rcases List.eq_nil_or_concat k with rfl | ⟨k, a, rfl⟩
  · exact h.top
  · rw [List.concat_eq_append] at hk ⊢
    rw [Key.parent_append_singleton, h.closed k a hk]

/-- Making the way to what is there makes nothing. -/
theorem makeWay_eq_self (h : c.Sound) (hk : c k ≠ none) : c.makeWay k = c := by
  funext j
  rw [makeWay_apply, if_neg]
  rintro ⟨hj, hnone⟩
  obtain ⟨-, rest, rfl⟩ := Key.mem_steps.1 hj
  by_cases hrest : rest = []
  · rw [hrest, List.append_nil] at hk
    exact hk hnone
  · rw [h.directory_of_append hrest hk] at hnone
    cases hnone

/-- A way that is made is one of directories. -/
theorem makeWay_directory (h : c.Sound) (hclear : c.Clear k) (hj : j <+: k) :
    c.makeWay k j = some .directory := by
  by_cases hnil : j = []
  · subst hnil
    rw [makeWay_of_ne_none (by simp [h.top]), h.top]
  · have hsteps : j ∈ Key.steps k := Key.mem_steps.2 ⟨hnil, hj⟩
    by_cases hnone : c j = none
    · rw [makeWay_apply, if_pos ⟨hsteps, hnone⟩]
    · rw [makeWay_of_ne_none hnone]
      exact (h.directory_or_hasFile hnone).resolve_right (hclear j hsteps)

/-- Contents stay sound when a way without files is made. -/
theorem makeWay (h : c.Sound) (hclear : c.Clear k) (hnames : ∀ a ∈ k, Path.IsName a) :
    (c.makeWay k).Sound where
  top := h.makeWay_directory hclear List.nil_prefix
  closed := by
    intro j a hj
    by_cases hstep : j ++ [a] <+: k
    · exact h.makeWay_directory hclear ((List.prefix_append j [a]).trans hstep)
    · rw [makeWay_apply, if_neg fun h => hstep (Key.mem_steps.1 h.1).2] at hj
      have hdir := h.closed j a hj
      rw [makeWay_of_ne_none (by simp [hdir]), hdir]
  names := by
    intro j hj a ha
    by_cases hstep : j <+: k
    · exact hnames a (hstep.subset ha)
    · rw [makeWay_apply, if_neg fun h => hstep (Key.mem_steps.1 h.1).2] at hj
      exact h.names j hj a ha
  not_link := by
    intro j target hj
    rw [makeWay_apply] at hj
    split at hj
    · cases hj
    · exact h.not_link j target hj

end Sound

/-- What is at and below the end of a way is not on the way to it. -/
theorem makeWay_parent_append (c : Contents) (k rest : Key) :
    c.makeWay k.parent (k ++ rest) = c (k ++ rest) := by
  rw [makeWay_apply, if_neg fun h => Key.append_not_mem_steps_parent k rest h.1]

theorem makeWay_parent_self (c : Contents) (k : Key) : c.makeWay k.parent k = c k := by
  have h := makeWay_parent_append c k []
  rwa [List.append_nil] at h

/-- Making the way to where something is taken does not change whether it may be taken there. -/
theorem movable_makeWay {src dst : Key} :
    (c.makeWay dst.parent).Movable src dst ↔ c.Movable src dst := by
  have hself := makeWay_parent_self c dst
  have hbare : (c.makeWay dst.parent).Bare dst ↔ c.Bare dst :=
    forall₂_congr fun rest _ => by rw [makeWay_parent_append]
  have hsrc : Key.within src dst = false → c.makeWay dst.parent src = c src := by
    intro hout
    rw [makeWay_apply, if_neg]
    intro h
    obtain ⟨-, rest, hrest⟩ := Key.mem_steps.1 h.1
    have hbegin : src <+: dst :=
      (List.prefix_append src rest).trans (hrest ▸ List.dropLast_prefix dst)
    obtain ⟨rest', rfl⟩ := hbegin
    rw [Key.within_append] at hout
    cases hout
  constructor
  · intro h
    have hs := hsrc h.out
    exact ⟨h.src_ne, hs ▸ h.source, h.out, clear_makeWay.1 h.way, hbare.1 h.bare,
      by simpa only [hself, hs] using h.kind⟩
  · intro h
    have hs := hsrc h.out
    exact ⟨h.src_ne, hs.symm ▸ h.source, h.out, clear_makeWay.2 h.way, hbare.2 h.bare,
      by simpa only [hself, hs] using h.kind⟩

end Contents

/-! ## Requests -/

/-- What a filesystem is asked for. -/
inductive Request where
  | write (path : String) (data : Bytes) (perm : Int)
  | read (path : String)
  | makeDirectories (path : String) (perm : Int)
  | rename (path target : String)
  | remove (path : String)
  | stat (path : String)
  | list (path : String)
deriving DecidableEq, Repr

/-- What is told of an entry wherever it is kept: its name, its kind and its size. -/
structure Summary where
  name : String
  isDirectory : Bool
  size : Int
deriving DecidableEq, Repr

/-- What a request is answered. -/
inductive Reply where
  | done
  | bytes (content : Bytes)
  | info (i : Summary)
  | listing (l : List Summary)
deriving DecidableEq, Repr

/-- The part of reported metadata that does not depend on where the entry is kept. -/
def EntryInfo.summary {σ : Type} (i : EntryInfo σ) : Summary :=
  ⟨i.name, i.isDirectory, i.size⟩

/-- Serves a request. -/
def FileSystem.serve (fs : FileSystem) : Request → WorldM Reply
  | .write path data perm => do
    fs.writeContent path data perm
    return .done
  | .read path => return .bytes (← fs.readContent path)
  | .makeDirectories path perm => do
    fs.makeDirectories path perm
    return .done
  | .rename path target => do
    fs.rename path target
    return .done
  | .remove path => do
    fs.remove path
    return .done
  | .stat path => return .info (← fs.stat path).summary
  | .list path => return .listing ((← fs.list path).map EntryInfo.summary)

/-- The answer to a call, told as a reply. -/
def Answer.reply {φ : Type} : Answer φ → Reply
  | .info i => .info i.summary
  | .listing l => .listing (l.map EntryInfo.summary)
  | .bytes content => .bytes content
  | .file _ | .number _ | .done => .done

/-- The call that a request is, if it is a single one. -/
def Request.call? : Request → Option Call
  | .makeDirectories path perm => some (.makeDirectories path perm)
  | .rename path target => some (.rename path target)
  | .remove path => some (.remove path)
  | .stat path => some (.stat path)
  | .list path => some (.list path)
  | .write .. | .read _ => none

/-- A request that is a single call is served by that call. -/
theorem FileSystem.serve_of_call (fs : FileSystem) {r : Request} {call : Call}
    (h : r.call? = some call) : fs.serve r = Answer.reply <$> fs.perform call := by
  cases r <;> cases h <;> simp [serve, perform, Answer.reply]

@[simp] theorem Answer.reply_map {φ ψ : Type} (g : φ → ψ) (a : Answer φ) :
    (a.map g).reply = a.reply := by
  cases a <;> rfl

/-- A request that fits into memory, does not take anything to itself, and does not remove the
top. -/
def Request.Proper : Request → Prop
  | .write _ data _ => data.length < memoryLimit
  | .rename path target => Key.resolve path ≠ Key.resolve target
  | .remove path => Key.resolve path ≠ []
  | .read _ | .makeDirectories .. | .stat _ | .list _ => True

section Run

open Memory

variable {fs : FileSystem} {f : File} {path : String} {data content : Bytes} {perm : Int}
  {a b : Answer File} {w w₁ w₂ w₃ : World}

/-- What is answered under another form is answered. -/
theorem exists_of_run_map {σ α β : Type} {x : EStateM Fault σ α} {g : α → β} {d e : σ} {b : β}
    (h : (g <$> x).run d = .ok b e) : ∃ a, x.run d = .ok a e ∧ g a = b := by
  change (x >>= fun a => pure (g a)).run d = _ at h
  obtain ⟨a, d', hx, hpure⟩ := exists_of_run_bind h
  cases hpure
  exact ⟨a, hx, rfl⟩

/-- A handle is closed after a computation that succeeds. -/
theorem File.run_closing {α : Type} {body : WorldM α} {x : α} (hbody : body.run w = .ok x w₁)
    (hclose : (f.use .close).run w₁ = .ok b w₂) : (f.closing body).run w = .ok x w₂ := by
  obtain ⟨l, hl, -⟩ := exists_of_run_map hclose
  have hdiscard : (discard f.close : WorldM Unit).run w₁ = .ok () w₂ := by
    change (Function.const _ () <$> f.close).run w₁ = _
    change (f.close >>= fun a => pure (Function.const _ () a)).run w₁ = _
    rw [run_bind_ok hl]
    rfl
  have htry : (tryCatch body fun e => do
      discard f.close
      throw e : WorldM α).run w = .ok x w₁ := by rw [run_tryCatch, hbody]
  rw [closing, run_bind_ok htry, run_bind_ok hdiscard]
  rfl

/-- Where all succeeds, the computation has succeeded, and then the closing. -/
theorem File.exists_of_run_closing {α : Type} {body : WorldM α} {x : α}
    (h : (f.closing body).run w = .ok x w₂) :
    ∃ w₁ b, body.run w = .ok x w₁ ∧ (f.use .close).run w₁ = .ok b w₂ := by
  obtain ⟨y, w₁, htry, hrest⟩ := exists_of_run_bind h
  obtain ⟨⟨⟩, w₁', hdiscard, hpure⟩ := exists_of_run_bind hrest
  cases hpure
  obtain ⟨l, hclose, -⟩ := exists_of_run_map hdiscard
  have huse : (f.use .close).run w₁ = .ok .done w₂ := run_bind_ok hclose
  rw [run_tryCatch] at htry
  cases hbody : body.run w with
  | ok y' w₁' =>
    rw [hbody] at htry
    cases htry
    exact ⟨_, _, rfl, huse⟩
  | error e w₁' =>
    -- a computation that has failed fails, however closing ends
    rw [hbody] at htry
    obtain ⟨⟨⟩, w₂', -, hthrow⟩ := exists_of_run_bind htry
    cases hthrow

namespace FileSystem

theorem run_writeContent (hopen : (fs.openFile path .overwriting perm).run w = .ok f w₁)
    (hwrite : (f.use (.write data)).run w₁ = .ok a w₂)
    (hclose : (f.use .close).run w₂ = .ok b w₃) :
    (fs.writeContent path data perm).run w = .ok () w₃ := by
  obtain ⟨n, hn, -⟩ := exists_of_run_map hwrite
  rw [writeContent, run_bind_ok hopen]
  apply File.run_closing _ hclose
  change (f.write data >>= fun a => pure (Function.const _ () a)).run w₁ = _
  rw [run_bind_ok hn]
  rfl

/-- Writing that succeeds has opened the file, written and closed it. -/
theorem exists_of_run_writeContent (h : (fs.writeContent path data perm).run w = .ok () w₃) :
    ∃ f w₁ a w₂ b, (fs.openFile path .overwriting perm).run w = .ok f w₁ ∧
      (f.use (.write data)).run w₁ = .ok a w₂ ∧ (f.use .close).run w₂ = .ok b w₃ := by
  obtain ⟨f, w₁, hopen, hclosing⟩ := exists_of_run_bind h
  obtain ⟨w₂, b, hbody, hclose⟩ := File.exists_of_run_closing hclosing
  obtain ⟨n, hwrite, -⟩ := exists_of_run_map hbody
  exact ⟨f, w₁, .number n, w₂, b, hopen, run_bind_ok hwrite, hclose⟩

theorem run_readContent (hopen : (fs.openFile path .reading 0).run w = .ok f w₁)
    (hread : (f.use (.read (some (-1)))).run w₁ = .ok (.bytes content) w₂)
    (hclose : (f.use .close).run w₂ = .ok b w₃) :
    (fs.readContent path).run w = .ok content w₃ := by
  obtain ⟨n, hn, hanswer⟩ := exists_of_run_map hread
  cases hanswer
  rw [readContent, openRead, run_bind_ok hopen]
  exact File.run_closing hn hclose

theorem run_serve_write (h : (fs.writeContent path data perm).run w = .ok () w₁) :
    (fs.serve (.write path data perm)).run w = .ok .done w₁ :=
  run_bind_ok h

theorem run_serve_read (h : (fs.readContent path).run w = .ok content w₁) :
    (fs.serve (.read path)).run w = .ok (.bytes content) w₁ :=
  run_bind_ok h

/-- A request to write fails where opening fails. -/
theorem run_serve_write_error {e : Fault}
    (h : (fs.openFile path .overwriting perm).run w = .error e w₁) :
    (fs.serve (.write path data perm)).run w = .error e w₁ :=
  run_bind_error (run_bind_error h)

/-- A request to read fails where opening fails. -/
theorem run_serve_read_error {e : Fault}
    (h : (fs.openFile path .reading 0).run w = .error e w₁) :
    (fs.serve (.read path)).run w = .error e w₁ :=
  run_bind_error (run_bind_error h)

end FileSystem

end Run

/-- The kind bits of a file are those of no directory. -/
theorem Mode.isDirectory_regular {perm : Nat} (h : perm < 0o10000) :
    Mode.isDirectory ((Mode.regular + perm : Nat) : Int) = false := by
  rw [Mode.isDirectory, Mode.regular, beq_eq_false_iff_ne]
  omega

/-- The kind bits of a device are those of no directory. -/
theorem Mode.isDirectory_device {perm : Nat} (h : perm < 0o10000) :
    Mode.isDirectory ((Mode.device + perm : Nat) : Int) = false := by
  rw [Mode.isDirectory, Mode.device, beq_eq_false_iff_ne]
  omega

theorem Mode.isDirectory_directory {perm : Nat} (h : perm < 0o10000) :
    Mode.isDirectory ((Mode.directory + perm : Nat) : Int) = true := by
  rw [Mode.isDirectory, Mode.directory, beq_iff_eq]
  omega

/-- What is told of an item under a name. -/
def Item.summary (name : String) : Item → Summary
  | directory => ⟨name, true, 0⟩
  | file content => ⟨name, false, content.length⟩
  | link target => ⟨name, false, target.utf8ByteSize⟩

@[simp] theorem Item.summary_name (name : String) (i : Item) : (i.summary name).name = name := by
  cases i <;> rfl

namespace Contents

/-- A request is admitted. -/
def Admits (c : Contents) : Request → Prop
  | .write path _ _ =>
    c.HasFile (Key.resolve path) ∨
      (c (Key.resolve path) = none ∧ c.Clear (Key.resolve path).parent)
  | .read path => c.HasFile (Key.resolve path)
  | .makeDirectories path _ => c.Clear (Key.resolve path)
  | .rename path target => c.Movable (Key.resolve path) (Key.resolve target)
  | .remove path =>
    c.HasFile (Key.resolve path) ∨
      (c (Key.resolve path) = some .directory ∧ c.Bare (Key.resolve path))
  | .stat path => c (Key.resolve path) ≠ none
  | .list path => c (Key.resolve path) = some .directory

/-- What a request that is admitted is answered. -/
inductive Replies (c : Contents) : Request → Reply → Prop
  | write (path : String) (data : Bytes) (perm : Int) : Replies c (.write path data perm) .done
  | makeDirectories (path : String) (perm : Int) : Replies c (.makeDirectories path perm) .done
  | rename (path target : String) : Replies c (.rename path target) .done
  | remove (path : String) : Replies c (.remove path) .done
  | read {path : String} {content : Bytes} (h : c (Key.resolve path) = some (.file content)) :
    Replies c (.read path) (.bytes content)
  | stat {path : String} {item : Item} (h : c (Key.resolve path) = some item) :
    Replies c (.stat path) (.info (item.summary (Key.resolve path).name))
  | list {path : String} {l : List Summary} (hsorted : l.Pairwise (·.name < ·.name))
    (hmem : ∀ i, i ∈ l ↔
      ∃ item, c (Key.resolve path ++ [i.name]) = some item ∧ i = item.summary i.name) :
    Replies c (.list path) (.listing l)

/-- What is told of the items directly below a key, by their names. -/
def summaries (c : Contents) (k : Key) (names : List String) : List Summary :=
  names.filterMap fun a => (c (k ++ [a])).map (Item.summary a)

/-- The answer to a listing tells of all names below its key, in order. -/
theorem replies_list {c : Contents} {path : String} {names : List String}
    (hsorted : names.Pairwise (· < ·))
    (hmem : ∀ a, c (Key.resolve path ++ [a]) ≠ none → a ∈ names) :
    Replies c (.list path) (.listing (c.summaries (Key.resolve path) names)) := by
  apply Replies.list
  · apply List.Pairwise.filterMap _ _ hsorted
    intro a b hab i hi j hj
    obtain ⟨item, -, rfl⟩ := Option.map_eq_some_iff.1 hi
    obtain ⟨item', -, rfl⟩ := Option.map_eq_some_iff.1 hj
    rwa [Item.summary_name, Item.summary_name]
  · intro i
    rw [summaries, List.mem_filterMap]
    constructor
    · rintro ⟨a, -, ha⟩
      obtain ⟨item, hitem, rfl⟩ := Option.map_eq_some_iff.1 ha
      rw [Item.summary_name]
      exact ⟨item, hitem, rfl⟩
    · rintro ⟨item, hitem, hi⟩
      refine ⟨i.name, hmem _ (by simp [hitem]), ?_⟩
      rw [hitem, Option.map_some, ← hi]

/-- The contents after a request that is admitted. -/
def after (c : Contents) : Request → Contents
  | .write path data _ =>
    (c.makeWay (Key.resolve path).parent).put (Key.resolve path) (.file data)
  | .makeDirectories path _ => c.makeWay (Key.resolve path)
  | .rename path target =>
    (c.makeWay (Key.resolve target).parent).move (Key.resolve path) (Key.resolve target)
  | .remove path => c.erase (Key.resolve path)
  | .read _ | .stat _ | .list _ => c

/-- Summaries in the order of their names are determined by which they are. -/
theorem eq_of_pairwise_name {l l' : List Summary} (h : l.Pairwise (·.name < ·.name))
    (h' : l'.Pairwise (·.name < ·.name)) (hmem : ∀ i, i ∈ l ↔ i ∈ l') : l = l' := by
  have hne : ∀ {x y : Summary}, x.name < y.name → x ≠ y := by
    rintro x y hlt rfl
    exact String.lt_irrefl _ hlt
  have hperm : l.Perm l' := (List.perm_ext_iff_of_nodup (h.imp hne) (h'.imp hne)).2 hmem
  apply hperm.eq_of_pairwise _ h h'
  intro x y _ _ hxy hyx
  exact absurd (String.lt_trans hxy hyx) (String.lt_irrefl _)

/-- Contents determine the answer to a request. -/
theorem Replies.unique {c : Contents} {r : Request} {a b : Reply} (ha : c.Replies r a)
    (hb : c.Replies r b) : a = b := by
  cases ha with
  | write | makeDirectories | rename | remove =>
    cases hb
    rfl
  | read h =>
    cases hb with
    | read h' =>
      rw [h] at h'
      cases h'
      rfl
  | stat h =>
    cases hb with
    | stat h' =>
      rw [h] at h'
      cases h'
      rfl
  | list hsorted hmem =>
    cases hb with
    | list hsorted' hmem' =>
      rw [eq_of_pairwise_name hsorted hsorted' fun i => (hmem i).trans (hmem' i).symm]

/-- A request comes to what the contents of a filesystem say, where `Holds` tells the contents that
the filesystem has in a state. -/
inductive Outcome {σ : Type} (Holds : σ → Contents → Prop) (c : Contents) (r : Request) :
    EStateM.Result Fault σ Reply → Prop
  | served {a : Reply} {s : σ} (hadmits : c.Admits r) (hreply : c.Replies r a)
    (hafter : Holds s (c.after r)) : Outcome Holds c r (.ok a s)
  | refused {f : Fault} {s : σ} (hrefuses : ¬c.Admits r) : Outcome Holds c r (.error f s)

end Contents

end RootedFS
