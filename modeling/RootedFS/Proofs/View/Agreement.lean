import RootedFS.Proofs.View.Simulation

/-!
# Stores that agree below a key

Two stores may agree on what is at and below a key while all else in them is different: the same
entries stand there, and where a file stands on the way there, it stands there in both. A call whose
paths lead to the key or below it then comes to the same on both, with the same fault if it fails,
and the stores agree again. Ticks are left aside, and so is the supply of numbers: creating a
temporary file is the one call that draws from it.

## Main definitions

* `Tree.Agree`: two trees agree at and below a key
* `Handle.Twin`: handles that differ in nothing that calls on them can tell
* `Agreement`: two stores agree at and below a key, with pairs of handles
* `EndSame`: two runs end the same

## Main results

* `Agreement.call`, `Agreement.use`: calls on both stores end the same
* `Agreement.of_frame`: what is done to one of the stores outside the key is not noticed
-/

namespace RootedFS

open Memory Tree

theorem Key.not_within_of_prefix {base j : Key} (h : j <+: base) (hne : j ≠ base) :
    within base j = false := by
  rw [← Bool.not_eq_true, within_iff_isPrefix]
  intro hin
  exact hne (h.eq_of_length_le hin.length_le)

/-- Below a key nothing is below another that is neither at or below it nor above it. -/
theorem Key.not_within_of_apart {base other k : Key} (hout : within base other = false)
    (hout' : within other base = false) (hk : within base k = true) : within other k = false := by
  obtain ⟨rest, rfl⟩ := within_iff.1 hk
  exact within_append_of_not_within hout hout' rest

/-- Outside the key no file has come or gone. -/
theorem Memory.Store.Frame.isFile {base k : Key} {s s' : Store} (h : Frame base s s')
    (hk : Key.within base k = false) : s'.tree.IsFile k ↔ s.tree.IsFile k := by
  cases hget : s.tree.get? k with
  | some e => exact IsFile.congr ((h.kept k e hk hget).trans hget.symm)
  | none =>
    refine iff_of_false ?_ (not_isFile_of_none hget)
    intro hfile
    exact (h.made k hk hget hfile.isSome).2.not_isFile hfile

/-! ## Trees that agree below a key -/

namespace Tree

/-- The entries at and below a key are the same in two trees but for their ticks, and so are the
files on the way to the key. -/
structure Agree (base : Key) (t t' : Tree Entry) : Prop where
  entries : ∀ k, Key.within base k = true →
    (t.get? k).map Entry.timeless = (t'.get? k).map Entry.timeless
  above : ∀ j, j <+: base → (t.IsFile j ↔ t'.IsFile j)

variable {base j k src dst : Key} {t t' : Tree Entry} {s s' s₁ s₁' : Store} {d d' : Disk}

/-- The same files stand on the way to the key and below it. -/
theorem Agree.isFile (h : Agree base t t') (hj : j <+: base ∨ Key.within base j = true) :
    t.IsFile j ↔ t'.IsFile j :=
  hj.elim (h.above j) fun hin => isFile_congr (h.entries j hin)

/-- Why nothing is found is the same. -/
theorem Agree.missing (h : Agree base s.tree s'.tree) (hs : s.InStep) (hs' : s'.InStep)
    (hk : Key.within base k = true) : s.missing k = s'.missing k := by
  have hany : k.parent.steps.any s.hasFile = k.parent.steps.any s'.hasFile := by
    rw [Bool.eq_iff_iff, List.any_eq_true, List.any_eq_true]
    refine exists_congr fun j => and_congr_right fun hj => ?_
    rw [← hs.isFile_tree, ← hs'.isFile_tree]
    exact h.isFile (Key.prefix_or_within_of_mem_steps_parent hk hj)
  rw [Store.missing, Store.missing, hany]

/-- A directory below the key lists the same names. -/
theorem Agree.children (h : Agree base s.tree s'.tree) (hs : s.InStep) (hs' : s'.InStep)
    (hk : Key.within base k = true) : s.children k = s'.children k := by
  refine List.Pairwise.eq_of_mem_iff (pairwise_foldr_insertName _) (pairwise_foldr_insertName _) ?_
  intro a
  rw [hs.mem_children, hs'.mem_children]
  exact exists_congr fun rest =>
    isSome_congr (h.entries _ (Key.within_trans hk (Key.within_append k _)))

/-! ### Changes that are the same in both trees -/

/-- An entry has changed in the same way in both. -/
theorem entries_update {t₁ t₁' : Tree Entry} {e e' : Option Entry}
    (h : (t.get? j).map Entry.timeless = (t'.get? j).map Entry.timeless)
    (hget : t₁.get? j = if j = k then e else t.get? j)
    (hget' : t₁'.get? j = if j = k then e' else t'.get? j)
    (he : e.map Entry.timeless = e'.map Entry.timeless) :
    (t₁.get? j).map Entry.timeless = (t₁'.get? j).map Entry.timeless := by
  rw [hget, hget']
  split
  · exact he
  · exact h

/-- The same directories have been made in both. -/
theorem entries_addDirectories (hs : d.store.InStep) (hs' : d'.store.InStep)
    (h : (d.store.tree.get? j).map Entry.timeless = (d'.store.tree.get? j).map Entry.timeless)
    (perm : Int) (keys : List Key) :
    ((d.addDirectories perm keys).store.tree.get? j).map Entry.timeless =
      ((d'.addDirectories perm keys).store.tree.get? j).map Entry.timeless := by
  by_cases hnone : d'.store.tree.get? j = none
  · by_cases hmem : j ∈ keys
    · obtain ⟨now, hnow⟩ :=
        Disk.get?_addDirectories_of_mem perm hs hmem ((get?_eq_none_congr h).2 hnone)
      obtain ⟨now', hnow'⟩ := Disk.get?_addDirectories_of_mem perm hs' hmem hnone
      rw [hnow, hnow']
      rfl
    · rw [Disk.get?_addDirectories_of_not_mem perm hs hmem,
        Disk.get?_addDirectories_of_not_mem perm hs' hmem, h]
  · rw [← ne_eq, Option.ne_none_iff_isSome] at hnone
    rw [Disk.get?_addDirectories_of_isSome perm hs ((isSome_congr h).2 hnone),
      Disk.get?_addDirectories_of_isSome perm hs' hnone, h]

/-- What is at and below one key has been moved to another in both. -/
theorem entries_moved (hm : Store.Moved s s₁ src dst) (hm' : Store.Moved s' s₁' src dst)
    (hsrc : Key.within base src = true)
    (h : ∀ k, Key.within base k = true →
      (s.tree.get? k).map Entry.timeless = (s'.tree.get? k).map Entry.timeless)
    (hj : Key.within base j = true) :
    (s₁.tree.get? j).map Entry.timeless = (s₁'.tree.get? j).map Entry.timeless := by
  cases hin : Key.within dst j with
  | true =>
    obtain ⟨rest, rfl⟩ := Key.within_iff.1 hin
    rw [hm.target, hm'.target]
    exact h _ (Key.within_trans hsrc (Key.within_append src rest))
  | false =>
    rw [hm.other j hin, hm'.other j hin]
    split
    · rfl
    · exact h j hj

end Tree

/-- Whether a call draws numbers from the supply. -/
def Call.draws : Call → Bool
  | createTemp _ _ => true
  | _ => false

namespace Memory

/-! ## Twin handles -/

/-- Two handles are on the same file at or below a key, or both on none, and alike in all else. -/
structure Handle.Twin (base : Key) (h h' : Handle) : Prop where
  mirrors : h.Mirrors [] h'
  name : h.name = h'.name
  within : h.closed = false → ∀ k, h.key = some k → Key.within base k = true

namespace Handle.Twin

variable {base k src dst : Key} {h h' : Handle}

/-- Twins that are open are on the same file. -/
theorem key (hh : h.Twin base h') (ho : h.closed = false) : h.key = h'.key := by
  simpa using hh.mirrors.key ho

theorem detach (hh : h.Twin base h') (k : Key) : (h.detach k).Twin base (h'.detach k) where
  mirrors := hh.mirrors.detach
  name := by simp [hh.name]
  within ho j hj := by
    obtain ⟨hho, hhj, -⟩ := Handle.key_detach ho hj
    exact hh.within hho j hhj

theorem follow (hh : h.Twin base h') (hdst : Key.within base dst = true) :
    (h.follow src dst).Twin base (h'.follow src dst) where
  mirrors := hh.mirrors.follow
  name := by simp [hh.name]
  within ho j hj := by
    obtain ⟨hho, i, hi, rfl⟩ := Handle.key_follow ho hj
    cases hin : Key.within src i with
    | true =>
      obtain ⟨rest, rfl⟩ := Key.within_iff.1 hin
      rw [rebase_append]
      exact Key.within_trans hdst (Key.within_append dst rest)
    | false =>
      rw [rebase_of_below?_eq_none (Key.within_eq_false_iff.1 hin)]
      exact hh.within hho i hi

theorem newHandle (hk : Key.within base k = true) (name : String) (flags : OpenFlags)
    (content : Bytes) :
    (newHandle k name flags content).Twin base (Memory.newHandle k name flags content) where
  mirrors := .newHandle k name name flags content
  name := rfl
  within _ _ hj := Option.some.inj hj ▸ hk

/-- Calls on twins come to the same, and leave twins. -/
theorem use (hh : h.Twin base h') (c : HandleCall) :
    (h.use c).1 = (h'.use c).1 ∧ (h.use c).2.Twin base (h'.use c).2 := by
  have hframe := h.use_frame c
  have hframe' := h'.use_frame c
  refine ⟨?_, (hh.mirrors.use c).2, by rw [hframe.2.1, hframe'.2.1, hh.name], ?_⟩
  · have heq := hh.mirrors.eq_with
    rw [hh.name] at heq
    cases ho : h.closed with
    | true =>
      have ho' : h'.closed = true := hh.mirrors.closed ▸ ho
      by_cases hc : c = .close <;> simp [Handle.use, ho, ho', hh.name, hc]
    | false =>
      have ho' : h'.closed = false := hh.mirrors.closed ▸ ho
      rw [h.use_of_open c ho, h'.use_of_open c ho', heq, Handle.useOpen_with]
  · intro ho k hk
    rw [hframe.1] at hk
    refine hh.within ?_ k hk
    by_contra hclosed
    rw [hframe.2.2.2 (by simpa using hclosed)] at ho
    cases ho

end Handle.Twin

/-! ## Stores that agree -/

/-- The same entries stand at and below a key of two stores, and the handles of each pair are
twins. -/
structure AgreeBelow (base : Key) (ps : List Pair) (d d' : Disk) : Prop where
  entries : ∀ k, Key.within base k = true →
    (d.store.tree.get? k).map Entry.timeless = (d'.store.tree.get? k).map Entry.timeless
  paired : Paired (Handle.Twin base) ps d.store.handles d'.store.handles

/-- Two sound stores agree at and below a key, and the handles of each pair are twins. -/
structure Agreement (base : Key) (ps : List Pair) (d d' : Disk) : Prop
    extends AgreeBelow base ps d d' where
  sound : d.store.Sound
  sound' : d'.store.Sound
  above : ∀ j, j <+: base → (d.store.tree.IsFile j ↔ d'.store.tree.IsFile j)

/-- Two runs end the same: both with answers that are related, or both with the same fault. -/
inductive EndSame {α α' : Type} (R : α → α' → Disk → Disk → Prop) (E : Disk → Disk → Prop) :
    EStateM.Result Fault Disk α → EStateM.Result Fault Disk α' → Prop where
  | ok {a : α} {a' : α'} {d d' : Disk} (h : R a a' d d') : EndSame R E (.ok a d) (.ok a' d')
  | error {f : Fault} {d d' : Disk} (h : E d d') : EndSame R E (.error f d) (.error f d')

theorem EndSame.mapResult {α α' β β' : Type} {R : α → α' → Disk → Disk → Prop}
    {R' : β → β' → Disk → Disk → Prop} {E : Disk → Disk → Prop} {f : α → β} {g : α' → β'} {r r'}
    (h : EndSame R E r r') (hR : ∀ a a' e e', R a a' e e' → R' (f a) (g a') e e') :
    EndSame R' E (mapResult f r) (mapResult g r') := by
  cases h with
  | ok h => exact .ok (hR _ _ _ _ h)
  | error h => exact .error h

section

variable {base j k src dst : Key} {ps qs : List Pair} {d d' e e' : Disk} {path : String}
  {flags : OpenFlags} {perm : Int}

theorem Agreement.tree (hA : Agreement base ps d d') :
    Tree.Agree base d.store.tree d'.store.tree :=
  ⟨hA.entries, hA.above⟩

/-- Files outside the key stay where they are, so that stores which agree below the key after a
change agree. -/
theorem Agreement.next (hA : Agreement base ps d d') (hs : e.store.Sound) (hs' : e'.store.Sound)
    (hf : Store.Frame base d.store e.store) (hf' : Store.Frame base d'.store e'.store)
    (hbelow : AgreeBelow base qs e e') : Agreement base qs e e' where
  toAgreeBelow := hbelow
  sound := hs
  sound' := hs'
  above j hj := by
    by_cases heq : j = base
    · exact isFile_congr (hbelow.entries j (by rw [heq, Key.within_self]))
    · have hout := Key.not_within_of_prefix hj heq
      rw [hf.isFile hout, hf'.isFile hout, hA.above j hj]

namespace AgreeBelow

section

variable (hB : AgreeBelow base ps d d')
include hB

theorem addDirectories (hs : d.store.InStep) (hs' : d'.store.InStep) (perm : Int)
    (keys : List Key) :
    AgreeBelow base ps (d.addDirectories perm keys) (d'.addDirectories perm keys) where
  entries j hj := entries_addDirectories hs hs' (hB.entries j hj) perm keys
  paired := by simpa using hB.paired

theorem putFile (k : Key) (content : Bytes) (mode : Nat) :
    AgreeBelow base ps (d.putFile k content mode) (d'.putFile k content mode) where
  entries j hj := entries_update (hB.entries j hj) (Disk.get?_putFile d k j content mode)
    (Disk.get?_putFile d' k j content mode) rfl
  paired := hB.paired

/-- A handle is opened on the same file. -/
theorem addHandle (hk : Key.within base k = true) (path : String) (flags : OpenFlags)
    (content : Bytes) (name inner : String) :
    AgreeBelow base
      (ps ++ [⟨d.store.handles.length, d'.store.handles.length, name, inner⟩])
      (d.addHandle (newHandle k path flags content))
      (d'.addHandle (newHandle k path flags content)) where
  entries := hB.entries
  paired := hB.paired.append (.newHandle hk path flags content) name inner

/-- Every handle changes. -/
theorem mapHandles {f : Handle → Handle}
    (hf : ∀ h h', Handle.Twin base h h' → (f h).Twin base (f h')) :
    AgreeBelow base ps (d.mapHandles f) (d'.mapHandles f) where
  entries := hB.entries
  paired := hB.paired.map hf

/-- The entries at and below one key are moved to another, and the handles there follow. -/
theorem moved {g g' : Store → Store} (hg : Store.Moved d.store (g d.store) src dst)
    (hg' : Store.Moved d'.store (g' d'.store) src dst) (hsrc : Key.within base src = true)
    (hdst : Key.within base dst = true) :
    AgreeBelow base ps ((d.mapStore g).mapHandles (Handle.follow src dst))
      ((d'.mapStore g').mapHandles (Handle.follow src dst)) := by
  apply mapHandles _ fun h h' hh => hh.follow hdst
  refine ⟨fun j hj => entries_moved hg hg' hsrc hB.entries hj, ?_⟩
  rw [Disk.mapStore_store, Disk.mapStore_store, hg.handles, hg'.handles]
  exact hB.paired

theorem eraseFile (k : Key) :
    AgreeBelow base ps ((d.mapStore (·.eraseFile k)).mapHandles (Handle.detach k))
      ((d'.mapStore (·.eraseFile k)).mapHandles (Handle.detach k)) := by
  apply mapHandles _ fun h h' hh => hh.detach k
  exact ⟨fun j hj => entries_update (hB.entries j hj) (Store.get?_tree_eraseFile d.store k j)
    (Store.get?_tree_eraseFile d'.store k j) rfl, hB.paired⟩

theorem eraseDirectory (k : Key) :
    AgreeBelow base ps (d.mapStore (·.eraseDirectory k)) (d'.mapStore (·.eraseDirectory k)) :=
  ⟨fun j hj => entries_update (hB.entries j hj) (Store.get?_tree_eraseDirectory d.store k j)
    (Store.get?_tree_eraseDirectory d'.store k j) rfl, hB.paired⟩

end

end AgreeBelow

namespace Agreement

section

variable (hA : Agreement base ps d d')
include hA

theorem isFile (hj : j <+: base ∨ Key.within base j = true) :
    d.store.tree.IsFile j ↔ d'.store.tree.IsFile j :=
  hA.tree.isFile hj

theorem missing (hk : Key.within base k = true) : d.store.missing k = d'.store.missing k :=
  hA.tree.missing hA.sound.inStep hA.sound'.inStep hk

theorem children (hk : Key.within base k = true) : d.store.children k = d'.store.children k :=
  hA.tree.children hA.sound.inStep hA.sound'.inStep hk

theorem isDirectory (hk : Key.within base k = true) :
    d.store.tree.IsDirectory k ↔ d'.store.tree.IsDirectory k :=
  isDirectory_congr (hA.entries k hk)

theorem get?_eq_none_iff (hk : Key.within base k = true) :
    d.store.tree.get? k = none ↔ d'.store.tree.get? k = none :=
  get?_eq_none_congr (hA.entries k hk)

/-- No file is in the way to the parent of a key below the base when none is in the other store. -/
theorem free_parent (hk : Key.within base k = true)
    (hfree : ∀ j ∈ k.parent.steps, ¬d'.store.tree.IsFile j) :
    ∀ j ∈ k.parent.steps, ¬d.store.tree.IsFile j := by
  intro j hj
  rw [hA.isFile (Key.prefix_or_within_of_mem_steps_parent hk hj)]
  exact hfree j hj

theorem near_steps (hk : Key.within base k = true) (hj : j ∈ k.steps) :
    d.store.tree.IsFile j ↔ d'.store.tree.IsFile j := by
  obtain ⟨rest, rfl⟩ := Key.within_iff.1 hk
  exact hA.isFile (Key.prefix_or_within_of_mem_steps hj)

/-! ### Calls on both stores -/

theorem directories (hk : Key.within base k = true) {r'} (h : DirectoriesOutcome d' k perm r') :
    ∃ r, DirectoriesOutcome d k perm r ∧
      EndSame (fun _ _ => AgreeBelow base ps) (AgreeBelow base ps) r r' := by
  cases h with
  | blocked hj hfile =>
    exact ⟨_, .blocked hj ((hA.near_steps hk hj).2 hfile), .error hA.toAgreeBelow⟩
  | made hfree =>
    refine ⟨_, .made fun j hj => ?_,
      .ok (hA.addDirectories hA.sound.inStep hA.sound'.inStep perm k.steps)⟩
    rw [hA.near_steps hk hj]
    exact hfree j hj

theorem openFile (hk : Key.within base k = true) {r'} (h : OpenOutcome d' k path flags perm r') :
    ∃ r, OpenOutcome d k path flags perm r ∧
      EndSame (fun id id' e e' =>
          ∀ name inner, AgreeBelow base (ps ++ [⟨id, id', name, inner⟩]) e e')
        (AgreeBelow base ps) r r' := by
  have hself := hA.isFile (.inr hk)
  cases h with
  | directory h => exact ⟨_, .directory ((hA.isDirectory hk).2 h), .error hA.toAgreeBelow⟩
  | present h hx => exact ⟨_, .present (hself.2 h) hx, .error hA.toAgreeBelow⟩
  | @emptied content mode modified h hx ht =>
    obtain ⟨modified', h'⟩ := get?_of_file_congr (hA.entries k hk) h
    exact ⟨_, .emptied h' hx ht,
      .ok ((hA.putFile k [] mode).addHandle hk path flags [])⟩
  | @kept content mode modified h hx ht =>
    obtain ⟨modified', h'⟩ := get?_of_file_congr (hA.entries k hk) h
    exact ⟨_, .kept h' hx ht, .ok (hA.addHandle hk path flags content)⟩
  | missing h hc =>
    rw [← hA.missing hk]
    exact ⟨_, .missing ((hA.get?_eq_none_iff hk).2 h) hc, .error hA.toAgreeBelow⟩
  | blocked h hc hj hfile =>
    have hnear := Key.prefix_or_within_of_mem_steps_parent hk hj
    exact ⟨_, .blocked ((hA.get?_eq_none_iff hk).2 h) hc hj ((hA.isFile hnear).2 hfile),
      .error hA.toAgreeBelow⟩
  | made h hc hfree =>
    have hdirs := hA.addDirectories hA.sound.inStep hA.sound'.inStep defaultPerm k.parent.steps
    have hput := hdirs.putFile k [] (Mode.regular + Mode.permissions perm)
    have hopened := hput.addHandle hk path flags []
    simp only [Disk.putFile_handles, Disk.addDirectories_handles] at hopened
    exact ⟨_, .made ((hA.get?_eq_none_iff hk).2 h) hc (hA.free_parent hk hfree), .ok hopened⟩

theorem rename (hsrc : Key.within base src = true) (hdst : Key.within base dst = true)
    (hnames : ∀ a ∈ dst, Path.IsName a) {target : String} {r'}
    (h : RenameOutcome d' src dst path target r') :
    ∃ r, RenameOutcome d src dst path target r ∧
      EndSame (fun _ _ => AgreeBelow base ps) (AgreeBelow base ps) r r' := by
  have hfile := fun {k} (hk : Key.within base k = true) => hA.isFile (j := k) (.inr hk)
  have hblocked := fun {j} (hj : j ∈ dst.parent.steps) =>
    hA.isFile (Key.prefix_or_within_of_mem_steps_parent hdst hj)
  have hchildren := hA.children hdst
  have hdirs := hA.addDirectories hA.sound.inStep hA.sound'.inStep defaultPerm dst.parent.steps
  have hsame := hA.toAgreeBelow
  cases h with
  | same h => exact ⟨_, .same h, .ok hsame⟩
  | missing hne h =>
    rw [← hA.missing hsrc]
    exact ⟨_, .missing hne ((hA.get?_eq_none_iff hsrc).2 h), .error hsame⟩
  | ontoDirectory hf hd =>
    exact ⟨_, .ontoDirectory ((hfile hsrc).2 hf) ((hA.isDirectory hdst).2 hd), .error hsame⟩
  | fileBlocked hne hf hd hj hb =>
    exact ⟨_, .fileBlocked hne ((hfile hsrc).2 hf) (mt (hA.isDirectory hdst).1 hd) hj
      ((hblocked hj).2 hb), .error hsame⟩
  | fileMoved hne hf hd hfree =>
    have hf₁ := (hfile hsrc).2 hf
    have hd₁ := mt (hA.isDirectory hdst).1 hd
    have hfree₁ := hA.free_parent hdst hfree
    have hmove := fileMove hA.sound hnames hne hf₁ hd₁ hfree₁
    have hmove' := fileMove hA.sound' hnames hne hf hd hfree
    have hdetached := hdirs.mapHandles fun h h' hh => hh.detach dst
    exact ⟨_, .fileMoved hne hf₁ hd₁ hfree₁,
      .ok (hdetached.moved hmove.moved hmove'.moved hsrc hdst)⟩
  | root hne h => exact ⟨_, .root hne h, .error hsame⟩
  | ontoFile hroot hd hf =>
    exact ⟨_, .ontoFile hroot ((hA.isDirectory hsrc).2 hd) ((hfile hdst).2 hf), .error hsame⟩
  | intoItself hne hroot hd hf hin =>
    exact ⟨_, .intoItself hne hroot ((hA.isDirectory hsrc).2 hd) (mt (hfile hdst).1 hf) hin,
      .error hsame⟩
  | notEmpty hroot hd hd' hout hc =>
    exact ⟨_, .notEmpty hroot ((hA.isDirectory hsrc).2 hd) ((hA.isDirectory hdst).2 hd') hout
      (hchildren ▸ hc), .error hsame⟩
  | directoryBlocked hroot hd hf hout hc hj hb =>
    exact ⟨_, .directoryBlocked hroot ((hA.isDirectory hsrc).2 hd) (mt (hfile hdst).1 hf) hout
      (hchildren ▸ hc) hj ((hblocked hj).2 hb), .error hsame⟩
  | directoryMoved hroot hd hf hout hc hfree =>
    have hd₁ := (hA.isDirectory hsrc).2 hd
    have hf₁ := mt (hfile hdst).1 hf
    have hc₁ := hchildren.trans hc
    have hfree₁ := hA.free_parent hdst hfree
    have hmove := directoryMove hA.sound hnames hroot hd₁ hf₁ hout hc₁ hfree₁
    have hmove' := directoryMove hA.sound' hnames hroot hd hf hout hc hfree
    exact ⟨_, .directoryMoved hroot hd₁ hf₁ hout hc₁ hfree₁,
      .ok (hdirs.moved hmove.moved hmove'.moved hsrc hdst)⟩

theorem remove (hk : Key.within base k = true) {r'} (h : RemoveOutcome d' k path r') :
    ∃ r, RemoveOutcome d k path r ∧
      EndSame (fun _ _ => AgreeBelow base ps) (AgreeBelow base ps) r r' := by
  have hchildren := hA.children hk
  cases h with
  | file h => exact ⟨_, .file ((hA.isFile (.inr hk)).2 h), .ok (hA.eraseFile k)⟩
  | root h => exact ⟨_, .root h, .error hA.toAgreeBelow⟩
  | notEmpty hroot h hc =>
    exact ⟨_, .notEmpty hroot ((hA.isDirectory hk).2 h) (hchildren ▸ hc), .error hA.toAgreeBelow⟩
  | directory hroot h hc =>
    exact ⟨_, .directory hroot ((hA.isDirectory hk).2 h) (hchildren.trans hc),
      .ok (hA.eraseDirectory k)⟩
  | missing h =>
    rw [← hA.missing hk]
    exact ⟨_, .missing ((hA.get?_eq_none_iff hk).2 h), .error hA.toAgreeBelow⟩

theorem stat {σ : Type} (hk : Key.within base k = true) {r'}
    (h : StatOutcome (σ := σ) d' k path r') :
    ∃ r, StatOutcome (σ := σ) d k path r ∧
      EndSame (fun i i' e e' => i.Alike i' ∧ AgreeBelow base ps e e') (AgreeBelow base ps)
        r r' := by
  cases h with
  | @present entry' h =>
    have hentries := hA.entries k hk
    rw [h] at hentries
    obtain ⟨entry, hget, htimeless⟩ := Option.map_eq_some_iff.1 hentries
    exact ⟨_, .present hget, .ok ⟨Entry.alike_info rfl htimeless, hA.toAgreeBelow⟩⟩
  | missing h =>
    rw [← hA.missing hk]
    exact ⟨_, .missing ((hA.get?_eq_none_iff hk).2 h), .error hA.toAgreeBelow⟩

theorem list {σ : Type} (hk : Key.within base k = true) {r'}
    (h : ListOutcome (σ := σ) d' k path r') :
    ∃ r, ListOutcome (σ := σ) d k path r ∧
      EndSame (fun l l' e e' => List.Forall₂ FileInfo.Alike l l' ∧ AgreeBelow base ps e e')
        (AgreeBelow base ps) r r' := by
  cases h with
  | file h => exact ⟨_, .file ((hA.isFile (.inr hk)).2 h), .error hA.toAgreeBelow⟩
  | directory h =>
    refine ⟨_, .directory ((hA.isDirectory hk).2 h), .ok ⟨?_, hA.toAgreeBelow⟩⟩
    rw [hA.children hk]
    exact infos_alike fun a _ => hA.entries _ (Key.within_trans hk (Key.within_append k [a]))
  | missing h =>
    rw [← hA.missing hk]
    exact ⟨_, .missing ((hA.get?_eq_none_iff hk).2 h), .error hA.toAgreeBelow⟩

end

end Agreement

/-! ## Calls through a view of both stores -/

/-- The handle of a pair as the view gives it out in the other session. -/
def Pair.viewed' (m : Nat) (x : Pair) : File :=
  .renamed x.name (.memory m x.id' x.inner)

/-- The answers of a view in two sessions are alike, and the handles in them make up pairs. -/
structure ToldTwice (m : Nat) (new : List Pair) (a a' : Answer File) : Prop where
  alike : a.Alike a'
  files : a.files = new.map (Pair.viewed m)
  files' : a'.files = new.map (Pair.viewed' m)

namespace Agreement

section

variable (hA : Agreement base ps d d') {b : String} {c : Call}
include hA

/-- A call through a view on both stores ends the same, as far as what is below the base of the
view goes. -/
theorem call_below (m : Nat) (hb : Key.within base (Key.resolve b) = true) (hc : c.Descends)
    (hdraws : c.draws = false) {r'}
    (h : CallOutcome d' (c.translate fun path => Path.join [b, path]) r') :
    ∃ r, CallOutcome d (c.translate fun path => Path.join [b, path]) r ∧
      EndSame (fun a a' e e' => ∃ new, ToldTwice m new (viewed m b c a) (viewed m b c a') ∧
          AgreeBelow base (ps ++ new) e e')
        (AgreeBelow base ps) r r' := by
  have hkey := fun {path} (hpath : Path.climbs path = false) => within_resolve_join hb hpath
  have hdone : ∀ {e e'}, AgreeBelow base ps e e' → ∃ new, ToldTwice m new .done .done ∧
      AgreeBelow base (ps ++ new) e e' := by
    intro e e' hbelow
    exact ⟨[], ⟨.done, rfl, rfl⟩, by rwa [List.append_nil]⟩
  have hopened : ∀ (path full : String) (id id' : Nat) {e e'},
      (∀ name inner, AgreeBelow base (ps ++ [⟨id, id', name, inner⟩]) e e') →
      ∃ new, ToldTwice m new (.file (.renamed path (.memory m id full)))
          (.file (.renamed path (.memory m id' full))) ∧
        AgreeBelow base (ps ++ new) e e' := by
    intro path full id id' e e' hbelow
    exact ⟨[⟨id, id', path, full⟩], ⟨.file rfl, rfl, rfl⟩, hbelow path full⟩
  cases c with
  | createTemp directory lead => cases hdraws
  | create path =>
    cases h with
    | create h =>
      obtain ⟨r, hr, hend⟩ := hA.openFile (hkey hc) h
      exact ⟨_, .create hr, hend.mapResult fun id id' _ _ => hopened path _ id id'⟩
  | openRead path =>
    cases h with
    | openRead h =>
      obtain ⟨r, hr, hend⟩ := hA.openFile (hkey hc) h
      exact ⟨_, .openRead hr, hend.mapResult fun id id' _ _ => hopened path _ id id'⟩
  | openFile path flags perm =>
    cases h with
    | openFile h =>
      obtain ⟨r, hr, hend⟩ := hA.openFile (hkey hc) h
      exact ⟨_, .openFile hr, hend.mapResult fun id id' _ _ => hopened path _ id id'⟩
  | rename path target =>
    cases h with
    | rename h =>
      obtain ⟨r, hr, hend⟩ := hA.rename (hkey hc.1) (hkey hc.2) (Path.isName_resolve _) h
      exact ⟨_, .rename hr, hend.mapResult fun _ _ _ _ => hdone⟩
  | remove path =>
    cases h with
    | remove h =>
      obtain ⟨r, hr, hend⟩ := hA.remove (hkey hc) h
      exact ⟨_, .remove hr, hend.mapResult fun _ _ _ _ => hdone⟩
  | makeDirectories path perm =>
    cases h with
    | makeDirectories h =>
      obtain ⟨r, hr, hend⟩ := hA.directories (hkey hc) h
      exact ⟨_, .makeDirectories hr, hend.mapResult fun _ _ _ _ => hdone⟩
  | stat path =>
    cases h with
    | stat h =>
      obtain ⟨r, hr, hend⟩ := hA.stat (hkey hc) h
      refine ⟨_, .stat hr, hend.mapResult fun i i' e e' hi => ⟨[], ⟨.info ?_, rfl, rfl⟩, ?_⟩⟩
      · exact ⟨rfl, hi.1.size, hi.1.mode, hi.1.dated⟩
      · rw [List.append_nil]
        exact hi.2
  | list path =>
    cases h with
    | list h =>
      obtain ⟨r, hr, hend⟩ := hA.list (hkey hc) h
      refine ⟨_, .list hr, hend.mapResult fun l l' e e' hl => ⟨[], ⟨.listing ?_, rfl, rfl⟩, ?_⟩⟩
      · simp only [List.forall₂_map_left_iff, List.forall₂_map_right_iff]
        refine hl.1.imp fun i i' hi => ⟨?_, hi.size, hi.mode, hi.dated⟩
        exact congrArg (Path.stripLead · _) hi.name
      · rw [List.append_nil]
        exact hl.2

/-- A call through a view on both stores ends the same, and the stores agree again. -/
theorem call (m : Nat) (hb : Key.within base (Key.resolve b) = true) (hc : c.Descends)
    (hdraws : c.draws = false) {r'}
    (h : CallOutcome d' (c.translate fun path => Path.join [b, path]) r') :
    ∃ r, CallOutcome d (c.translate fun path => Path.join [b, path]) r ∧
      EndSame (fun a a' e e' => ∃ new, ToldTwice m new (viewed m b c a) (viewed m b c a') ∧
          Agreement base (ps ++ new) e e')
        (Agreement base ps) r r' := by
  have hwithin := hc.within hb
  obtain ⟨r, hr, hend⟩ := hA.call_below m hb hc hdraws h
  have hsound := hr.sound hA.sound
  have hsound' := h.sound hA.sound'
  have hframe := hr.frame hA.sound hwithin
  have hframe' := h.frame hA.sound' hwithin
  refine ⟨r, hr, ?_⟩
  cases hend with
  | ok hnew =>
    obtain ⟨new, htold, hbelow⟩ := hnew
    exact .ok ⟨new, htold, hA.next hsound hsound' hframe hframe' hbelow⟩
  | error hbelow => exact .error (hA.next hsound hsound' hframe hframe' hbelow)

/-- What twins hand on goes to the same file. -/
theorem committed {id : Nat} {h h' : Handle} (hid : d.store.handles[id]? = some h)
    (hh : h.Twin base h') (c : HandleCall) :
    AgreeBelow base ps (d.committed h c) (d'.committed h' c) := by
  have hcommits := hh.mirrors.commits c
  cases hc : h.commits c with
  | false =>
    rw [Disk.committed_of_not_commits hc, Disk.committed_of_not_commits (hcommits ▸ hc)]
    exact hA.toAgreeBelow
  | true =>
    have ho := Handle.open_of_commits hc
    rw [Disk.committed, Disk.committed, ← hcommits, hc, ← hh.key ho]
    cases hk : h.key with
    | none => exact hA.toAgreeBelow
    | some k =>
      obtain ⟨content, mode, modified, hget⟩ := isFile_of_commits hA.sound hid hc hk
      obtain ⟨modified', hget'⟩ :=
        get?_of_file_congr (hA.entries k (hh.within ho k hk)).symm hget
      have hput := hA.putFile k h.buffer.content mode
      simpa [modeAt_of_get? hA.sound.inStep hget, modeAt_of_get? hA.sound'.inStep hget',
        Entry.mode, ← hh.mirrors.buffer] using hput

/-- A call on a pair of handles ends the same, and the stores agree again. -/
theorem use {x : Pair} (hx : x ∈ ps) (c : HandleCall) :
    EndSame (fun a a' e e' => a = a' ∧ Agreement base ps e e') (Agreement base ps)
      ((Memory.use x.id c).run d) ((Memory.use x.id' c).run d') := by
  obtain ⟨h, h', hid, hid', hh⟩ := hA.paired.related x hx
  obtain ⟨hsame, huse⟩ := hh.use c
  have hcommitted := hA.committed hid hh c
  have hbelow : AgreeBelow base ps ((d.committed h c).setHandle x.id (h.use c).2)
      ((d'.committed h' c).setHandle x.id' (h'.use c).2) :=
    ⟨hcommitted.entries, hcommitted.paired.set hx huse⟩
  have hsound := use_sound hA.sound x.id c
  have hsound' := use_sound hA.sound' x.id' c
  have hframe : Store.Frame base d.store (after (Memory.use x.id c) d).store := by
    refine use_frame c fun g j hg ho hj => ?_
    rw [hid] at hg
    cases hg
    exact hh.within ho j hj
  have hframe' : Store.Frame base d'.store (after (Memory.use x.id' c) d').store := by
    refine use_frame c fun g j hg ho hj => ?_
    rw [hid'] at hg
    cases hg
    have ho' : h.closed = false := hh.mirrors.closed ▸ ho
    exact hh.within ho' j ((hh.key ho').trans hj)
  rw [after_use hid] at hsound hframe
  rw [after_use hid'] at hsound' hframe'
  have hnext := hA.next hsound hsound' hframe hframe' hbelow
  rw [run_use hid, run_use hid', ← hsame]
  cases (h.use c).1 with
  | ok a => exact .ok ⟨rfl, hnext⟩
  | error f => exact .error hnext

end

end Agreement

end

/-! ## What is done outside the key -/

/-- A handle that is open is on no file at or below a key. -/
def Handle.Outside (base : Key) (h : Handle) : Prop :=
  h.closed = false → ∀ k, h.key = some k → Key.within base k = false

/-- New handles aside, the handles that are on no file at or below a key are as they were. -/
def Store.Spares (base : Key) (s s' : Store) : Prop :=
  ∃ (f : Handle → Handle) (new : List Handle), s'.handles = s.handles.map f ++ new ∧
    ∀ h : Handle, h.Outside base → f h = h

section

variable {base k src dst : Key} {d : Disk} {s s' : Store} {path : String} {flags : OpenFlags}
  {perm : Int}

namespace Store.Spares

theorem of_append {l : List Handle} (h : s'.handles = s.handles ++ l) : Spares base s s' :=
  ⟨id, l, by rw [h, List.map_id], fun _ _ => rfl⟩

theorem of_eq (h : s'.handles = s.handles) : Spares base s s' :=
  of_append (l := []) (by rw [h, List.append_nil])

theorem of_map {f : Handle → Handle} (h : s'.handles = s.handles.map f)
    (hf : ∀ g : Handle, g.Outside base → f g = g) : Spares base s s' :=
  ⟨f, [], by rw [h, List.append_nil], hf⟩

theorem length_le (h : Spares base s s') : s.handles.length ≤ s'.handles.length := by
  obtain ⟨f, new, hhandles, -⟩ := h
  rw [hhandles, List.length_append, List.length_map]
  exact Nat.le_add_right _ _

theorem getElem? (h : Spares base s s') {id : Nat} {g : Handle} (hid : s.handles[id]? = some g)
    (hg : g.Outside base) : s'.handles[id]? = some g := by
  obtain ⟨f, new, hhandles, hf⟩ := h
  obtain ⟨hlt, -⟩ := List.getElem?_eq_some_iff.1 hid
  rw [hhandles, List.getElem?_append_left (by simpa using hlt), List.getElem?_map, hid,
    Option.map_some, hf g hg]

end Store.Spares

theorem detach_of_outside {h : Handle} (hk : Key.within base k = true) (hh : h.Outside base) :
    h.detach k = h := by
  refine Handle.detach_eq_self fun ho hkey => ?_
  rw [hh ho k hkey] at hk
  cases hk

theorem follow_of_outside {h : Handle} (hsrc : Key.within base src = true)
    (hh : h.Outside base) : h.follow src dst = h :=
  Handle.follow_eq_self fun ho j hj => not_within_of_within hsrc (hh ho j hj)

theorem DirectoriesOutcome.spares {r} (h : DirectoriesOutcome d k perm r) :
    Store.Spares base d.store (diskOf r).store := by
  cases h with
  | blocked hj hfile => exact .of_eq rfl
  | made hfree => exact .of_eq (by simp)

theorem OpenOutcome.spares {r} (h : OpenOutcome d k path flags perm r) :
    Store.Spares base d.store (diskOf r).store := by
  cases h with
  | emptied h hx ht | kept h hx ht => exact .of_append rfl
  | made h hc hfree =>
    refine .of_append (l := [newHandle k path flags []]) ?_
    simp
  | _ => exact .of_eq rfl

theorem TempOutcome.spares {directory lead : String} {r} (h : TempOutcome d directory lead r) :
    Store.Spares base d.store (diskOf r).store := by
  cases h with
  | blocked hj h => exact .of_eq rfl
  | exhausted hfree hsearch => exact .of_eq (by simp)
  | failed hfree hsearch h | opened hfree hsearch h =>
    have hspares : Store.Spares base _ _ := h.spares
    obtain ⟨f, new, hhandles, hf⟩ := hspares
    exact ⟨f, new, by simpa using hhandles, hf⟩

theorem RenameOutcome.spares {target : String} {r} (hsrc : Key.within base src = true)
    (hdst : Key.within base dst = true) (hs : d.store.Sound) (hnames : ∀ a ∈ dst, Path.IsName a)
    (h : RenameOutcome d src dst path target r) :
    Store.Spares base d.store (diskOf r).store := by
  cases h with
  | fileMoved hne hfile hnot hfree =>
    have hmove := fileMove hs hnames hne hfile hnot hfree
    refine .of_map (f := fun h => (h.detach dst).follow src dst)
      (by simp [hmove.moved.handles]) fun g hg => ?_
    rw [detach_of_outside hdst hg, follow_of_outside hsrc hg]
  | directoryMoved hroot hdir hnot hout hchildren hfree =>
    have hmove := directoryMove hs hnames hroot hdir hnot hout hchildren hfree
    exact .of_map (f := Handle.follow src dst) (by simp [hmove.moved.handles])
      fun g hg => follow_of_outside hsrc hg
  | _ => exact .of_eq rfl

theorem RemoveOutcome.spares {r} (hk : Key.within base k = true) (h : RemoveOutcome d k path r) :
    Store.Spares base d.store (diskOf r).store := by
  cases h with
  | file h => exact .of_map rfl fun g hg => detach_of_outside hk hg
  | _ => exact .of_eq rfl

/-- A call whose paths lead to a key or below it spares the handles that are on other files. -/
theorem CallOutcome.spares {c : Call} {r} (hs : d.store.Sound) (hc : c.Within base)
    (h : CallOutcome d c r) : Store.Spares base d.store (diskOf r).store := by
  cases h with
  | create h | openRead h | openFile h => simpa using h.spares
  | createTemp h => simpa using h.spares
  | rename h => simpa using h.spares hc.1 hc.2 hs (Path.isName_resolve _)
  | remove h => simpa using h.spares hc
  | makeDirectories h => simpa using h.spares
  | stat h | list h => cases h <;> exact .of_eq rfl

/-- A call that gives out a handle has added one. -/
theorem CallOutcome.length_lt {c : Call} {a : Answer (Nat × String)} {e : Disk}
    (h : CallOutcome d c (.ok a e)) (ha : a.files ≠ []) :
    d.store.handles.length < e.store.handles.length := by
  have hopen : ∀ {d : Disk} {k path flags perm} {id : Nat} {e : Disk},
      OpenOutcome d k path flags perm (.ok id e) →
        d.store.handles.length < e.store.handles.length := by
    intro d k path flags perm id e h
    cases h <;> simp
  generalize hr : (EStateM.Result.ok a e : EStateM.Result Fault Disk _) = r at h
  cases h with
  | @create path r h | @openRead path r h | @openFile path flags perm r h =>
    cases r <;> cases hr
    exact hopen h
  | @createTemp directory lead r h =>
    cases r <;> cases hr
    cases h with
    | opened hfree hsearch h => simpa using hopen h
  | @rename _ _ r h | @remove _ r h | @makeDirectories _ _ r h | @stat _ r h | @list _ r h =>
    cases r <;> cases hr
    exact absurd rfl ha

end

/-- What is done to the one store outside the key changes nothing below it. -/
theorem Agreement.of_frame {base other : Key} {ps : List Pair} {d d' e : Disk}
    (hA : Agreement base ps d d') (hout : Key.within base other = false)
    (hout' : Key.within other base = false) (hs : e.store.Sound)
    (hf : Store.Frame other d.store e.store)
    (hkeep : ∀ x ∈ ps, e.store.handles[x.id]? = d.store.handles[x.id]?) :
    Agreement base ps e d' where
  sound := hs
  sound' := hA.sound'
  entries k hk := by
    rw [← hA.entries k hk]
    have hother := Key.not_within_of_apart hout hout' hk
    cases hget : d.store.tree.get? k with
    | some entry => rw [hf.kept k entry hother hget]
    | none =>
      -- nothing new is there, since nothing below the key leads to the other
      cases hnew : e.store.tree.get? k with
      | none => rfl
      | some entry =>
        have hlead := (hf.made k hother hget (by rw [hnew]; rfl)).1
        rw [Key.within_iff_isPrefix.2 ((Key.within_iff_isPrefix.1 hk).trans hlead)] at hout
        cases hout
  above j hj := by
    rw [← hA.above j hj]
    apply hf.isFile
    rw [← Bool.not_eq_true, Key.within_iff_isPrefix]
    intro hin
    rw [Key.within_iff_isPrefix.2 (hin.trans hj)] at hout'
    cases hout'
  paired := by
    refine ⟨fun x hx => ?_, hA.paired.nodup, hA.paired.nodup'⟩
    rw [hkeep x hx]
    exact hA.paired.related x hx

end Memory

end RootedFS
