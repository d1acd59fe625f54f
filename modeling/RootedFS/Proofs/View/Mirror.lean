import RootedFS.Proofs.Memory.Pairs
import RootedFS.Proofs.Memory.Search
import RootedFS.Proofs.Memory.Sound
import RootedFS.Proofs.View.Subtree

/-!
# Stores that mirror one another

A store mirrors what is at and below a directory of another when the trees are the same there and
handles that were opened in pairs are alike. A call on the one and the same call below the directory
of the other end alike, and the stores mirror one another again.

## Main definitions

* `Fault.Alike`: faults of one class with the same error number
* `Mirror`: one store mirrors what is at and below a key of another
* `EndAlike`: two runs end alike

## Main results

* `Mirror.openFile`, `Mirror.createTemp`, `Mirror.rename`, ...: the calls on both stores end alike
* `Mirror.use`: so do calls on a pair of handles
-/

namespace RootedFS

open Memory Tree

/-- The error number of a fault, if it has one. -/
def Fault.number : Fault → Option Nat
  | refused why _ _ => some why.number
  | _ => none

/-- Two faults are of one class and have the same error number; the paths that they name are left
aside. -/
def Fault.Alike (f f' : Fault) : Prop :=
  f.kind = f'.kind ∧ f.number = f'.number

/-- What two calls come to is alike: answers that are related, or faults that are alike. -/
inductive Alike {α β : Type} (R : α → β → Prop) : Except Fault α → Except Fault β → Prop where
  | ok {a : α} {b : β} (h : R a b) : Alike R (.ok a) (.ok b)
  | error {f f' : Fault} (h : f.Alike f') : Alike R (.error f) (.error f')

theorem alike_self {α : Type} (r : Except Fault α) : Alike Eq r r := by
  cases r with
  | ok a => exact .ok rfl
  | error f => exact .error ⟨rfl, rfl⟩

/-- The metadata of two entries is the same but for the times of their last changes, which both have
or neither. -/
structure FileInfo.Alike {σ : Type} (i i' : FileInfo σ) : Prop where
  name : i.name = i'.name
  size : i.size = i'.size
  mode : i.mode = i'.mode
  dated : i.modified.isSome = i'.modified.isSome

namespace Key

variable {base j : Key}

theorem name_append (hk : j ≠ []) : name (base ++ j) = name j := by
  rw [name, name, List.getLast?_append_of_ne_nil base hk]

end Key

theorem Tree.rebase_append_append {base j src dst : Key} :
    rebase (base ++ src) (base ++ dst) (base ++ j) = base ++ rebase src dst j := by
  rw [rebase, rebase, Key.below?_append_append]
  cases Key.below? src j with
  | none => rfl
  | some rest => exact List.append_assoc base dst rest

theorem Memory.Entry.alike_info {σ : Type} {e e' : Entry} {k k' : Key} (hname : k.name = k'.name)
    (h : e.timeless = e'.timeless) : (e.info k : FileInfo σ).Alike (e'.info k') := by
  have hdated (e : Entry) (k : Key) : (e.info k : FileInfo σ).modified.isSome = true := rfl
  have hboth := (hdated e k).trans (hdated e' k').symm
  cases e <;> cases e' <;> cases h <;> exact ⟨hname, rfl, rfl, hboth⟩

/-- Entries that are the same but for ticks have the same metadata but for times. -/
theorem Memory.infos_alike {σ : Type} {t t' : Tree Entry} {k k' : Key} {names : List String}
    (h : ∀ a ∈ names,
      (t.get? (k ++ [a])).map Entry.timeless = (t'.get? (k' ++ [a])).map Entry.timeless) :
    List.Forall₂ (FileInfo.Alike (σ := σ)) (infos t k names) (infos t' k' names) := by
  induction names with
  | nil => exact .nil
  | cons a names ih =>
    have hrest := ih fun b hb => h b (List.mem_cons_of_mem _ hb)
    have ha := h a List.mem_cons_self
    rw [infos, infos, List.filterMap_cons, List.filterMap_cons]
    cases he' : t'.get? (k' ++ [a]) with
    | none =>
      rw [(get?_eq_none_congr ha).2 he']
      exact hrest
    | some e' =>
      rw [he'] at ha
      obtain ⟨e, he, htimeless⟩ := Option.map_eq_some_iff.1 ha
      rw [he]
      exact .cons (Entry.alike_info (by simp [Key.name]) htimeless) hrest

namespace Tree.Subtree

variable {σ : Type} {base k : Key} {p q : Nat} {t t' : Tree Entry}

/-- The metadata of an entry below the key is that of the entry of the other tree. -/
theorem info (h : Subtree base p q t t') (hk : k ≠ []) {e' : Entry} (he' : t'.get? k = some e') :
    ∃ e, t.get? (base ++ k) = some e ∧
      (e.info (base ++ k) : FileInfo σ).Alike (e'.info k) := by
  have hbelow := h.below k hk
  rw [he'] at hbelow
  obtain ⟨e, he, htimeless⟩ := Option.map_eq_some_iff.1 hbelow
  exact ⟨e, he, Entry.alike_info (Key.name_append hk) htimeless⟩

/-- A directory below the key has the metadata that the directory of the other tree has. -/
theorem infos (h : Subtree base p q t t') (k : Key) (names : List String) :
    List.Forall₂ (FileInfo.Alike (σ := σ)) (infos t (base ++ k) names) (infos t' k names) := by
  apply infos_alike
  intro a _
  rw [List.append_assoc]
  exact h.below (k ++ [a]) (by simp)

end Tree.Subtree

namespace Memory

/-! ## Handles that are alike -/

/-- A handle is like another, and on the file below a key that the other is on. -/
structure Handle.Mirrors (base : Key) (h h' : Handle) : Prop where
  flags : h.flags = h'.flags
  buffer : h.buffer = h'.buffer
  dirty : h.dirty = h'.dirty
  closed : h.closed = h'.closed
  /-- While they are open, the one is on the file below the key that the other is on. -/
  key : h.closed = false → h.key = h'.key.map (base ++ ·)

namespace Handle.Mirrors

variable {base k src dst : Key} {h h' : Handle}

theorem detach (hm : h.Mirrors base h') : (h.detach (base ++ k)).Mirrors base (h'.detach k) where
  flags := by simp [hm.flags]
  buffer := by simp [hm.buffer]
  dirty := by simp [hm.dirty]
  closed := by simp [hm.closed]
  key ho := by
    rw [Handle.detach_closed] at ho
    rw [Handle.detach_key ho, Handle.detach_key (hm.closed ▸ ho), hm.key ho]
    cases h'.key with
    | none => rfl
    | some j => by_cases hj : j = k <;> simp [hj, Option.filter]

theorem follow (hm : h.Mirrors base h') :
    (h.follow (base ++ src) (base ++ dst)).Mirrors base (h'.follow src dst) where
  flags := by simp [hm.flags]
  buffer := by simp [hm.buffer]
  dirty := by simp [hm.dirty]
  closed := by simp [hm.closed]
  key ho := by
    rw [Handle.follow_closed] at ho
    rw [Handle.follow_key ho, Handle.follow_key (hm.closed ▸ ho), hm.key ho]
    cases h'.key with
    | none => rfl
    | some j => exact congrArg some rebase_append_append

theorem newHandle (k : Key) (name name' : String) (flags : OpenFlags) (content : Bytes) :
    (newHandle (base ++ k) name flags content).Mirrors base
      (Memory.newHandle k name' flags content) where
  flags := rfl
  buffer := rfl
  dirty := rfl
  closed := rfl
  key _ := rfl

end Handle.Mirrors

/-- The key and the name of an open handle play no part in calls on it. -/
theorem Handle.useOpen_with (h : Handle) (key : Option Key) (name : String) (c : HandleCall) :
    ({ h with key, name } : Handle).useOpen c =
      ((h.useOpen c).1, { (h.useOpen c).2 with key, name }) := by
  have hrespond : ∀ {α : Type} (g : Handle) (answer : α → Answer (Nat × String))
      (r : Except Fault (α × Buffer)), ({ g with key, name } : Handle).respond answer r =
        ((g.respond answer r).1, { (g.respond answer r).2 with key, name }) := by
    intro α g answer r
    cases r <;> rfl
  cases c with
  | read size =>
    rw [useOpen, useOpen]
    split
    · exact hrespond h _ _
    · rfl
  | write data =>
    rw [useOpen, useOpen]
    split
    · exact hrespond h.written _ _
    · rfl
  | seek offset origin => exact hrespond h _ _
  | truncate size =>
    rw [useOpen, useOpen]
    split
    · exact hrespond { h with dirty := true } _ _
    · rfl
  | tell | flush | close => rfl

namespace Handle.Mirrors

variable {base : Key} {h h' : Handle}

theorem eq_with (hm : h.Mirrors base h') : h = { h' with key := h.key, name := h.name } := by
  cases h
  cases h'
  obtain ⟨rfl, rfl, rfl, rfl, -⟩ := hm
  rfl

theorem commits (hm : h.Mirrors base h') (c : HandleCall) : h.commits c = h'.commits c := by
  cases c <;> simp [Handle.commits, hm.closed, hm.dirty]

/-- Calls on handles that are alike come to the same, and leave the handles alike. -/
theorem use (hm : h.Mirrors base h') (c : HandleCall) :
    Alike Eq (h.use c).1 (h'.use c).1 ∧ (h.use c).2.Mirrors base (h'.use c).2 := by
  cases ho : h.closed with
  | true =>
    have ho' : h'.closed = true := hm.closed ▸ ho
    refine ⟨?_, by rwa [h.use_of_closed c ho, h'.use_of_closed c ho']⟩
    by_cases hc : c = .close
    · simpa [Handle.use, ho, ho', hc] using alike_self _
    · simpa [Handle.use, ho, ho', hc] using .error ⟨rfl, rfl⟩
  | false =>
    -- both are open, and but for key and name the one is the other
    have ho' : h'.closed = false := hm.closed ▸ ho
    have hframe := h'.use_frame c
    have huse : h.useOpen c =
        ((h'.useOpen c).1, { (h'.useOpen c).2 with key := h.key, name := h.name }) := by
      rw [← Handle.useOpen_with, ← hm.eq_with]
    rw [h'.use_of_open c ho'] at hframe ⊢
    rw [h.use_of_open c ho, huse]
    refine ⟨alike_self _, rfl, rfl, rfl, rfl, ?_⟩
    intro _
    rw [hframe.1]
    exact hm.key ho

end Handle.Mirrors

/-! ## Stores that mirror one another -/

/-- What is at and below a key of one store is another store, and the handles of each pair are
alike. -/
structure Mirror (base : Key) (p q : Nat) (ps : List Pair) (d d' : Disk) : Prop where
  sound : d.store.Sound
  sound' : d'.store.Sound
  supply : d.supply = d'.supply
  subtree : Subtree base p q d.store.tree d'.store.tree
  handles : ∀ x ∈ ps, ∃ h h' : Handle, d.store.handles[x.id]? = some h ∧
    d'.store.handles[x.id']? = some h' ∧ h.Mirrors base h'
  nodup : (ps.map Pair.id).Nodup
  nodup' : (ps.map Pair.id').Nodup

/-- Two runs end alike: both with answers that are related, or both with faults that are alike. -/
inductive EndAlike {α α' : Type} (R : α → α' → Disk → Disk → Prop) (E : Disk → Disk → Prop) :
    EStateM.Result Fault Disk α → EStateM.Result Fault Disk α' → Prop where
  | ok {a : α} {a' : α'} {d d' : Disk} (h : R a a' d d') : EndAlike R E (.ok a d) (.ok a' d')
  | error {f f' : Fault} {d d' : Disk} (hf : f.Alike f') (h : E d d') :
    EndAlike R E (.error f d) (.error f' d')

theorem alike_onPath (why : Refusal) (path path' : String) :
    (Fault.onPath why path).Alike (Fault.onPath why path') :=
  ⟨rfl, rfl⟩

/-- The candidates of directories below one another are below one another. -/
theorem resolve_candidate_append {base : Key} {directory directory' lead : String}
    (hdir : Key.resolve directory = base ++ Key.resolve directory') (hlead : '/' ∉ lead.toList)
    (n : Int) : Key.resolve (candidate directory lead n) =
      base ++ Key.resolve (candidate directory' lead n) := by
  rw [resolve_candidate hlead, resolve_candidate hlead, hdir, List.append_assoc]

namespace Mirror

variable {base k src dst : Key} {p q : Nat} {ps : List Pair} {d d' e e' : Disk} {perm : Int}

/-- The stores mirror one another when the handles of each pair are alike. -/
theorem of_paired (hs : e.store.Sound) (hs' : e'.store.Sound)
    (hsupply : e.supply = e'.supply) (htree : Subtree base p q e.store.tree e'.store.tree)
    (hpaired : Paired (Handle.Mirrors base) ps e.store.handles e'.store.handles) :
    Mirror base p q ps e e' :=
  ⟨hs, hs', hsupply, htree, hpaired.related, hpaired.nodup, hpaired.nodup'⟩

section

variable (hM : Mirror base p q ps d d')
include hM

theorem isName (hk : ∀ a ∈ k, Path.IsName a) : ∀ a ∈ base ++ k, Path.IsName a := by
  obtain ⟨now, hself⟩ := hM.subtree.self
  have hsome : (d.store.tree.get? base).isSome = true := by
    rw [hself]
    rfl
  exact Path.isName_append (hM.sound.tree.names base hsome) hk

/-- The handles of each pair are alike. -/
theorem paired : Paired (Handle.Mirrors base) ps d.store.handles d'.store.handles :=
  ⟨hM.handles, hM.nodup, hM.nodup'⟩

/-! ### Changes that are the same in both stores -/

/-- The entries change in the same way, and every handle does. -/
theorem of_map (f f' : Handle → Handle) (hs : e.store.Sound) (hs' : e'.store.Sound)
    (hsupply : e.supply = e'.supply) (htree : Subtree base p q e.store.tree e'.store.tree)
    (hhandles : e.store.handles = d.store.handles.map f)
    (hhandles' : e'.store.handles = d'.store.handles.map f')
    (hf : ∀ h h', Handle.Mirrors base h h' → (f h).Mirrors base (f' h')) :
    Mirror base p q ps e e' := by
  refine .of_paired hs hs' hsupply htree ?_
  rw [hhandles, hhandles']
  exact hM.paired.map hf

/-- The entries change in the same way. -/
theorem of_subtree (hs : e.store.Sound) (hs' : e'.store.Sound) (hsupply : e.supply = e'.supply)
    (htree : Subtree base p q e.store.tree e'.store.tree)
    (hhandles : e.store.handles = d.store.handles)
    (hhandles' : e'.store.handles = d'.store.handles) : Mirror base p q ps e e' :=
  hM.of_map id id hs hs' hsupply htree (by simpa using hhandles)
    (by simpa using hhandles') fun _ _ hm => hm

theorem withSupply (s : Supply) : Mirror base p q ps (d.withSupply s) (d'.withSupply s) :=
  hM.of_subtree hM.sound hM.sound' rfl hM.subtree rfl rfl

theorem addDirectories (hk : ∀ a ∈ k, Path.IsName a)
    (hfree : ∀ j ∈ k.steps, ¬d'.store.tree.IsFile j) (perm : Int) :
    Mirror base p q ps (d.addDirectories perm (base ++ k).steps)
      (d'.addDirectories perm k.steps) := by
  have hfree' : ∀ j ∈ (base ++ k).steps, ¬d.store.tree.IsFile j := by
    intro j
    exact hM.subtree.not_isFile_of_mem_steps hM.sound.tree hfree
  exact hM.of_subtree (Disk.sound_addDirectories hM.sound (hM.isName hk) hfree' perm)
    (Disk.sound_addDirectories hM.sound' hk hfree perm)
    (by rw [Disk.addDirectories_supply, Disk.addDirectories_supply, hM.supply])
    (hM.subtree.addDirectories hM.sound.inStep hM.sound'.inStep perm k)
    (Disk.addDirectories_handles perm) (Disk.addDirectories_handles perm)

/-- The entries change in the same way, and a handle is opened in both. -/
theorem of_opened {h h' : Handle} (hs : e.store.Sound) (hs' : e'.store.Sound)
    (hsupply : e.supply = e'.supply) (htree : Subtree base p q e.store.tree e'.store.tree)
    (hhandles : e.store.handles = d.store.handles ++ [h])
    (hhandles' : e'.store.handles = d'.store.handles ++ [h']) (hm : h.Mirrors base h')
    (name inner : String) :
    Mirror base p q
      (ps ++ [⟨d.store.handles.length, d'.store.handles.length, name, inner⟩]) e e' := by
  refine .of_paired hs hs' hsupply htree ?_
  rw [hhandles, hhandles']
  exact hM.paired.append hm name inner

/-- Why nothing is found is the same. -/
theorem missing (hk : k ≠ []) : d.store.missing (base ++ k) = d'.store.missing k := by
  have hany : (base ++ k).parent.steps.any d.store.hasFile =
      k.parent.steps.any d'.store.hasFile := by
    rw [Bool.eq_iff_iff, List.any_eq_true, List.any_eq_true, Key.parent_append hk]
    simp only [← hM.sound.inStep.isFile_tree, ← hM.sound'.inStep.isFile_tree]
    constructor
    · rintro ⟨j, hj, hfile⟩
      by_contra hnone
      exact hM.subtree.not_isFile_of_mem_steps hM.sound.tree
        (fun j hj hf => hnone ⟨j, hj, hf⟩) hj hfile
    · rintro ⟨j, hj, hfile⟩
      exact ⟨_, Key.append_mem_steps hj, hM.subtree.isFile.2 hfile⟩
  rw [Store.missing, Store.missing, hany]

/-! ### Calls on both stores -/

/-- Making directories ends alike. -/
theorem directories (hk : ∀ a ∈ k, Path.IsName a) {r'} (h : DirectoriesOutcome d' k perm r') :
    ∃ r, DirectoriesOutcome d (base ++ k) perm r ∧
      EndAlike (fun _ _ => Mirror base p q ps) (Mirror base p q ps) r r' := by
  cases h with
  | blocked hj hfile =>
    exact ⟨_, .blocked (Key.append_mem_steps hj) (hM.subtree.isFile.2 hfile),
      .error (alike_onPath ..) hM⟩
  | made hfree =>
    exact ⟨_, .made fun j => hM.subtree.not_isFile_of_mem_steps hM.sound.tree hfree,
      .ok (hM.addDirectories hk hfree perm)⟩

/-- Opening a file below the top ends alike. -/
theorem openFile (hk : ∀ a ∈ k, Path.IsName a) (hne : k ≠ []) (path : String) {path' : String}
    {flags : OpenFlags} {r'} (h : OpenOutcome d' k path' flags perm r') :
    ∃ r, OpenOutcome d (base ++ k) path flags perm r ∧
      EndAlike (fun id id' e e' => ∀ name inner,
          Mirror base p q (ps ++ [⟨id, id', name, inner⟩]) e e')
        (Mirror base p q ps) r r' := by
  have hsound' := h.sound hM.sound' hk
  have hsound := fun {r} (h : OpenOutcome d (base ++ k) path flags perm r) =>
    h.sound hM.sound (hM.isName hk)
  cases h with
  | directory h => exact ⟨_, .directory (hM.subtree.isDirectory.2 h), .error (alike_onPath ..) hM⟩
  | present h hx => exact ⟨_, .present (hM.subtree.isFile.2 h) hx, .error (alike_onPath ..) hM⟩
  | @emptied content mode modified h hx ht =>
    obtain ⟨modified', h'⟩ := hM.subtree.get?_of_file h
    have hopen : OpenOutcome d (base ++ k) path flags perm _ := .emptied h' hx ht
    exact ⟨_, hopen, .ok fun name inner => hM.of_opened (hsound hopen) hsound' hM.supply
      (hM.subtree.putFile hne [] mode) rfl rfl (.newHandle k path path' flags []) name inner⟩
  | @kept content mode modified h hx ht =>
    obtain ⟨modified', h'⟩ := hM.subtree.get?_of_file h
    have hopen : OpenOutcome d (base ++ k) path flags perm _ := .kept h' hx ht
    exact ⟨_, hopen, .ok fun name inner => hM.of_opened (hsound hopen) hsound' hM.supply
      hM.subtree rfl rfl (.newHandle k path path' flags content) name inner⟩
  | missing h hc =>
    refine ⟨_, .missing (hM.subtree.get?_eq_none_iff.2 h) hc, .error ?_ hM⟩
    rw [hM.missing hne]
    exact alike_onPath ..
  | blocked h hc hj hfile =>
    refine ⟨_, .blocked (hM.subtree.get?_eq_none_iff.2 h) hc ?_ (hM.subtree.isFile.2 hfile),
      .error (alike_onPath ..) hM⟩
    rw [Key.parent_append hne]
    exact Key.append_mem_steps hj
  | made h hc hfree =>
    have hopen : OpenOutcome d (base ++ k) path flags perm _ :=
      .made (hM.subtree.get?_eq_none_iff.2 h) hc (by
        rw [Key.parent_append hne]
        exact fun j => hM.subtree.not_isFile_of_mem_steps hM.sound.tree hfree)
    have htree := (hM.subtree.addDirectories_parent hM.sound.inStep hM.sound'.inStep defaultPerm
      hne).putFile hne [] (Mode.regular + Mode.permissions perm)
    refine ⟨_, hopen, .ok fun name inner => hM.of_opened (hsound hopen) hsound' ?_ htree
      ?_ ?_ (.newHandle k path path' flags []) name inner⟩
    · simp [hM.supply]
    · simp
    · simp

/-- The same number is found free. -/
theorem searchFrom_eq {directory directory' lead : String} {n : Int} {s : Supply}
    (hdir : Key.resolve directory = base ++ Key.resolve directory') (hlead : '/' ∉ lead.toList)
    (h : searchFrom d' directory' lead = (some n, s)) :
    searchFrom d directory lead = (some n, s) := by
  have htaken : taken d.store directory lead = taken d'.store directory' lead := by
    funext i
    rw [Bool.eq_iff_iff, taken, taken, ← hM.sound.inStep.isFile_tree,
      ← hM.sound'.inStep.isFile_tree, resolve_candidate_append hdir hlead, hM.subtree.isFile]
  -- the one store has more entries and makes more attempts, but some attempt succeeds
  obtain ⟨m, s₁, hm⟩ := exists_searchFrom d directory hlead
  rw [hm]
  rw [searchFrom, htaken, hM.supply] at hm
  obtain ⟨rfl, rfl⟩ := search_unique hm h
  rfl

/-- Creating a temporary file ends alike, with the same number. -/
theorem createTemp {directory directory' lead : String} {r'}
    (hdir : Key.resolve directory = base ++ Key.resolve directory') (hlead : '/' ∉ lead.toList)
    (h : TempOutcome d' directory' lead r') :
    ∃ r, TempOutcome d directory lead r ∧
      EndAlike (fun a a' e e' => ∃ n, a.2 = candidate directory lead n ∧
          a'.2 = candidate directory' lead n ∧
          ∀ name inner, Mirror base p q (ps ++ [⟨a.1, a'.1, name, inner⟩]) e e')
        (Mirror base p q ps) r r' := by
  have hcandidate : ∀ n, Key.resolve (candidate directory' lead n) ≠ [] := by
    intro n
    rw [resolve_candidate hlead]
    simp
  have hopen : (∀ j ∈ (Key.resolve directory').steps, ¬d'.store.tree.IsFile j) → ∀ n s r',
      OpenOutcome ((d'.addDirectories defaultPerm (Key.resolve directory').steps).withSupply s)
        (Key.resolve (candidate directory' lead n)) (candidate directory' lead n) .fresh tempPerm
        r' →
      ∃ r, OpenOutcome ((d.addDirectories defaultPerm (Key.resolve directory).steps).withSupply s)
          (Key.resolve (candidate directory lead n)) (candidate directory lead n) .fresh tempPerm
          r ∧
        EndAlike (fun id id' e e' => ∀ name inner,
            Mirror base p q (ps ++ [⟨id, id', name, inner⟩]) e e') (Mirror base p q ps) r r' := by
    intro hfree n s r' h
    have hM' := (hM.addDirectories (Path.isName_resolve directory') hfree defaultPerm).withSupply s
    rw [hdir, resolve_candidate_append hdir hlead]
    exact hM'.openFile (Path.isName_resolve _) (hcandidate n) _ h
  have hfree' : (∀ j ∈ (Key.resolve directory').steps, ¬d'.store.tree.IsFile j) →
      ∀ j ∈ (Key.resolve directory).steps, ¬d.store.tree.IsFile j := by
    intro hfree j
    rw [hdir]
    exact hM.subtree.not_isFile_of_mem_steps hM.sound.tree hfree
  cases h with
  | @blocked j hj h =>
    have hj' : base ++ j ∈ (Key.resolve directory).steps := hdir ▸ Key.append_mem_steps hj
    exact ⟨_, .blocked hj' (hM.subtree.isFile.2 h), .error (alike_onPath ..) hM⟩
  | exhausted hfree hsearch =>
    obtain ⟨n, s, hfound⟩ := exists_searchFrom d' directory' hlead
    rw [hfound] at hsearch
    cases hsearch
  | failed hfree hsearch h =>
    obtain ⟨r, hr, hend⟩ := hopen hfree _ _ _ h
    cases hend with
    | error hf hM' => exact ⟨_, .failed (hfree' hfree) (hM.searchFrom_eq hdir hlead hsearch) hr,
        .error hf hM'⟩
  | @opened n s id e hfree hsearch h =>
    obtain ⟨r, hr, hend⟩ := hopen hfree _ _ _ h
    cases hend with
    | ok hM' => exact ⟨_, .opened (hfree' hfree) (hM.searchFrom_eq hdir hlead hsearch) hr,
        .ok ⟨n, rfl, rfl, hM'⟩⟩

/-- A file is moved in both, with the handles on it. -/
theorem movedFile (hmove : FileMove d (base ++ src) (base ++ dst)) (hmove' : FileMove d' src dst) :
    Mirror base p q ps
      (((d.mapHandles (Handle.detach (base ++ dst))).mapStore
        (Store.movedFile (base ++ src) (base ++ dst))).mapHandles
          (Handle.follow (base ++ src) (base ++ dst)))
      (((d'.mapHandles (Handle.detach dst)).mapStore (Store.movedFile src dst)).mapHandles
        (Handle.follow src dst)) := by
  have hmoved := hmove.moved
  have hmoved' := hmove'.moved
  have htree : Subtree base p q (d.mapHandles (Handle.detach (base ++ dst))).store.tree
      (d'.mapHandles (Handle.detach dst)).store.tree := hM.subtree
  have hmovedTree := htree.moved hmove'.movable.src_ne hmove'.movable.dst_ne hmoved hmoved'
  refine hM.of_map (fun h => (h.detach (base ++ dst)).follow (base ++ src) (base ++ dst))
    (fun h => (h.detach dst).follow src dst)
    hmove.sound_after hmove'.sound_after hM.supply hmovedTree ?_ ?_ fun h h' hh => hh.detach.follow
  · simp [hmoved.handles]
  · simp [hmoved'.handles]

/-- A directory is moved in both, with what is below it and the handles there. -/
theorem movedAll (hmove : DirectoryMove d (base ++ src) (base ++ dst))
    (hmove' : DirectoryMove d' src dst) :
    Mirror base p q ps
      ((d.mapStore (Store.movedAll (base ++ src) (base ++ dst))).mapHandles
        (Handle.follow (base ++ src) (base ++ dst)))
      ((d'.mapStore (Store.movedAll src dst)).mapHandles (Handle.follow src dst)) := by
  have hmoved := hmove.moved
  have hmoved' := hmove'.moved
  have htree := hM.subtree.moved hmove'.movable.src_ne hmove'.movable.dst_ne hmoved hmoved'
  refine hM.of_map (Handle.follow (base ++ src) (base ++ dst)) (Handle.follow src dst)
    hmove.sound_after hmove'.sound_after hM.supply htree ?_ ?_ fun h h' hh => hh.follow
  · simp [hmoved.handles]
  · simp [hmoved'.handles]

/-- Renaming below the top ends alike. -/
theorem rename (hsrc : src ≠ []) (hdst : dst ≠ []) (hnames : ∀ a ∈ dst, Path.IsName a)
    (path target : String) {path' target' : String} {r'}
    (h : RenameOutcome d' src dst path' target' r') :
    ∃ r, RenameOutcome d (base ++ src) (base ++ dst) path target r ∧
      EndAlike (fun _ _ => Mirror base p q ps) (Mirror base p q ps) r r' := by
  have hfree : (∀ j ∈ dst.parent.steps, ¬d'.store.tree.IsFile j) →
      ∀ j ∈ (base ++ dst).parent.steps, ¬d.store.tree.IsFile j := by
    intro hfree j
    rw [Key.parent_append hdst]
    exact hM.subtree.not_isFile_of_mem_steps hM.sound.tree hfree
  have hblocked : ∀ {j}, j ∈ dst.parent.steps → base ++ j ∈ (base ++ dst).parent.steps := by
    intro j hj
    rw [Key.parent_append hdst]
    exact Key.append_mem_steps hj
  have hne : src ≠ dst → base ++ src ≠ base ++ dst := mt List.append_cancel_left
  have hroot : base ++ src ≠ [] := by simp [hsrc]
  have hchildren := hM.subtree.children hM.sound.inStep hM.sound'.inStep dst
  have hfile : ∀ {k}, d'.store.tree.IsFile k → d.store.tree.IsFile (base ++ k) :=
    hM.subtree.isFile.2
  have hdir : ∀ {k}, d'.store.tree.IsDirectory k → d.store.tree.IsDirectory (base ++ k) :=
    hM.subtree.isDirectory.2
  have hnofile : ∀ {k}, ¬d'.store.tree.IsFile k → ¬d.store.tree.IsFile (base ++ k) :=
    mt hM.subtree.isFile.1
  have hnodir : ∀ {k}, ¬d'.store.tree.IsDirectory k → ¬d.store.tree.IsDirectory (base ++ k) :=
    mt hM.subtree.isDirectory.1
  have hwithin : ∀ {b}, Key.within src dst = b → Key.within (base ++ src) (base ++ dst) = b :=
    fun hb => by rw [Key.within_append_append, hb]
  cases h with
  | same h => exact ⟨_, .same (by rw [h]), .ok hM⟩
  | missing hsd h =>
    refine ⟨_, .missing (hne hsd) (hM.subtree.get?_eq_none_iff.2 h), .error ?_ hM⟩
    rw [hM.missing hsrc]
    exact alike_onPath ..
  | ontoDirectory hf hd =>
    exact ⟨_, .ontoDirectory (hfile hf) (hdir hd), .error (alike_onPath ..) hM⟩
  | fileBlocked hsd hf hd hj hb =>
    exact ⟨_, .fileBlocked (hne hsd) (hfile hf) (hnodir hd) (hblocked hj) (hfile hb),
      .error (alike_onPath ..) hM⟩
  | fileMoved hsd hf hd hfr =>
    have hmoved : RenameOutcome d (base ++ src) (base ++ dst) path target _ :=
      .fileMoved (hne hsd) (hfile hf) (hnodir hd) (hfree hfr)
    have hmove := fileMove hM.sound (hM.isName hnames) (hne hsd) (hfile hf) (hnodir hd) (hfree hfr)
    refine ⟨_, hmoved, .ok ?_⟩
    rw [Key.parent_append hdst] at hmove ⊢
    exact (hM.addDirectories (Path.isName_parent hnames) hfr defaultPerm).movedFile hmove
      (fileMove hM.sound' hnames hsd hf hd hfr)
  | root hsd h => exact absurd h hsrc
  | ontoFile _ hd hf => exact ⟨_, .ontoFile hroot (hdir hd) (hfile hf), .error (alike_onPath ..) hM⟩
  | intoItself hsd _ hd hf hin =>
    exact ⟨_, .intoItself (hne hsd) hroot (hdir hd) (hnofile hf) (hwithin hin),
      .error (alike_onPath ..) hM⟩
  | notEmpty _ hd hd' hout hc =>
    exact ⟨_, .notEmpty hroot (hdir hd) (hdir hd') (hwithin hout) (hchildren ▸ hc),
      .error (alike_onPath ..) hM⟩
  | directoryBlocked _ hd hf hout hc hj hb =>
    exact ⟨_, .directoryBlocked hroot (hdir hd) (hnofile hf) (hwithin hout) (hchildren ▸ hc)
      (hblocked hj) (hfile hb), .error (alike_onPath ..) hM⟩
  | directoryMoved _ hd hf hout hc hfr =>
    have hc' := hchildren.trans hc
    have hmoved : RenameOutcome d (base ++ src) (base ++ dst) path target _ :=
      .directoryMoved hroot (hdir hd) (hnofile hf) (hwithin hout) hc' (hfree hfr)
    have hmove := directoryMove hM.sound (hM.isName hnames) hroot (hdir hd) (hnofile hf)
      (hwithin hout) hc' (hfree hfr)
    refine ⟨_, hmoved, .ok ?_⟩
    rw [Key.parent_append hdst] at hmove ⊢
    exact (hM.addDirectories (Path.isName_parent hnames) hfr defaultPerm).movedAll hmove
      (directoryMove hM.sound' hnames hsrc hd hf hout hc hfr)

/-- Removing below the top ends alike. -/
theorem remove (hk : k ≠ []) (path : String) {path' : String} {r'}
    (h : RemoveOutcome d' k path' r') :
    ∃ r, RemoveOutcome d (base ++ k) path r ∧
      EndAlike (fun _ _ => Mirror base p q ps) (Mirror base p q ps) r r' := by
  have hsound' := h.sound hM.sound'
  have hsound := fun {r} (h : RemoveOutcome d (base ++ k) path r) => h.sound hM.sound
  have hroot : base ++ k ≠ [] := by simp [hk]
  have hchildren := hM.subtree.children hM.sound.inStep hM.sound'.inStep k
  cases h with
  | file hfile =>
    have hremove : RemoveOutcome d (base ++ k) path _ := .file (hM.subtree.isFile.2 hfile)
    have htree := hM.subtree.update hk (Store.get?_tree_eraseFile d.store (base ++ k))
      (Store.get?_tree_eraseFile d'.store k) rfl
    exact ⟨_, hremove, .ok (hM.of_map _ _ (hsound hremove) hsound' hM.supply htree rfl rfl
      fun h h' hh => hh.detach)⟩
  | root h => exact absurd h hk
  | notEmpty _ hdir hc =>
    exact ⟨_, .notEmpty hroot (hM.subtree.isDirectory.2 hdir) (hchildren ▸ hc),
      .error (alike_onPath ..) hM⟩
  | directory _ hdir hc =>
    have hremove : RemoveOutcome d (base ++ k) path _ :=
      .directory hroot (hM.subtree.isDirectory.2 hdir) (hchildren.trans hc)
    have htree := hM.subtree.update hk (Store.get?_tree_eraseDirectory d.store (base ++ k))
      (Store.get?_tree_eraseDirectory d'.store k) rfl
    exact ⟨_, hremove, .ok (hM.of_subtree (hsound hremove) hsound' hM.supply htree rfl rfl)⟩
  | missing h =>
    refine ⟨_, .missing (hM.subtree.get?_eq_none_iff.2 h), .error ?_ hM⟩
    rw [hM.missing hk]
    exact alike_onPath ..

/-- Asking for metadata below the top ends alike. -/
theorem stat {σ : Type} (hk : k ≠ []) (path : String) {path' : String} {r'}
    (h : StatOutcome (σ := σ) d' k path' r') :
    ∃ r, StatOutcome (σ := σ) d (base ++ k) path r ∧
      EndAlike (fun i i' e e' => i.Alike i' ∧ Mirror base p q ps e e') (Mirror base p q ps)
        r r' := by
  cases h with
  | present h =>
    obtain ⟨e, he, hinfo⟩ := hM.subtree.info (σ := σ) hk h
    exact ⟨_, .present he, .ok ⟨hinfo, hM⟩⟩
  | missing h =>
    refine ⟨_, .missing (hM.subtree.get?_eq_none_iff.2 h), .error ?_ hM⟩
    rw [hM.missing hk]
    exact alike_onPath ..

/-- Listing ends alike, also at the top. -/
theorem list {σ : Type} (path : String) {path' : String} {r'}
    (h : ListOutcome (σ := σ) d' k path' r') :
    ∃ r, ListOutcome (σ := σ) d (base ++ k) path r ∧
      EndAlike (fun l l' e e' => List.Forall₂ FileInfo.Alike l l' ∧ Mirror base p q ps e e')
        (Mirror base p q ps) r r' := by
  cases h with
  | file h => exact ⟨_, .file (hM.subtree.isFile.2 h), .error (alike_onPath ..) hM⟩
  | directory h =>
    have hchildren := hM.subtree.children hM.sound.inStep hM.sound'.inStep k
    refine ⟨_, .directory (hM.subtree.isDirectory.2 h), .ok ⟨?_, hM⟩⟩
    rw [hchildren]
    exact hM.subtree.infos k _
  | missing h =>
    have hk : k ≠ [] := by
      rintro rfl
      exact not_isDirectory_of_none h hM.sound'.tree.root
    refine ⟨_, .missing (hM.subtree.get?_eq_none_iff.2 h), .error ?_ hM⟩
    rw [hM.missing hk]
    exact alike_onPath ..

/-! ### Calls on pairs of handles -/

/-- The handles of a pair are replaced by handles that are alike. -/
theorem setHandle {x : Pair} (hx : x ∈ ps) {g g' : Handle}
    (hs : (d.setHandle x.id g).store.Sound) (hs' : (d'.setHandle x.id' g').store.Sound)
    (hg : g.Mirrors base g') :
    Mirror base p q ps (d.setHandle x.id g) (d'.setHandle x.id' g') :=
  .of_paired hs hs' hM.supply hM.subtree (hM.paired.set hx hg)

/-- What handles that are alike hand on goes to the same file. -/
theorem committed {i i' : Nat} {h h' : Handle} (hid : d.store.handles[i]? = some h)
    (hid' : d'.store.handles[i']? = some h') (hm : h.Mirrors base h') (c : HandleCall) :
    Mirror base p q ps (d.committed h c) (d'.committed h' c) := by
  have hs := Disk.sound_committed (c := c) hM.sound hid
  have hs' := Disk.sound_committed (c := c) hM.sound' hid'
  cases hc : h'.commits c with
  | false =>
    rw [Disk.committed_of_not_commits ((hm.commits c).trans hc), Disk.committed_of_not_commits hc]
    exact hM
  | true =>
    have hkey := hm.key (Handle.open_of_commits ((hm.commits c).trans hc))
    rw [Disk.committed, hm.commits c, hc, hkey] at hs ⊢
    rw [Disk.committed, hc] at hs' ⊢
    cases hj : h'.key with
    | none => exact hM
    | some j =>
      rw [hj] at hs hs'
      obtain ⟨content, mode, modified, hget'⟩ := isFile_of_commits hM.sound' hid' hc hj
      obtain ⟨now, hget⟩ := hM.subtree.get?_of_file hget'
      have hne : j ≠ [] := by
        rintro rfl
        exact (isFile_of_get? hget').not_isDirectory hM.sound'.tree.root
      have htree := hM.subtree.putFile hne h'.buffer.content mode
      refine hM.of_subtree hs hs' hM.supply ?_ rfl rfl
      simpa [modeAt_of_get? hM.sound.inStep hget, modeAt_of_get? hM.sound'.inStep hget',
        Entry.mode, hm.buffer] using htree

/-- A call on a pair of handles ends alike. -/
theorem use {x : Pair} (hx : x ∈ ps) (c : HandleCall) :
    EndAlike (fun a a' e e' => a = a' ∧ Mirror base p q ps e e') (Mirror base p q ps)
      ((Memory.use x.id c).run d) ((Memory.use x.id' c).run d') := by
  obtain ⟨h, h', hid, hid', hm⟩ := hM.handles x hx
  obtain ⟨halike, huse⟩ := hm.use c
  have hframe := h.use_frame c
  have hframe' := h'.use_frame c
  have hcommitted := hM.committed hid hid' hm c
  have hM' : Mirror base p q ps ((d.committed h c).setHandle x.id (h.use c).2)
      ((d'.committed h' c).setHandle x.id' (h'.use c).2) :=
    hcommitted.setHandle hx
      (hcommitted.sound.setHandle (by rwa [Disk.committed_handles]) hframe.1 hframe.2.2.2)
      (hcommitted.sound'.setHandle (by rwa [Disk.committed_handles]) hframe'.1 hframe'.2.2.2) huse
  rw [run_use hid, run_use hid']
  generalize (h.use c).1 = r at halike
  generalize (h'.use c).1 = r' at halike
  cases halike with
  | ok heq => exact .ok ⟨heq, hM'⟩
  | error hf => exact .error hf hM'

end

end Mirror

end Memory

end RootedFS
