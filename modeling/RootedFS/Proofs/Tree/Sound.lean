import RootedFS.Memory.Store
import RootedFS.Proofs.Path.Join
import RootedFS.Proofs.Tree.Move

/-!
# Sound trees of files and directories

In a sound tree every entry but the top stands in a directory, so that what leads to an entry is
made of directories and nothing is found below a file. Making, replacing, removing and moving
entries keeps a tree sound under the conditions that the operations check.

## Main definitions

* `Tree.IsFile`, `Tree.IsDirectory`: the kinds of entries
* `Tree.Sound`: keys of names, each of them in a directory, and a directory at the top
* `Tree.Movable`: when what stands at and below one key may be moved to another

## Main results

* `Tree.Sound.isDirectory_of_append`: whatever has something below it is a directory
* `Tree.Sound.insert`, `Tree.Sound.erase`, `Tree.Sound.move`: the changes that keep a tree sound
-/

namespace RootedFS

namespace Key

theorem mem_chain {top j : Key} {l : List String} :
    j ∈ chain top l ↔ ∃ lead, lead ≠ [] ∧ lead <+: l ∧ j = top ++ lead := by
  -- the top moves down by one name at each step, so it is general in the induction
  induction l generalizing top with
  | nil =>
    simp only [chain, List.not_mem_nil, List.prefix_nil, false_iff, not_exists]
    rintro lead ⟨hne, hnil, -⟩
    exact hne hnil
  | cons a l ih =>
    rw [chain, List.mem_cons, ih]
    constructor
    · rintro (rfl | ⟨lead, -, hlead, rfl⟩)
      · exact ⟨[a], by simp, by simp, rfl⟩
      · exact ⟨a :: lead, by simp, by simpa using hlead, by simp⟩
    · rintro ⟨lead, hne, hlead, rfl⟩
      obtain ⟨b, lead, rfl⟩ := List.exists_cons_of_ne_nil hne
      obtain ⟨rfl, htail⟩ := List.cons_prefix_cons.1 hlead
      by_cases hnil : lead = []
      · exact .inl (by rw [hnil])
      · exact .inr ⟨lead, hnil, htail, by simp⟩

/-- A chain goes on where the first part of it ends. -/
theorem chain_append (top : Key) (l l' : List String) :
    chain top (l ++ l') = chain top l ++ chain (top ++ l) l' := by
  induction l generalizing top with
  | nil => simp [chain]
  | cons a l ih => simp [chain, ih]

/-- The way to a key passes through the keys that it begins with. -/
theorem mem_steps {j k : Key} : j ∈ steps k ↔ j ≠ [] ∧ j <+: k := by
  rw [steps, mem_chain]
  constructor
  · rintro ⟨lead, hne, hlead, rfl⟩
    exact ⟨hne, hlead⟩
  · rintro ⟨hne, hlead⟩
    exact ⟨j, hne, hlead, rfl⟩

@[simp] theorem parent_append_singleton (k : Key) (a : String) : parent (k ++ [a]) = k :=
  List.dropLast_concat

/-- A key other than the top is its parent followed by a name. -/
theorem exists_eq_parent_append {k : Key} (h : k ≠ []) : ∃ a, k = parent k ++ [a] :=
  ⟨k.getLast h, (List.dropLast_append_getLast h).symm⟩

theorem parent_append {base k : Key} (h : k ≠ []) : parent (base ++ k) = base ++ parent k :=
  List.dropLast_append_of_ne_nil h

/-- The way to the parent of a key ends above the key. -/
theorem length_lt_of_mem_steps_parent {j k : Key} (h : j ∈ steps (parent k)) :
    j.length < k.length := by
  obtain ⟨hne, hpre⟩ := mem_steps.1 h
  have hlen := hpre.length_le
  have hpos := List.length_pos_of_ne_nil hne
  rw [parent, List.length_dropLast] at hlen
  omega

/-- The keys on the way to the parent of a key are those above it, but for the top. -/
theorem mem_steps_parent {j k : Key} :
    j ∈ steps (parent k) ↔ j ≠ [] ∧ j ≠ k ∧ within j k = true := by
  rw [mem_steps, within_iff]
  refine and_congr_right fun hne => ?_
  constructor
  · intro hpre
    have hlen := length_lt_of_mem_steps_parent (mem_steps.2 ⟨hne, hpre⟩)
    obtain ⟨rest, hrest⟩ := hpre.trans k.dropLast_prefix
    refine ⟨?_, rest, hrest.symm⟩
    rintro rfl
    omega
  · rintro ⟨hjk, rest, rfl⟩
    have hrest : rest ≠ [] := fun hnil => hjk (by rw [hnil, List.append_nil])
    rw [parent_append hrest]
    exact List.prefix_append j (parent rest)

theorem append_not_mem_steps_parent (k rest : Key) : k ++ rest ∉ steps (parent k) := by
  intro h
  have hlen := length_lt_of_mem_steps_parent h
  rw [List.length_append] at hlen
  omega

end Key

/-- The mode of an entry tells its kind, and has nine bits of permissions besides. -/
def Memory.Entry.Typed : Memory.Entry → Prop
  | file _ mode _ => ∃ perm < 0o1000, mode = Mode.regular + perm
  | directory mode _ => ∃ perm < 0o1000, mode = Mode.directory + perm

namespace Tree

open Memory

/-- A file is found at the key. -/
def IsFile (t : Tree Entry) (k : Key) : Prop :=
  ∃ content mode modified, t.get? k = some (.file content mode modified)

/-- A directory is found at the key. -/
def IsDirectory (t : Tree Entry) (k : Key) : Prop :=
  ∃ mode modified, t.get? k = some (.directory mode modified)

/-- A tree of files and directories in which everything but the top stands in a directory. -/
structure Sound (t : Tree Entry) : Prop where
  names : ∀ k, (t.get? k).isSome = true → ∀ a ∈ k, Path.IsName a
  root : t.IsDirectory []
  /-- Whatever stands in an entry, stands in a directory. -/
  closed : ∀ k a, (t.get? (k ++ [a])).isSome = true → t.IsDirectory k
  /-- Modes tell the kinds. -/
  typed : ∀ k e, t.get? k = some e → e.Typed

/-- What stands at and below `src` may be moved to `dst`: neither is the top, `dst` is outside `src`
and in a directory, and nothing is below it. -/
structure Movable (t : Tree Entry) (src dst : Key) : Prop where
  src_ne : src ≠ []
  dst_ne : dst ≠ []
  out : Key.within src dst = false
  source : (t.get? src).isSome = true
  /-- What is moved stands in a directory afterwards. -/
  parent : t.IsDirectory dst.parent
  /-- Nothing below the destination is in the way. -/
  below : ∀ rest, rest ≠ [] → t.get? (dst ++ rest) = none

variable {t t' : Tree Entry} {j k : Key}

/-! ## Kinds -/

theorem isFile_of_get? {content mode modified}
    (h : t.get? k = some (.file content mode modified)) : t.IsFile k :=
  ⟨content, mode, modified, h⟩

theorem isDirectory_of_get? {mode modified}
    (h : t.get? k = some (.directory mode modified)) : t.IsDirectory k :=
  ⟨mode, modified, h⟩

theorem IsFile.isSome (h : t.IsFile k) : (t.get? k).isSome = true := by
  obtain ⟨content, mode, modified, h⟩ := h
  rw [h]
  rfl

theorem IsDirectory.isSome (h : t.IsDirectory k) : (t.get? k).isSome = true := by
  obtain ⟨mode, modified, h⟩ := h
  rw [h]
  rfl

theorem IsFile.not_isDirectory (h : t.IsFile k) : ¬t.IsDirectory k := by
  rintro ⟨mode, modified, hd⟩
  obtain ⟨content, _, _, hf⟩ := h
  rw [hf] at hd
  cases hd

theorem IsDirectory.not_isFile (h : t.IsDirectory k) : ¬t.IsFile k := fun hf =>
  hf.not_isDirectory h

theorem not_isFile_of_none (h : t.get? k = none) : ¬t.IsFile k := fun hf => by
  have hsome := hf.isSome
  rw [h] at hsome
  cases hsome

theorem not_isDirectory_of_none (h : t.get? k = none) : ¬t.IsDirectory k := fun hd => by
  have hsome := hd.isSome
  rw [h] at hsome
  cases hsome

/-- What is found at a key is a file or a directory. -/
theorem isFile_or_isDirectory (h : (t.get? k).isSome = true) : t.IsFile k ∨ t.IsDirectory k := by
  obtain ⟨e, he⟩ := Option.isSome_iff_exists.1 h
  cases e with
  | file content mode modified => exact .inl ⟨_, _, _, he⟩
  | directory mode modified => exact .inr ⟨_, _, he⟩

theorem IsFile.congr {k' : Key} (h : t'.get? k' = t.get? k) :
    t'.IsFile k' ↔ t.IsFile k := by
  rw [IsFile, IsFile, h]

theorem IsDirectory.congr {k' : Key} (h : t'.get? k' = t.get? k) :
    t'.IsDirectory k' ↔ t.IsDirectory k := by
  rw [IsDirectory, IsDirectory, h]

/-- What can be moved is neither at its destination nor below it. -/
theorem Movable.not_within {src dst : Key} (hm : t.Movable src dst) :
    Key.within dst src = false := by
  by_contra hin
  rw [Bool.not_eq_false] at hin
  obtain ⟨rest, rfl⟩ := Key.within_iff.1 hin
  have hrest : rest ≠ [] := by
    rintro rfl
    have hself := hm.out
    simp at hself
  have hsome := hm.source
  rw [hm.below rest hrest] at hsome
  cases hsome

/-- A file that is not at the destination of a move is not below it either. -/
theorem Movable.not_within_of_isFile {src dst : Key} (hm : t.Movable src dst) (hk : t.IsFile k)
    (hne : k ≠ dst) : Key.within dst k = false := by
  by_contra hin
  rw [Bool.not_eq_false] at hin
  obtain ⟨rest, rfl⟩ := Key.within_iff.1 hin
  have hrest : rest ≠ [] := fun hnil => hne (by rw [hnil, List.append_nil])
  exact not_isFile_of_none (hm.below rest hrest) hk

namespace Sound

/-- Whatever has something below it is a directory. -/
theorem isDirectory_of_append (h : t.Sound) {rest : Key} (hrest : rest ≠ [])
    (hsome : (t.get? (k ++ rest)).isSome = true) : t.IsDirectory k := by
  -- from the entry upwards: each step shows that its parent is a directory, and so is there
  induction rest using List.reverseRecOn with
  | nil => exact absurd rfl hrest
  | append_singleton rest a ih =>
    rw [← List.append_assoc] at hsome
    have hparent := h.closed _ a hsome
    cases rest with
    | nil => rwa [List.append_nil] at hparent
    | cons b rest => exact ih (by simp) hparent.isSome

/-- What leads to an entry is made of directories. -/
theorem isDirectory_of_prefix (h : t.Sound) (hjk : j <+: k) (hne : j ≠ k)
    (hsome : (t.get? k).isSome = true) : t.IsDirectory j := by
  obtain ⟨rest, rfl⟩ := hjk
  exact h.isDirectory_of_append (fun hrest => hne (by simp [hrest])) hsome

/-- Nothing is found below what is no directory. -/
theorem get?_append_eq_none (h : t.Sound) (hk : ¬t.IsDirectory k) {rest : Key} (hrest : rest ≠ []) :
    t.get? (k ++ rest) = none := by
  rw [← Option.not_isSome_iff_eq_none]
  exact fun hsome => hk (h.isDirectory_of_append hrest hsome)

/-! ## Changes that keep a tree sound -/

/-- An entry may be made, and a file replaced, in any directory. -/
theorem insert (h : t.Sound) {e : Entry} (hk : k ≠ []) (hnames : ∀ a ∈ k, Path.IsName a)
    (hparent : t.IsDirectory k.parent) (hnot : ¬t.IsDirectory k) (htyped : e.Typed)
    (hget : ∀ j, t'.get? j = if j = k then some e else t.get? j) : t'.Sound where
  names := by
    intro j hj
    by_cases hjk : j = k
    · rw [hjk]
      exact hnames
    · rw [hget, if_neg hjk] at hj
      exact h.names j hj
  root := by
    rw [IsDirectory.congr (t := t) (k := []) (by rw [hget, if_neg hk.symm])]
    exact h.root
  closed := by
    intro j a hj
    have hdir : t.IsDirectory j := by
      by_cases hjk : j ++ [a] = k
      · rw [← hjk, Key.parent_append_singleton] at hparent
        exact hparent
      · rw [hget, if_neg hjk] at hj
        exact h.closed j a hj
    have hne : j ≠ k := fun heq => hnot (heq ▸ hdir)
    rwa [IsDirectory.congr (t := t) (k := j) (by rw [hget, if_neg hne])]
  typed := by
    intro j e' hj
    by_cases hjk : j = k
    · rw [hget, if_pos hjk] at hj
      exact Option.some.inj hj ▸ htyped
    · rw [hget, if_neg hjk] at hj
      exact h.typed j e' hj

/-- Entries other than the top may be taken out with all that is below them. -/
theorem without (h : t.Sound) (gone : Key → Bool) (hroot : gone [] = false)
    (hbelow : ∀ k a, gone k = true → gone (k ++ [a]) = false → t.get? (k ++ [a]) = none)
    (hget : ∀ j, t'.get? j = if gone j then none else t.get? j) : t'.Sound where
  names := by
    intro j hj
    rw [hget] at hj
    split at hj
    · cases hj
    · exact h.names j hj
  root := by
    rw [IsDirectory.congr (t := t) (k := []) (by rw [hget, hroot, if_neg Bool.false_ne_true])]
    exact h.root
  closed := by
    intro j a hj
    rw [hget] at hj
    split at hj
    · cases hj
    · rename_i hja
      rw [Bool.not_eq_true] at hja
      have hkeep : ¬gone j = true := by
        intro hgone
        rw [hbelow j a hgone hja] at hj
        cases hj
      rw [IsDirectory.congr (t := t) (k := j) (by rw [hget, if_neg hkeep])]
      exact h.closed j a hj
  typed := by
    intro j e hj
    rw [hget] at hj
    split at hj
    · cases hj
    · exact h.typed j e hj

/-- An entry with nothing below it may be removed. -/
theorem erase (h : t.Sound) (hk : k ≠ [])
    (hbelow : ∀ rest, rest ≠ [] → t.get? (k ++ rest) = none)
    (hget : ∀ j, t'.get? j = if j = k then none else t.get? j) : t'.Sound := by
  apply h.without (· == k) (by simpa using hk.symm)
  · intro j a hj _
    rw [beq_iff_eq.1 hj]
    exact hbelow [a] (by simp)
  · simpa using hget

/-- What is movable may be moved. -/
theorem move (h : t.Sound) {src dst : Key} (hm : t.Movable src dst)
    (hnames : ∀ a ∈ dst, Path.IsName a)
    (htarget : ∀ rest, t'.get? (dst ++ rest) = t.get? (src ++ rest))
    (hother : ∀ j, Key.within dst j = false →
      t'.get? j = if Key.within src j then none else t.get? j) : t'.Sound := by
  have hout := hm.out
  have houter : ∀ j, Key.within dst j = false → Key.within src j = false →
      t'.get? j = t.get? j := by
    intro j hdj hsj
    rw [hother j hdj, hsj]
    rfl
  constructor
  case names =>
    intro j hj
    cases hw : Key.within dst j with
    | true =>
      obtain ⟨rest, rfl⟩ := Key.within_iff.1 hw
      rw [htarget] at hj
      intro a ha
      rcases List.mem_append.1 ha with ha | ha
      · exact hnames a ha
      · exact h.names _ hj a (List.mem_append_right src ha)
    | false =>
      rw [hother j hw] at hj
      split at hj
      · cases hj
      · exact h.names j hj
  case root =>
    have hdnil : Key.within dst [] = false := Key.within_nil hm.dst_ne
    have hsnil : Key.within src [] = false := Key.within_nil hm.src_ne
    rw [IsDirectory.congr (houter [] hdnil hsnil)]
    exact h.root
  case closed =>
    intro j a hj
    cases hw : Key.within dst (j ++ [a]) with
    | true =>
      obtain ⟨rest, hrest⟩ := Key.within_iff.1 hw
      rcases List.eq_nil_or_concat rest with rfl | ⟨rest, b, rfl⟩
      · rw [List.append_nil] at hrest
        subst hrest
        have hparent := hm.parent
        rw [Key.parent_append_singleton] at hparent
        have hdj : Key.within (j ++ [a]) j = false := by
          rw [Key.within_eq_false_iff, Key.below?_eq_none_iff]
          intro rest heq
          have hlen := congrArg List.length heq
          simp at hlen
        rwa [IsDirectory.congr (houter j hdj (Key.within_of_append hout))]
      · rw [List.concat_eq_append, ← List.append_assoc] at hrest
        obtain ⟨rfl, -⟩ := List.append_inj' hrest rfl
        rw [List.append_assoc, htarget, ← List.append_assoc] at hj
        have hdir := h.closed _ a hj
        rwa [IsDirectory.congr (htarget rest)]
    | false =>
      rw [hother _ hw] at hj
      split at hj
      · cases hj
      · rename_i hsrc
        rw [Bool.not_eq_true] at hsrc
        rw [IsDirectory.congr (houter j (Key.within_of_append hw) (Key.within_of_append hsrc))]
        exact h.closed j a hj
  case typed =>
    intro j e hj
    cases hw : Key.within dst j with
    | true =>
      obtain ⟨rest, rfl⟩ := Key.within_iff.1 hw
      rw [htarget] at hj
      exact h.typed _ e hj
    | false =>
      rw [hother j hw] at hj
      split at hj
      · cases hj
      · exact h.typed j e hj

/-- A tree with a directory alone, at the top, is sound. -/
theorem of_top {e : Entry} (hget : ∀ k, t.get? k = if k = [] then some e else none)
    (hroot : t.IsDirectory []) (htyped : e.Typed) : t.Sound where
  names := by
    intro k hk
    rw [hget] at hk
    split at hk
    · rename_i hnil
      simp [hnil]
    · cases hk
  root := hroot
  closed := by
    intro k a hk
    rw [hget] at hk
    simp at hk
  typed := by
    intro k e' hk
    rw [hget] at hk
    split at hk
    · exact Option.some.inj hk ▸ htyped
    · cases hk

end Sound

end Tree

end RootedFS
