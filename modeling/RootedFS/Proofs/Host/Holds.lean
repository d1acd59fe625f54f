import RootedFS.Proofs.Contents
import RootedFS.Proofs.Host.Plain

/-!
# What a directory of the host holds

The contents of a directory of the host are told by the entries at and below it, files by their
contents. Where there are no links, contents determine how a path below the directory is walked; a
change of the host's entries or files at one key changes the contents there and nowhere else, since
a file has one place below the directory.

## Main definitions

* `Host.Sound`: a host whose entries lead to files
* `Host.Unhindered`: a host that lets its caller do everything and tells times that a calendar has
* `Host.items`: the contents of a directory of the host
* `Host.Rooted.Holds`: a root has some contents

## Main results

* `Holds.walk_item`, `Holds.walk_free`, `Holds.walk_stuck`: walks, as the contents tell them
* `Holds.insertDirectory`, `Holds.insertFile`, `Holds.setFile`, `Holds.erase`, `Holds.move`: what
  changes of the host do to the contents
-/

namespace RootedFS

namespace Host

/-- A host whose entries lead to files, and on which permissions have their twelve bits. -/
structure Sound (h : Host) : Prop where
  filed : ∀ k n, h.tree.get? k = some (.file n) → n < h.files.length
  directory_perm : ∀ k perm, h.tree.get? k = some (.directory perm) → perm < 0o10000
  file_perm : ∀ n, (h.file n).perm < 0o10000

/-- A host that refuses its caller nothing for want of a permission, and that tells every entry,
whenever it is asked, a time that a calendar has. -/
structure Unhindered (h : Host) : Prop where
  superuser : h.superuser = true
  dated : ∀ moment k, Instant.inCalendar (h.dates moment k) = true

/-- What an entry of a host is. -/
def item (h : Host) : Node → Item
  | .directory _ => .directory
  | .file number => .file (h.file number).content
  | .link target => .link target

/-- The contents of a directory of a host. -/
def items (h : Host) (root : Key) : Contents := fun k =>
  (h.tree.get? (root ++ k)).map h.item

namespace Rooted

/-- A root leads along directories, and there has some contents, in which every file is one of its
own and keeps what is written to it. Nothing hinders the caller. -/
structure Holds (root : Key) (h : Host) (c : Contents) : Prop where
  sound : h.Sound
  unhindered : h.Unhindered
  keeps : ∀ k n, h.tree.get? (root ++ k) = some (.file n) → (h.file n).sink = false
  single : ∀ j k n, h.tree.get? (root ++ j) = some (.file n) →
    h.tree.get? (root ++ k) = some (.file n) → j = k
  way : Way h.tree root
  items : h.items root = c

end Rooted

open Memory Rooted

variable {root k : Key} {h h' : Host} {c : Contents} {a : String} {m : Manner} {n perm : Nat}
  {r : Regular}

/-! ## Files -/

theorem file_append_of_lt (hn : n < h.files.length) (r : Regular) :
    ({ h with files := h.files ++ [r] } : Host).file n = h.file n := by
  rw [file, file, List.getElem?_append_left hn]

theorem file_append_length (h : Host) (r : Regular) :
    ({ h with files := h.files ++ [r] } : Host).file h.files.length = r := by
  simp [file]

/-- A file that keeps nothing goes on keeping nothing, and another goes on keeping what it has. -/
@[simp] theorem Regular.sink_change (r : Regular) (content : Bytes) :
    (r.change content).sink = r.sink := by
  unfold Regular.change
  split <;> rfl

theorem Regular.content_change (hr : r.sink = false) (content : Bytes) :
    (r.change content).content = content := by
  simp [Regular.change, hr]

/-- No file has less than an empty content. -/
theorem Regular.content_change_nil (r : Regular) : (r.change []).content = [] := by
  unfold Regular.change
  split
  · exact r.empty ‹_›
  · rfl

theorem file_set (hn : n < h.files.length) (r : Regular) (j : Nat) :
    ({ h with files := h.files.set n r } : Host).file j = if j = n then r else h.file j := by
  rw [file, file, List.getElem?_set]
  by_cases hj : j = n
  · simp [hj, hn]
  · simp [hj, Ne.symm hj]

theorem file_set_self (hn : n < h.files.length) (r : Regular) :
    ({ h with files := h.files.set n r } : Host).file n = r := by
  rw [file_set hn, if_pos rfl]

/-! ## Hosts that hinder nothing -/

theorem Unhindered.grants (hu : h.Unhindered) (n : Nat) (flags : OpenFlags) :
    h.grants n flags = true := by
  simp [Host.grants, permits, hu.superuser]

/-- The status of an entry gives metadata. -/
theorem Unhindered.exists_info (hu : h.Unhindered) (name : String) (k : Key) (node : Node) :
    ∃ i, Rooted.info name (h.status k node) = .ok i := by
  have hdate : Instant.inCalendar (h.status k node).modified = true := by
    cases node <;> exact hu.dated h.now k
  rw [Rooted.info, Instant.ofHost_of_inCalendar hdate]
  exact ⟨_, rfl⟩

/-- The metadata that a status gives tells the name, and the size and the mode of the status. -/
theorem info_ok {name : String} {s : Status} {i : FileInfo Status}
    (hi : Rooted.info name s = .ok i) :
    i.name = name ∧ i.size = s.size ∧ i.mode = s.mode := by
  unfold Rooted.info at hi
  cases hdate : Instant.ofHost s.modified with
  | error f =>
    rw [hdate] at hi
    cases hi
  | ok t =>
    rw [hdate] at hi
    cases hi
    exact ⟨rfl, rfl, rfl⟩

/-! ## Sound hosts -/

/-- Entries are what they were, wherever they were, or new directories. -/
theorem Sound.withTree (hs : h.Sound) {t : Tree Node}
    (hold : ∀ k node, t.get? k = some node →
      (∃ perm < 0o10000, node = .directory perm) ∨ ∃ j, h.tree.get? j = some node) :
    ({ h with tree := t } : Host).Sound where
  filed := by
    intro k n hk
    rcases hold k _ hk with ⟨perm, -, heq⟩ | ⟨j, hj⟩
    · cases heq
    · exact hs.filed j n hj
  directory_perm := by
    intro k perm hk
    rcases hold k _ hk with ⟨perm', hperm, heq⟩ | ⟨j, hj⟩
    · cases heq
      exact hperm
    · exact hs.directory_perm j perm hj
  file_perm := hs.file_perm

namespace Rooted.Holds

theorem get?_map (hh : Holds root h c) (k : Key) : (h.tree.get? (root ++ k)).map h.item = c k :=
  congrFun hh.items k

/-! ## What is where -/

theorem get?_of_none (hh : Holds root h c) (hk : c k = none) : h.tree.get? (root ++ k) = none := by
  rwa [← hh.get?_map, Option.map_eq_none_iff] at hk

theorem get?_of_directory (hh : Holds root h c) (hk : c k = some .directory) :
    ∃ perm, h.tree.get? (root ++ k) = some (.directory perm) := by
  rw [← hh.get?_map] at hk
  obtain ⟨node, hnode, hitem⟩ := Option.map_eq_some_iff.1 hk
  cases node with
  | directory perm => exact ⟨perm, hnode⟩
  | file number => cases hitem
  | link target => cases hitem

theorem top (hh : Holds root h c) : c [] = some .directory := by
  obtain ⟨perm, hget⟩ := hh.way root List.prefix_rfl
  rw [← hh.get?_map, List.append_nil, hget]
  rfl

/-- The way to a directory is made of directories. -/
theorem way_directory (hh : Holds root h c) (hc : c.Sound) (hk : c k = some .directory) :
    Way h.tree (root ++ k) := by
  rintro j ⟨rest, hrest⟩
  rcases List.append_eq_append_iff.1 hrest with ⟨l, hl, -⟩ | ⟨l, rfl, rfl⟩
  · exact hh.way j ⟨l, hl.symm⟩
  · by_cases hnil : rest = []
    · rw [hnil, List.append_nil] at hk
      exact hh.get?_of_directory hk
    · exact hh.get?_of_directory (hc.directory_of_append hnil (by simp [hk]))

/-! ## Walks -/

section Walks

variable (hh : Holds root h c) (hc : c.Sound)
include hh hc

/-- A path to an item leads to an entry that is the item. -/
theorem walk_item {i : Item} (hfits : Fits (root ++ k)) (hk : c k = some i) :
    ∃ node, h.tree.get? (root ++ k) = some node ∧ h.item node = i ∧
      ∀ m, walk m h.tree (root ++ k) = .ok (.entry (root ++ k) node) := by
  have hget := hh.get?_map k
  rw [hk] at hget
  obtain ⟨node, hnode, rfl⟩ := Option.map_eq_some_iff.1 hget
  refine ⟨node, hnode, rfl, fun m => ?_⟩
  rcases List.eq_nil_or_concat k with rfl | ⟨k', a, rfl⟩
  · rw [List.append_nil] at hfits hnode ⊢
    obtain ⟨perm, hget, hwalk⟩ := walk_of_way (m := m) hfits hh.way
    rw [hnode] at hget
    cases hget
    exact hwalk
  · rw [List.concat_eq_append] at hfits hnode hk ⊢
    have hdir := hc.closed k' a (by simp [hk])
    rw [← List.append_assoc] at hfits hnode ⊢
    refine walk_entry hfits (hh.way_directory hc hdir) hnode ?_
    rintro target rfl
    exact hc.not_link _ target hk

/-- A path to a missing name in a directory leads to where the name is missing. -/
theorem walk_free (hfits : Fits (root ++ (k ++ [a]))) (hdir : c k = some .directory)
    (hnone : c (k ++ [a]) = none) (m : Manner) :
    walk m h.tree (root ++ (k ++ [a])) = .ok (.absent (root ++ k) a false) := by
  have hget := hh.get?_of_none hnone
  rw [← List.append_assoc] at hfits hget ⊢
  exact walk_absent hfits (hh.way_directory hc hdir) hget

omit hc in
/-- On the way to what is no directory there is a first key that is none. -/
theorem exists_first (hk : c k ≠ some .directory) :
    ∃ j a rest, k = j ++ a :: rest ∧ c j = some .directory ∧ c (j ++ [a]) ≠ some .directory := by
  induction k using List.reverseRecOn with
  | nil => exact absurd hh.top hk
  | append_singleton k a ih =>
    by_cases hdir : c k = some .directory
    · exact ⟨k, a, [], rfl, hdir, hk⟩
    · obtain ⟨j, b, rest, rfl, hj, hb⟩ := ih hdir
      exact ⟨j, b, rest ++ [a], by simp, hj, hb⟩

/-- A path below what is no directory leads nowhere. -/
theorem walk_stuck (hfits : Fits (root ++ (k ++ [a]))) (hdir : c k ≠ some .directory)
    (m : Manner) :
    ∃ why, walk m h.tree (root ++ (k ++ [a])) = .error why ∧
      (why = .missing ∨ why = .notDirectory) := by
  obtain ⟨j, b, rest, rfl, hj, hb⟩ := hh.exists_first hdir
  have hget := hh.get?_map (j ++ [b])
  rw [← List.append_assoc] at hget
  have hkey : root ++ (j ++ b :: rest ++ [a]) = root ++ j ++ b :: (rest ++ [a]) := by simp
  rw [hkey] at hfits ⊢
  refine Host.walk_stuck hfits (by simp) (hh.way_directory hc hj) ?_ ?_
  · intro perm hnode
    rw [hnode] at hget
    exact hb hget.symm
  · intro target hnode
    rw [hnode] at hget
    exact hc.not_link _ target hget.symm

/-- What is looked up at a path is the entry that is the item there. -/
theorem lookup_item {i : Item} (hfits : Fits (root ++ k)) (hk : c k = some i) :
    ∃ node, h.tree.get? (root ++ k) = some node ∧ h.item node = i ∧
      ∀ m, lookup m h.tree (root ++ k) = .ok (root ++ k, node) := by
  obtain ⟨node, hget, hitem, hwalk⟩ := hh.walk_item hc hfits hk
  exact ⟨node, hget, hitem, fun m => by rw [lookup, hwalk m]⟩

/-- Where there is nothing, nothing is looked up. -/
theorem lookup_none (hfits : Fits (root ++ k)) (hk : c k = none) (m : Manner) :
    ∃ why, lookup m h.tree (root ++ k) = .error why ∧ (why = .missing ∨ why = .notDirectory) := by
  rcases List.eq_nil_or_concat k with rfl | ⟨k', a, rfl⟩
  · rw [hh.top] at hk
    cases hk
  · rw [List.concat_eq_append] at hfits hk ⊢
    by_cases hdir : c k' = some .directory
    · exact ⟨.missing, by rw [lookup, hh.walk_free hc hfits hdir hk m], .inl rfl⟩
    · obtain ⟨why, hwalk, hwhy⟩ := hh.walk_stuck hc hfits hdir m
      exact ⟨why, by rw [lookup, hwalk], hwhy⟩

/-- A path leads to what is there. -/
theorem leadsTo_eq (hfits : Fits (root ++ k)) (p : Node → Bool) (q : Item → Bool)
    (hpq : ∀ node, p node = q (h.item node)) :
    leadsTo h.tree p (root ++ k) = (c k).any q := by
  cases hk : c k with
  | none =>
    obtain ⟨why, hlookup, -⟩ := hh.lookup_none hc hfits hk .through
    rw [leadsTo, hlookup]
    rfl
  | some i =>
    obtain ⟨node, -, rfl, hlookup⟩ := hh.lookup_item hc hfits hk
    rw [leadsTo, hlookup]
    exact hpq node

end Walks

/-! ## Changes -/

theorem item_file {r : Regular} (hr : h.file n = r) : h.item (.file n) = .file r.content :=
  congrArg (fun f : Regular => Item.file f.content) hr

/-- A file that is found below the root after a move is at or below the new place and was at or
below the old one, or it has stayed. -/
theorem get?_of_move_file {src dst j : Key} (hout : Key.within (root ++ src) (root ++ dst) = false)
    (hbelow : ∀ rest, rest ≠ [] → h.tree.get? (root ++ dst ++ rest) = none)
    (hj : (h.tree.move (root ++ src) (root ++ dst)).get? (root ++ j) = some (.file n)) :
    (∃ rest, j = dst ++ rest ∧ h.tree.get? (root ++ (src ++ rest)) = some (.file n)) ∨
      (Key.within src j = false ∧ h.tree.get? (root ++ j) = some (.file n)) := by
  rw [Tree.get?_move hout hbelow, Key.below?_append_append, Key.within_append_append] at hj
  cases hbj : Key.below? dst j with
  | some rest =>
    rw [hbj] at hj
    dsimp only at hj
    rw [List.append_assoc] at hj
    exact .inl ⟨rest, Key.below?_eq_some_iff.1 hbj, hj⟩
  | none =>
    rw [hbj] at hj
    dsimp only at hj
    split at hj
    · cases hj
    · exact .inr ⟨Bool.not_eq_true _ ▸ ‹_›, hj⟩

/-- What is below the root does not lead to it. -/
theorem ne_of_way {j : Key} (hk : k ≠ []) (hj : j <+: root) : j ≠ root ++ k := by
  rintro rfl
  have hlength := hj.length_le
  have hpos := List.length_pos_of_ne_nil hk
  rw [List.length_append] at hlength
  omega

section Changes

variable (hh : Holds root h c)
include hh

theorem ne_nil_of_none (hk : c k = none) : k ≠ [] := by
  rintro rfl
  rw [hh.top] at hk
  cases hk

/-- Streams do not matter. -/
theorem withStreams (l : List Stream) : Holds root { h with streams := l } c where
  sound := ⟨hh.sound.filed, hh.sound.directory_perm, hh.sound.file_perm⟩
  unhindered := ⟨hh.unhindered.superuser, hh.unhindered.dated⟩
  keeps := hh.keeps
  single := hh.single
  way := hh.way
  items := hh.items

/-- Entries other than those on the way to the root are changed. -/
theorem withTree {t : Tree Node} {c' : Contents} (hsound : ({ h with tree := t } : Host).Sound)
    (hfile : ∀ j n, t.get? (root ++ j) = some (.file n) →
      ∃ j', h.tree.get? (root ++ j') = some (.file n))
    (hsingle : ∀ j k n, t.get? (root ++ j) = some (.file n) →
      t.get? (root ++ k) = some (.file n) → j = k)
    (hway : ∀ j, j <+: root → t.get? j = h.tree.get? j)
    (hitems : ∀ k, (t.get? (root ++ k)).map h.item = c' k) :
    Holds root { h with tree := t } c' where
  sound := hsound
  unhindered := ⟨hh.unhindered.superuser, hh.unhindered.dated⟩
  keeps := fun j n hj => by
    obtain ⟨j', hj'⟩ := hfile j n hj
    exact hh.keeps j' n hj'
  single := hsingle
  way := fun j hj => by
    rw [hway j hj]
    exact hh.way j hj
  items := funext hitems

/-- A directory is put where nothing is. -/
theorem insertDirectory (hk : c k = none) (hperm : perm < 0o10000) :
    Holds root { h with tree := h.tree.insert (root ++ k) (.directory perm) }
      (c.put k .directory) := by
  have hold : ∀ j n, (h.tree.insert (root ++ k) (.directory perm)).get? j = some (.file n) →
      h.tree.get? j = some (.file n) := by
    intro j n hj
    rw [Tree.get?_insert] at hj
    split at hj
    · cases hj
    · exact hj
  apply hh.withTree
  · apply hh.sound.withTree
    intro j node hj
    rw [Tree.get?_insert] at hj
    split at hj
    · exact .inl ⟨perm, hperm, (Option.some.inj hj).symm⟩
    · exact .inr ⟨j, hj⟩
  · exact fun j n hj => ⟨j, hold _ n hj⟩
  · exact fun j j' n hj hj' => hh.single j j' n (hold _ n hj) (hold _ n hj')
  · intro j hj
    rw [Tree.get?_insert, if_neg (ne_of_way (hh.ne_nil_of_none hk) hj)]
  · intro j
    simp only [Tree.get?_insert, Contents.put, List.append_cancel_left_eq, ← hh.get?_map]
    split <;> rfl

/-- A new file is put where nothing is. -/
theorem insertFile (hk : c k = none) (hr : r.perm < 0o10000) (hsink : r.sink = false) :
    Holds root { h with
      files := h.files ++ [r]
      tree := h.tree.insert (root ++ k) (.file h.files.length) }
      (c.put k (.file r.content)) := by
  have hold : ∀ n, n < h.files.length → ({ h with files := h.files ++ [r] } : Host).file n =
      h.file n := fun n hn => file_append_of_lt hn r
  have hnew := file_append_length h r
  have hlt : ∀ j n, h.tree.get? j = some (.file n) → n < h.files.length := hh.sound.filed
  constructor
  case sound =>
    constructor
    case filed =>
      intro j n hj
      simp only [Tree.get?_insert, List.length_append, List.length_singleton] at hj ⊢
      split at hj
      · cases hj
        exact Nat.lt_succ_self _
      · exact Nat.lt_succ_of_lt (hlt j n hj)
    case directory_perm =>
      intro j perm hj
      simp only [Tree.get?_insert] at hj
      split at hj
      · cases hj
      · exact hh.sound.directory_perm j perm hj
    case file_perm =>
      intro n
      change (({ h with files := h.files ++ [r] } : Host).file n).perm < _
      rcases Nat.lt_trichotomy n h.files.length with hn | rfl | hn
      · rw [hold n hn]
        exact hh.sound.file_perm n
      · rwa [hnew]
      · have hnone : (h.files ++ [r])[n]? = none := by
          rw [List.getElem?_eq_none_iff, List.length_append, List.length_singleton]
          exact hn
        rw [file, hnone]
        decide
  case unhindered => exact ⟨hh.unhindered.superuser, hh.unhindered.dated⟩
  case keeps =>
    intro j n hj
    change (({ h with files := h.files ++ [r] } : Host).file n).sink = false
    simp only [Tree.get?_insert] at hj
    split at hj
    · cases hj
      rwa [hnew]
    · rw [hold n (hlt _ n hj)]
      exact hh.keeps j n hj
  case single =>
    intro j j' n hj hj'
    simp only [Tree.get?_insert, List.append_cancel_left_eq] at hj hj'
    split at hj
    · rename_i heq
      cases hj
      split at hj'
      · rename_i heq'
        rw [heq, heq']
      · exact absurd (hlt _ _ hj') (Nat.lt_irrefl _)
    · split at hj'
      · cases hj'
        exact absurd (hlt _ _ hj) (Nat.lt_irrefl _)
      · exact hh.single j j' n hj hj'
  case way =>
    intro j hj
    simp only [Tree.get?_insert, if_neg (ne_of_way (hh.ne_nil_of_none hk) hj)]
    exact hh.way j hj
  case items =>
    funext j
    simp only [Host.items, Tree.get?_insert, Contents.put, List.append_cancel_left_eq,
      ← hh.get?_map]
    split
    · exact congrArg some (item_file hnew)
    · cases hj : h.tree.get? (root ++ j) with
      | none => rfl
      | some node =>
        cases node with
        | directory perm => rfl
        | link target => rfl
        | file n =>
          exact congrArg some (item_file (hold n (hlt _ n hj)))

/-- A file gets another content. -/
theorem setFile {content : Bytes} (hget : h.tree.get? (root ++ k) = some (.file n))
    (hr : r.perm < 0o10000) (hsink : r.sink = false) (hcontent : r.content = content) :
    Holds root { h with files := h.files.set n r } (c.put k (.file content)) := by
  subst hcontent
  have hlt := hh.sound.filed _ n hget
  have hfile := file_set hlt r
  constructor
  case sound =>
    constructor
    case filed =>
      intro j n' hj
      rw [List.length_set]
      exact hh.sound.filed j n' hj
    case directory_perm => exact hh.sound.directory_perm
    case file_perm =>
      intro j
      rw [hfile]
      split
      · exact hr
      · exact hh.sound.file_perm j
  case unhindered => exact ⟨hh.unhindered.superuser, hh.unhindered.dated⟩
  case keeps =>
    intro j n' hj
    rw [hfile]
    split
    · exact hsink
    · exact hh.keeps j n' hj
  case single => exact hh.single
  case way => exact hh.way
  case items =>
    funext j
    rw [Contents.put, Host.items]
    by_cases hj : j = k
    · subst hj
      have hself := hfile n
      rw [if_pos rfl] at hself
      rw [hget, if_pos rfl]
      exact congrArg some (item_file hself)
    · rw [if_neg hj, ← hh.get?_map]
      cases hget' : h.tree.get? (root ++ j) with
      | none => rfl
      | some node =>
        cases node with
        | directory perm => rfl
        | link target => rfl
        | file n' =>
          have hne : n' ≠ n := by
            rintro rfl
            exact hj (hh.single j k _ hget' hget)
          have hother := hfile n'
          rw [if_neg hne] at hother
          exact congrArg some (item_file hother)

/-- What is not the root is taken out. -/
theorem erase (hk : k ≠ []) :
    Holds root { h with tree := h.tree.erase (root ++ k) } (c.erase k) := by
  have hold : ∀ j node, (h.tree.erase (root ++ k)).get? j = some node →
      h.tree.get? j = some node := by
    intro j node hj
    rw [Tree.get?_erase] at hj
    split at hj
    · cases hj
    · exact hj
  apply hh.withTree
  · exact hh.sound.withTree fun j node hj => .inr ⟨j, hold j node hj⟩
  · exact fun j n hj => ⟨j, hold _ _ hj⟩
  · exact fun j j' n hj hj' => hh.single j j' n (hold _ _ hj) (hold _ _ hj')
  · intro j hj
    rw [Tree.get?_erase, if_neg (ne_of_way hk hj)]
  · intro j
    simp only [Tree.get?_erase, Contents.erase, List.append_cancel_left_eq, ← hh.get?_map]
    split <;> rfl

/-- What is at a key other than the root and below it is taken to where nothing is below. -/
theorem move {src dst : Key} (hsrc : src ≠ []) (hdst : dst ≠ [])
    (hout : Key.within src dst = false) (hbare : c.Bare dst) :
    Holds root { h with tree := h.tree.move (root ++ src) (root ++ dst) } (c.move src dst) := by
  have hout' : Key.within (root ++ src) (root ++ dst) = false := by
    rwa [Key.within_append_append]
  have hbelow : ∀ rest, rest ≠ [] → h.tree.get? (root ++ dst ++ rest) = none := by
    intro rest hrest
    rw [List.append_assoc]
    exact hh.get?_of_none (hbare rest hrest)
  have hget := Tree.get?_move hout' hbelow
  apply hh.withTree
  · apply hh.sound.withTree
    intro j node hj
    rw [hget] at hj
    cases hbj : Key.below? (root ++ dst) j with
    | some rest =>
      rw [hbj] at hj
      exact .inr ⟨_, hj⟩
    | none =>
      rw [hbj] at hj
      dsimp only at hj
      split at hj
      · cases hj
      · exact .inr ⟨_, hj⟩
  · intro j n hj
    rcases get?_of_move_file hout' hbelow hj with ⟨rest, -, hfrom⟩ | ⟨-, hfrom⟩
    · exact ⟨_, hfrom⟩
    · exact ⟨_, hfrom⟩
  · have hnot : ∀ {j rest}, Key.within src j = false → src ++ rest ≠ j := by
      rintro j rest hj rfl
      rw [Key.within_append] at hj
      cases hj
    intro j j' n hj hj'
    rcases get?_of_move_file hout' hbelow hj with ⟨rest, rfl, hfrom⟩ | ⟨hwithin, hfrom⟩
    · rcases get?_of_move_file hout' hbelow hj' with ⟨rest', rfl, hfrom'⟩ | ⟨hwithin', hfrom'⟩
      · rw [List.append_cancel_left (hh.single _ _ n hfrom hfrom')]
      · exact absurd (hh.single _ _ n hfrom hfrom') (hnot hwithin')
    · rcases get?_of_move_file hout' hbelow hj' with ⟨rest', rfl, hfrom'⟩ | ⟨hwithin', hfrom'⟩
      · exact absurd (hh.single _ _ n hfrom' hfrom) (hnot hwithin)
      · exact hh.single _ _ n hfrom hfrom'
  · intro j hj
    have hnot : ∀ {k}, k ≠ [] → Key.within (root ++ k) j = false := by
      intro k hk
      rw [Key.within_eq_false_iff, Key.below?_eq_none_iff]
      rintro rest rfl
      exact ne_of_way hk ((List.prefix_append _ rest).trans hj) rfl
    rw [hget, Key.within_eq_false_iff.1 (hnot hdst)]
    dsimp only
    rw [hnot hsrc]
    rfl
  · intro j
    rw [hget, Contents.move, Key.below?_append_append, Key.within_append_append]
    cases hbj : Key.below? dst j with
    | some rest =>
      dsimp only
      rw [← hh.get?_map, List.append_assoc]
    | none =>
      dsimp only
      rw [← hh.get?_map]
      split <;> rfl

end Changes

end Rooted.Holds

end Host

end RootedFS
