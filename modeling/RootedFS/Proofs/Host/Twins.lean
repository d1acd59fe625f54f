import RootedFS.Proofs.Host.Holds
import RootedFS.Proofs.Host.Inside
import RootedFS.Proofs.Host.Walk
import RootedFS.Proofs.Together

/-!
# Two hosts that are the same below a root

To see that nothing outside a root is read or changed, two hosts are run side by side: they are the
same at and below the root, in the files there and in the streams on them, and elsewhere each is as
it was at first. Changes inside that both undergo keep them so.

## Main definitions

* `Host.Sealed`: a host on which no link inside a root leads out of it
* `Host.Regular.GoesOn`: a file before and after its content has changed
* `Host.Twins`: two hosts that are the same inside, and outside are as they were

## Main results

* `Twins.same`: walks headed inside are the same on both
* `Twins.withTree`, `Twins.newFile`, `Twins.setFile`, `Twins.addStream`, `Twins.setStream`: changes
  that keep hosts twins
-/

namespace RootedFS

namespace Host

variable {root k src dst : Key} {b n : Nat} {o o' h h' : Host} {node : Node}

/-! ## Sealed roots -/

/-- A host on which no link inside a root leads out of it: directories lead to the root, and every
link at or below it leads to it or below it. Entries there are named neither `.` nor `..`, and the
files of entries are there. -/
structure Sealed (root : Key) (h : Host) : Prop where
  names : ∀ a ∈ root, Path.IsName a
  way : ∀ k, k <+: root → k ≠ root → ∃ perm, h.tree.get? k = some (.directory perm)
  straight : ∀ k node, (k, node) ∈ h.tree.entries → Key.within root k = true → Straight k
  inward : ∀ k target, (k, Node.link target) ∈ h.tree.entries → Key.within root k = true →
    Inward root target
  filed : ∀ k n, (k, Node.file n) ∈ h.tree.entries → n < h.files.length

/-- A file has no place at a key or below it. -/
def Outer (root : Key) (h : Host) (n : Nat) : Prop :=
  n < h.files.length ∧ ∀ k, (k, Node.file n) ∈ h.tree.entries → Key.within root k = false

/-- Two hosts that are the same at and below a root: the same entries with the same times, and the
same files there. They have as many files and streams, so that new ones get the same numbers, and
the caller has the same rights on both. -/
structure Alike (root : Key) (h h' : Host) : Prop where
  inside : h.tree.inside root = h'.tree.inside root
  files : ∀ k n, (k, Node.file n) ∈ (h.tree.inside root).entries → h.file n = h'.file n
  files_length : h.files.length = h'.files.length
  streams_length : h.streams.length = h'.streams.length
  superuser : h.superuser = h'.superuser
  now : h.now = h'.now
  dates : ∀ moment k, Key.within root k = true → h.dates moment k = h'.dates moment k

theorem Alike.refl (root : Key) (h : Host) : Alike root h h :=
  ⟨rfl, fun _ _ _ => rfl, rfl, rfl, rfl, rfl, fun _ _ _ => rfl⟩

/-- A file before and after its content has changed: it is the file that it was, with its
permissions, except those that a change of the content takes from it. -/
structure Regular.GoesOn (r r' : Regular) : Prop where
  standing : r'.standing = r.standing
  sink : r'.sink = r.sink
  perm : r'.perm = r.perm ∨ r'.perm = unprivileged r.perm

theorem unprivileged_unprivileged (perm : Nat) :
    unprivileged (unprivileged perm) = unprivileged perm := by
  simp only [unprivileged]
  split <;> split <;> omega

namespace Regular.GoesOn

variable {r r' r'' : Regular}

theorem refl (r : Regular) : r.GoesOn r :=
  ⟨rfl, rfl, .inl rfl⟩

theorem change (h : r.GoesOn r') (content : Bytes) : r.GoesOn (r'.change content) := by
  unfold Regular.change
  split
  · exact h
  · refine ⟨h.standing, h.sink, .inr ?_⟩
    rcases h.perm with heq | heq
    · exact congrArg unprivileged heq
    · exact (congrArg unprivileged heq).trans (unprivileged_unprivileged _)

theorem trans (h : r.GoesOn r') (h' : r'.GoesOn r'') : r.GoesOn r'' := by
  refine ⟨h'.standing.trans h.standing, h'.sink.trans h.sink, ?_⟩
  rcases h.perm with heq | heq <;> rcases h'.perm with heq' | heq' <;> rw [heq] at heq'
  · exact .inl heq'
  · exact .inr heq'
  · exact .inr heq'
  · exact .inr (heq'.trans (unprivileged_unprivileged _))

end Regular.GoesOn

/-- What a host has outside a root is on another as it is: the entries that are neither at the root
nor below it, and the files that have no place there. A file that has a place there as well may have
another content, and goes on otherwise. -/
structure Untouched (root : Key) (h h' : Host) : Prop where
  entries : ∀ k, Key.within root k = false → h'.tree.get? k = h.tree.get? k
  files : ∀ n, h.Outer root n → h'.file n = h.file n
  goesOn : ∀ n, n < h.files.length → (h.file n).GoesOn (h'.file n)

/-- A file is there, was at first not outside alone on either host, and is the same on both. -/
structure Shared (root : Key) (o o' h h' : Host) (n : Nat) : Prop where
  lt : n < h.files.length
  inner : ¬o.Outer root n
  inner' : ¬o'.Outer root n
  file : h.file n = h'.file n

/-- Files are shared whatever entries and streams there are. -/
theorem Shared.of_files (hn : Shared root o o' h h' n) {g g' : Host} (hg : g.files = h.files)
    (hg' : g'.files = h'.files) : Shared root o o' g g' n where
  lt := hg ▸ hn.lt
  inner := hn.inner
  inner' := hn.inner'
  file := by
    rw [Host.file, Host.file, hg, hg']
    exact hn.file

/-- Two hosts that are the same inside, and outside are as two others; of their streams, those from
the number `b` on are the same. -/
structure Twins (root : Key) (b : Nat) (o o' h h' : Host) : Prop where
  left : Sealed root o
  right : Sealed root o'
  outside : h.tree.outside root = o.tree.outside root
  outside' : h'.tree.outside root = o'.tree.outside root
  files : ∀ n, o.Outer root n → h.file n = o.file n
  files' : ∀ n, o'.Outer root n → h'.file n = o'.file n
  goesOn : ∀ n, n < o.files.length → (o.file n).GoesOn (h.file n)
  grown : o.files.length ≤ h.files.length
  grown' : o'.files.length ≤ h'.files.length
  length : h.files.length = h'.files.length
  inside : h.tree.inside root = h'.tree.inside root
  straight : ∀ k node, (k, node) ∈ (h.tree.inside root).entries → Straight k
  inward : ∀ k target, (k, Node.link target) ∈ (h.tree.inside root).entries → Inward root target
  placed : ∀ k n, (k, Node.file n) ∈ (h.tree.inside root).entries → Shared root o o' h h' n
  base : b ≤ h.streams.length
  streams_length : h.streams.length = h'.streams.length
  streams : ∀ id, b ≤ id → h.streams[id]? = h'.streams[id]?
  opened : ∀ id s n, b ≤ id → h.streams[id]? = some s → s.file = some n → Shared root o o' h h' n
  superuser : h.superuser = h'.superuser
  now : h.now = h'.now
  dates : ∀ moment k, Key.within root k = true → h.dates moment k = h'.dates moment k

theorem mem_inside {t : Tree Node} :
    (k, node) ∈ (t.inside root).entries ↔ (k, node) ∈ t.entries ∧ Key.within root k = true := by
  rw [Tree.inside, List.mem_filter]

/-- A file with a place inside is not outside alone. -/
theorem not_outer (hk : (k, Node.file n) ∈ (h.tree.inside root).entries) : ¬h.Outer root n := by
  obtain ⟨hk, hin⟩ := mem_inside.1 hk
  rintro ⟨-, hout⟩
  rw [hout k hk] at hin
  cases hin

namespace Twins

/-- Two sealed hosts that are the same inside are twins, with no streams to speak of. -/
theorem of_sealed (ho : Sealed root o) (ho' : Sealed root o') (halike : Alike root o o') :
    Twins root o.streams.length o o' o o' where
  left := ho
  right := ho'
  outside := rfl
  outside' := rfl
  files _ _ := rfl
  files' _ _ := rfl
  goesOn _ _ := .refl _
  grown := Nat.le_refl _
  grown' := Nat.le_refl _
  length := halike.files_length
  inside := halike.inside
  straight k node hk := ho.straight k node (mem_inside.1 hk).1 (mem_inside.1 hk).2
  inward k target hk := ho.inward k target (mem_inside.1 hk).1 (mem_inside.1 hk).2
  placed := fun k n hk =>
    ⟨ho.filed k n (mem_inside.1 hk).1, not_outer hk, not_outer (halike.inside ▸ hk),
      halike.files k n hk⟩
  base := Nat.le_refl _
  streams_length := halike.streams_length
  streams := by
    intro id hid
    rw [List.getElem?_eq_none hid, List.getElem?_eq_none (halike.streams_length ▸ hid)]
  opened := by
    intro id s n hid hs
    rw [List.getElem?_eq_none hid] at hs
    cases hs
  superuser := halike.superuser
  now := halike.now
  dates := halike.dates

variable (ht : Twins root b o o' h h')
include ht

/-- What is outside is found as at first. -/
theorem get?_outside (hk : Key.within root k = false) : h.tree.get? k = o.tree.get? k := by
  rw [← Tree.get?_outside hk, ht.outside, Tree.get?_outside hk]

theorem get?_outside' (hk : Key.within root k = false) : h'.tree.get? k = o'.tree.get? k := by
  rw [← Tree.get?_outside hk, ht.outside', Tree.get?_outside hk]

theorem untouched : Untouched root o h where
  entries _ hk := ht.get?_outside hk
  files := ht.files
  goesOn := ht.goesOn

theorem alike : Alike root h h' where
  inside := ht.inside
  files := fun k n hk => (ht.placed k n hk).file
  files_length := ht.length
  streams_length := ht.streams_length
  superuser := ht.superuser
  now := ht.now
  dates := ht.dates

/-- Twins are sealed like the hosts that they were. -/
theorem sealed : Sealed root h where
  names := ht.left.names
  way := by
    intro k hk hne
    rw [ht.get?_outside (within_eq_false_of_way hk hne)]
    exact ht.left.way k hk hne
  straight := fun k node hk hin => ht.straight k node (mem_inside.2 ⟨hk, hin⟩)
  inward := fun k target hk hin => ht.inward k target (mem_inside.2 ⟨hk, hin⟩)
  filed := by
    intro k n hk
    by_cases hin : Key.within root k = true
    · exact (ht.placed k n (mem_inside.2 ⟨hk, hin⟩)).lt
    · have hout : (k, Node.file n) ∈ (h.tree.outside root).entries :=
        List.mem_filter.2 ⟨hk, by simpa using hin⟩
      rw [ht.outside] at hout
      exact Nat.lt_of_lt_of_le (ht.left.filed k n (List.mem_of_mem_filter hout)) ht.grown

/-- Walks headed inside are the same on twins. -/
theorem same : SameInside root h.tree h'.tree where
  names := ht.left.names
  inside := ht.inside
  way := by
    intro k hk hne
    rw [ht.get?_outside (within_eq_false_of_way hk hne)]
    exact ht.left.way k hk hne
  way' := by
    intro k hk hne
    rw [ht.get?_outside' (within_eq_false_of_way hk hne)]
    exact ht.right.way k hk hne
  inward := fun k target hk hin => ht.inward k target (mem_inside.2 ⟨hk, hin⟩)

/-- Names in a directory inside are straight. -/
theorem straight_child {a : String} (hk : Key.within root k = true)
    (ha : a ∈ h.tree.children k) : Straight [a] := by
  -- some entry goes on from the directory by that name, and is inside
  obtain ⟨rest, hmem⟩ := Tree.mem_children.1 ha
  obtain ⟨⟨j, node⟩, hentry, rfl⟩ := List.mem_map.1 hmem
  have hin : Key.within root (k ++ a :: rest) = true := by
    obtain ⟨l, rfl⟩ := Key.within_iff.1 hk
    rw [List.append_assoc, Key.within_append]
  have hstraight := ht.straight _ node (mem_inside.2 ⟨hentry, hin⟩)
  have htail := straight_cons.1 (straight_append.1 hstraight).2
  exact straight_cons.2 ⟨htail.1, by simp [Straight]⟩

/-- What is told of an entry inside is the same on twins. -/
theorem status_eq (hk : Key.within root k = true) (hget : h.tree.get? k = some node) :
    h'.status k node = h.status k node := by
  have hdate : h'.date k = h.date k := by
    rw [Host.date, Host.date, ht.now, ht.dates _ k hk]
  cases node with
  | directory perm => rw [Host.status, Host.status, hdate]
  | file n =>
    have hn := ht.placed k n (mem_inside.2 ⟨Tree.mem_entries_of_get? hget, hk⟩)
    rw [Host.status, Host.status, hn.file, hdate]
  | link target => rw [Host.status, Host.status, hdate]

/-- The caller may open a shared file on both. -/
theorem grants_eq (hn : Shared root o o' h h' n) (flags : OpenFlags) :
    h'.grants n flags = h.grants n flags := by
  rw [grants, grants, permits, permits, permits, permits, hn.file, ht.superuser]

/-- Time passes on both. -/
theorem pass : Twins root b o o' { h with now := h.now + 1 } { h' with now := h'.now + 1 } where
  __ := ht
  placed := fun k n hk => (ht.placed k n hk).of_files rfl rfl
  opened := fun id s n hid hs hn => (ht.opened id s n hid hs hn).of_files rfl rfl
  now := congrArg (· + 1) ht.now

/-- The entries inside come from entries inside, or are allowed there. -/
theorem withTree {f : Tree Node → Tree Node} (hout : ∀ t, (f t).outside root = t.outside root)
    (hin : ∀ t, (f t).inside root = f (t.inside root))
    (hentries : ∀ k node, (k, node) ∈ (f (h.tree.inside root)).entries → Straight k ∧
      ((∃ k', (k', node) ∈ (h.tree.inside root).entries) ∨
        (∀ target, node = .link target → Inward root target) ∧
        ∀ n, node = .file n → Shared root o o' h h' n)) :
    Twins root b o o' { h with tree := f h.tree } { h' with tree := f h'.tree } where
  left := ht.left
  right := ht.right
  outside := (hout _).trans ht.outside
  outside' := (hout _).trans ht.outside'
  files := ht.files
  files' := ht.files'
  goesOn := ht.goesOn
  grown := ht.grown
  grown' := ht.grown'
  length := ht.length
  inside := by
    dsimp only
    rw [hin, hin, ht.inside]
  straight := by
    intro k node hk
    dsimp only at hk
    rw [hin] at hk
    exact (hentries k node hk).1
  inward := by
    intro k target hk
    dsimp only at hk
    rw [hin] at hk
    rcases (hentries k _ hk).2 with ⟨k', hk'⟩ | ⟨hlink, -⟩
    · exact ht.inward k' target hk'
    · exact hlink target rfl
  placed := by
    intro k n hk
    dsimp only at hk
    rw [hin] at hk
    rcases (hentries k _ hk).2 with ⟨k', hk'⟩ | ⟨-, hfile⟩
    · exact (ht.placed k' n hk').of_files rfl rfl
    · exact (hfile n rfl).of_files rfl rfl
  base := ht.base
  streams_length := ht.streams_length
  streams := ht.streams
  opened := fun id s n hid hs hn => (ht.opened id s n hid hs hn).of_files rfl rfl
  superuser := ht.superuser
  now := ht.now
  dates := ht.dates

/-- An entry is put inside. -/
theorem insert (hk : Key.within root k = true) (hstraight : Straight k)
    (hlink : ∀ target, node = .link target → Inward root target)
    (hfile : ∀ n, node = .file n → Shared root o o' h h' n) :
    Twins root b o o' { h with tree := h.tree.insert k node }
      { h' with tree := h'.tree.insert k node } := by
  refine ht.withTree (f := fun t => t.insert k node) (fun t => Tree.outside_insert hk t node)
    (fun t => Tree.inside_insert hk t node) ?_
  intro j node' hj
  rcases List.mem_cons.1 hj with heq | hj
  · cases heq
    exact ⟨hstraight, .inr ⟨hlink, hfile⟩⟩
  · have hold := List.mem_of_mem_filter hj
    exact ⟨ht.straight j node' hold, .inl ⟨j, hold⟩⟩

/-- An entry inside is taken out. -/
theorem erase (hk : Key.within root k = true) :
    Twins root b o o' { h with tree := h.tree.erase k } { h' with tree := h'.tree.erase k } := by
  refine ht.withTree (f := fun t => t.erase k) (fun t => Tree.outside_erase hk t)
    (fun t => Tree.inside_erase t root k) ?_
  intro j node hj
  have hold := List.mem_of_mem_filter hj
  exact ⟨ht.straight j node hold, .inl ⟨j, hold⟩⟩

/-- What is at and below a key inside is taken to another. -/
theorem move (hsrc : Key.within root src = true) (hdst : Key.within root dst = true)
    (hstraight : Straight dst) :
    Twins root b o o' { h with tree := h.tree.move src dst }
      { h' with tree := h'.tree.move src dst } := by
  refine ht.withTree (f := fun t => t.move src dst) (fun t => Tree.outside_move hsrc hdst t)
    (fun t => Tree.inside_move hsrc hdst t) ?_
  intro j node hj
  obtain ⟨⟨k, node'⟩, hk, heq⟩ := List.mem_map.1 hj
  cases heq
  have hold := List.mem_of_mem_filter hk
  have hkey := ht.straight k node' hold
  refine ⟨?_, .inl ⟨k, hold⟩⟩
  dsimp only
  rw [Tree.rebase]
  cases hbelow : Key.below? src k with
  | none => exact hkey
  | some rest =>
    rw [Key.below?_eq_some_iff.1 hbelow] at hkey
    exact straight_append.2 ⟨hstraight, (straight_append.1 hkey).2⟩

/-! ### Files -/

/-- A new file is none that has a place outside. -/
theorem newFile (r : Regular) :
    Twins root b o o' { h with files := h.files ++ [r] } { h' with files := h'.files ++ [r] } ∧
      Shared root o o' { h with files := h.files ++ [r] } { h' with files := h'.files ++ [r] }
        h.files.length := by
  have hold : ∀ {n}, n < h.files.length →
      ({ h with files := h.files ++ [r] } : Host).file n = h.file n := fun hn =>
    file_append_of_lt hn r
  have hold' : ∀ {n}, n < h.files.length →
      ({ h' with files := h'.files ++ [r] } : Host).file n = h'.file n := fun hn =>
    file_append_of_lt (ht.length ▸ hn) r
  have hshared : ∀ {n}, Shared root o o' h h' n →
      Shared root o o' { h with files := h.files ++ [r] } { h' with files := h'.files ++ [r] } n :=
    fun hn => ⟨by simpa using Nat.lt_succ_of_lt hn.lt, hn.inner, hn.inner',
      (hold hn.lt).trans (hn.file.trans (hold' hn.lt).symm)⟩
  have hout : ∀ n, o.Outer root n → n < h.files.length := fun n hn =>
    Nat.lt_of_lt_of_le hn.1 ht.grown
  have hout' : ∀ n, o'.Outer root n → n < h.files.length := fun n hn => by
    rw [ht.length]
    exact Nat.lt_of_lt_of_le hn.1 ht.grown'
  constructor
  · exact { ht with
      files := fun n hn => (hold (hout n hn)).trans (ht.files n hn)
      files' := fun n hn => (hold' (hout' n hn)).trans (ht.files' n hn)
      goesOn := fun n hn => by
        rw [hold (Nat.lt_of_lt_of_le hn ht.grown)]
        exact ht.goesOn n hn
      grown := by simpa using Nat.le_succ_of_le ht.grown
      grown' := by simpa using Nat.le_succ_of_le ht.grown'
      length := by simp [ht.length]
      placed := fun k n hk => hshared (ht.placed k n hk)
      opened := fun id s n hid hs hn => hshared (ht.opened id s n hid hs hn) }
  · refine ⟨by simp, fun hn => ?_, fun hn => ?_, ?_⟩
    · exact Nat.lt_irrefl _ (hout _ hn)
    · exact Nat.lt_irrefl _ (hout' _ hn)
    · rw [file_append_length, ht.length, file_append_length]

/-- The content of a shared file is changed. -/
theorem setFile (hn : Shared root o o' h h' n) {r : Regular} (hr : (h.file n).GoesOn r) :
    Twins root b o o' { h with files := h.files.set n r } { h' with files := h'.files.set n r } ∧
      Shared root o o' { h with files := h.files.set n r } { h' with files := h'.files.set n r }
        n := by
  have hlt' := hn.lt
  rw [ht.length] at hlt'
  have hshared : ∀ {j}, Shared root o o' h h' j → Shared root o o'
      { h with files := h.files.set n r } { h' with files := h'.files.set n r } j := by
    refine fun {j} hj => ⟨by simpa using hj.lt, hj.inner, hj.inner', ?_⟩
    rw [file_set hn.lt, file_set hlt', hj.file]
  refine ⟨{ ht with
    files := fun j hj => ?_
    files' := fun j hj => ?_
    goesOn := fun j hj => ?_
    grown := by simpa using ht.grown
    grown' := by simpa using ht.grown'
    length := by simpa using ht.length
    placed := fun k j hk => hshared (ht.placed k j hk)
    opened := fun id s j hid hs hj => hshared (ht.opened id s j hid hs hj) }, hshared hn⟩
  · rw [file_set hn.lt, if_neg, ht.files j hj]
    rintro rfl
    exact hn.inner hj
  · rw [file_set hlt', if_neg, ht.files' j hj]
    rintro rfl
    exact hn.inner' hj
  · rw [file_set hn.lt]
    split
    · rename_i heq
      subst heq
      exact (ht.goesOn j hj).trans hr
    · exact ht.goesOn j hj

/-! ### Streams -/

/-- A stream on a shared file is opened. -/
theorem addStream {s : Stream} (hs : ∀ n, s.file = some n → Shared root o o' h h' n) :
    Twins root b o o' { h with streams := h.streams ++ [s] }
      { h' with streams := h'.streams ++ [s] } where
  __ := ht
  placed := fun k n hk => (ht.placed k n hk).of_files rfl rfl
  base := by simpa using Nat.le_succ_of_le ht.base
  streams_length := by simp [ht.streams_length]
  streams := by
    intro id hid
    simp only [List.getElem?_append, ht.streams_length, ht.streams id hid]
  opened := by
    intro id s' n hid hs' hn
    rw [List.getElem?_append] at hs'
    split at hs'
    · exact (ht.opened id s' n hid hs' hn).of_files rfl rfl
    · have heq : s' = s := by
        rcases Nat.eq_zero_or_pos (id - h.streams.length) with hzero | hpos
        · rw [hzero] at hs'
          exact (Option.some.inj hs').symm
        · rw [List.getElem?_eq_none hpos] at hs'
          cases hs'
      exact (hs n (heq ▸ hn)).of_files rfl rfl

/-- A stream goes on, on the same file. -/
theorem setStream {id : Nat} {s : Stream} (hs : ∀ n, s.file = some n → Shared root o o' h h' n) :
    Twins root b o o' { h with streams := h.streams.set id s }
      { h' with streams := h'.streams.set id s } where
  __ := ht
  placed := fun k n hk => (ht.placed k n hk).of_files rfl rfl
  base := by simpa using ht.base
  streams_length := by simp [ht.streams_length]
  streams := by
    intro j hj
    simp only [List.getElem?_set, ht.streams_length, ht.streams j hj]
  opened := by
    intro j s' n hj hs' hn
    rw [List.getElem?_set] at hs'
    split at hs'
    · split at hs'
      · exact (hs n (Option.some.inj hs' ▸ hn)).of_files rfl rfl
      · cases hs'
    · exact (ht.opened j s' n hj hs' hn).of_files rfl rfl

end Twins

end Host

end RootedFS
