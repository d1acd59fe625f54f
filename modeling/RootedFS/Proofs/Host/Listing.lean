import RootedFS.FileSystem.Basic
import RootedFS.Proofs.Calls
import RootedFS.Proofs.Host.Entries
import RootedFS.Proofs.Host.Walk

/-!
# Listings on the host

A path that leads to a directory of the host, by whatever links, leads on to the entries of that
directory. A listing tells each of them by the status of what it leads to. A link to nothing is told
by its own status, and it is the only kind of link that leads nowhere and is told at all: one that
leads into a loop or through a file, or too far, makes the whole listing fail.

## Main definitions

* `Host.Planted`: a tree whose entries have names and stand in directories
* `Host.Resolves`: a path that leads somewhere, or to nothing
* `Host.Told`: the status by which an entry is told
* `Host.Listed`: a listing of a directory

## Main results

* `Host.walkFrom_append`: a walk to a directory goes on from there
* `Host.lookup_upTo_append`: the entries of a directory are found by any path that leads to it
* `FileSystem.list_host`: a directory is listed if all its entries lead somewhere, or to nothing
* `FileSystem.list_host_stuck`: if one does not, the listing fails as it does
-/

namespace RootedFS

namespace Host

open Memory Rooted

variable {t : Tree Node} {m : Manner} {k k' rest : Key} {route route' more : List String}
  {a : String} {node : Node} {perm : Nat} {h : Host} {why : Refusal}

/-- A tree whose entries have names and stand in directories. -/
structure Planted (t : Tree Node) : Prop where
  names : ∀ k, (t.get? k).isSome = true → ∀ a ∈ k, Path.IsName a
  standing : ∀ k a, (t.get? (k ++ [a])).isSome = true → ∃ perm, t.get? k = some (.directory perm)

namespace Planted

variable (ht : Planted t)
include ht

/-- Whatever has something below it is a directory. -/
theorem directory_of_append (hrest : rest ≠ []) (hsome : (t.get? (k ++ rest)).isSome = true) :
    ∃ perm, t.get? k = some (.directory perm) := by
  induction rest using List.reverseRecOn with
  | nil => exact absurd rfl hrest
  | append_singleton rest a ih =>
    rw [← List.append_assoc] at hsome
    obtain ⟨perm, hperm⟩ := ht.standing _ a hsome
    by_cases hnil : rest = []
    · rw [hnil, List.append_nil] at hperm
      exact ⟨perm, hperm⟩
    · exact ih hnil (by rw [hperm]; rfl)

/-- What leads to an entry is there itself. -/
theorem isSome_of_append (hsome : (t.get? (k ++ rest)).isSome = true) :
    (t.get? k).isSome = true := by
  by_cases hrest : rest = []
  · rwa [hrest, List.append_nil] at hsome
  · obtain ⟨perm, hperm⟩ := ht.directory_of_append hrest hsome
    rw [hperm]
    rfl

/-- Without what is directly below a key, nothing is below it. -/
theorem get?_append (hbare : ∀ a, t.get? (k ++ [a]) = none) (hrest : rest ≠ []) :
    t.get? (k ++ rest) = none := by
  obtain ⟨a, rest, rfl⟩ := List.exists_cons_of_ne_nil hrest
  by_contra hne
  have hsome := Option.ne_none_iff_isSome.1 hne
  rw [List.append_cons] at hsome
  have hchild := ht.isSome_of_append hsome
  rw [hbare a] at hchild
  cases hchild

/-- What leads to an entry is a way of directories. -/
theorem way (hsome : (t.get? (k ++ [a])).isSome = true) : Way t k := by
  rintro j ⟨rest, rfl⟩
  rw [List.append_assoc] at hsome
  exact ht.directory_of_append (by simp) hsome

theorem mem_children : a ∈ t.children k ↔ (t.get? (k ++ [a])).isSome = true := by
  rw [Tree.mem_children]
  constructor
  · rintro ⟨rest, hrest⟩
    rw [Tree.mem_keys, List.append_cons] at hrest
    exact ht.isSome_of_append hrest
  · exact fun hsome => ⟨[], Tree.mem_keys.2 hsome⟩

end Planted

/-- Whether a tree is planted is told by its entries. -/
theorem planted_iff :
    Planted t ↔ ∀ e ∈ t.entries, (∀ a ∈ e.1, Path.IsName a) ∧
      (e.1 = [] ∨ (t.get? e.1.parent).any Node.isDirectory = true) := by
  have hkeys : ∀ {k}, (t.get? k).isSome = true ↔ ∃ e ∈ t.entries, e.1 = k := by
    intro k
    rw [← Tree.mem_keys, Tree.keys, List.mem_map]
  constructor
  · intro ht e he
    have hsome := hkeys.2 ⟨e, he, rfl⟩
    refine ⟨ht.names _ hsome, ?_⟩
    rcases List.eq_nil_or_concat e.1 with hnil | ⟨k, a, hk⟩
    · exact .inl hnil
    · rw [List.concat_eq_append] at hk
      rw [hk] at hsome ⊢
      obtain ⟨perm, hperm⟩ := ht.standing k a hsome
      right
      rw [Key.parent_append_singleton, hperm]
      rfl
  · intro h
    refine ⟨fun k hsome => ?_, fun k a hsome => ?_⟩
    · obtain ⟨e, he, rfl⟩ := hkeys.1 hsome
      exact (h e he).1
    · obtain ⟨e, he, hk⟩ := hkeys.1 hsome
      have hparent := (h e he).2.resolve_left (by simp [hk])
      rw [hk, Key.parent_append_singleton] at hparent
      cases hget : t.get? k with
      | none =>
        rw [hget] at hparent
        cases hparent
      | some node =>
        rw [hget] at hparent
        cases node with
        | directory perm => exact ⟨perm, rfl⟩
        | file n => cases hparent
        | link target => cases hparent

instance (t : Tree Node) : Decidable (Planted t) :=
  decidable_of_iff _ planted_iff.symm

/-! ## Walks one name further -/

/-- A leg to a link leads to it when the path goes on. -/
theorem leg_append_of_link (hm : m.forFile = false) (hmore : more ≠ [])
    (hleg : leg .through t k route = .link k' route') :
    leg m t k (route ++ more) = .link k' (route' ++ more) := by
  fun_induction leg .through t k route with
  | case3 k piece rest hskip ih =>
    rw [List.cons_append, leg, if_pos hskip]
    exact ih hleg
  | case4 k rest hskip ih =>
    rw [List.cons_append, leg, if_neg hskip, if_pos rfl]
    exact ih hleg
  | case9 k piece rest hskip hup hfile hlong perm hget ih =>
    rw [List.cons_append, leg_entry hskip hup (not_slash hm) hlong, hget]
    exact ih hleg
  | case13 k piece rest hskip hup hfile hlong target hget hend =>
    obtain ⟨rfl, rfl⟩ := Leg.link.inj hleg
    rw [List.cons_append, leg_entry hskip hup (not_slash hm) hlong, hget]
    simp [hmore]
  | _ => cases hleg

/-- A leg that ends at a directory goes on from there. -/
theorem leg_append_of_directory (hm : m.forFile = false)
    (hleg : leg .through t k route = .done (.entry k' (.directory perm))) :
    leg m t k (route ++ more) = leg m t k' more := by
  fun_induction leg .through t k route with
  | case1 k node hget =>
    obtain ⟨rfl, -⟩ := Found.entry.inj (Leg.done.inj hleg)
    rfl
  | case3 k piece rest hskip ih =>
    rw [List.cons_append, leg, if_pos hskip]
    exact ih hleg
  | case4 k rest hskip ih =>
    rw [List.cons_append, leg, if_neg hskip, if_pos rfl]
    exact ih hleg
  | case9 k piece rest hskip hup hfile hlong perm hget ih =>
    rw [List.cons_append, leg_entry hskip hup (not_slash hm) hlong, hget]
    exact ih hleg
  | case12 k piece rest hskip hup hfile hlong target hget hend => exact absurd rfl hend.2
  | _ => cases hleg

/-- A walk that ends at a directory goes on from there, with the links that it has left. -/
theorem walkFrom_append (hm : m.forFile = false) (hmore : more ≠ []) {n : Nat}
    (hwalk : walkFrom .through t n k route = .ok (.entry k' (.directory perm))) :
    ∃ n', walkFrom m t n k (route ++ more) = walkFrom m t n' k' more := by
  fun_induction walkFrom .through t n k route with
  | case1 links k route found hleg =>
    rw [Except.ok.injEq] at hwalk
    subst hwalk
    refine ⟨links, ?_⟩
    rw [walkFrom, leg_append_of_directory hm hleg, walkFrom]
  | case2 | case3 => cases hwalk
  | case4 k route k₁ route₁ hleg links ih =>
    obtain ⟨n', hn'⟩ := ih hwalk
    refine ⟨n', ?_⟩
    rw [walkFrom, leg_append_of_link hm hmore hleg]
    exact hn'

theorem walkFrom_of_walk {found : Found} (hwalk : walk m t route = .ok found) :
    walkFrom m t maxLinks [] route = .ok found := by
  rwa [walk_eq (pathRefusal?_of_walk hwalk)] at hwalk

/-- A directory that a path leads to is where the path goes on, if its text is a path. -/
theorem exists_walk_append (hm : m.forFile = false) (hmore : more ≠ [])
    (hdir : lookup .through t route = .ok (k, .directory perm))
    (htext : pathRefusal? (Key.toString (route ++ more)) = none) :
    ∃ n, walk m t (route ++ more) = walkFrom m t n k more := by
  rw [walk_eq htext]
  exact walkFrom_append hm hmore (walkFrom_of_walk (walk_of_lookup hdir))

/-- An entry of a directory is found by any path that leads to the directory, unless its name or the
path is too long or the path holds a null character. -/
theorem lookup_upTo_append (hdir : lookup .through t route = .ok (k, .directory perm))
    (ha : Path.IsName a) (hget : t.get? (k ++ [a]) = some node)
    (htext : pathRefusal? (Key.toString (route ++ [a])) = none)
    (hfits : lookup .through t (route ++ [a]) ≠ .error .nameTooLong) :
    lookup .upTo t (route ++ [a]) = .ok (k ++ [a], node) := by
  have hname : a.utf8ByteSize ≤ maxName := by
    by_contra hlong
    obtain ⟨n, hn⟩ := exists_walk_append (m := .through) rfl (by simp) hdir htext
    refine hfits ?_
    rw [lookup, hn, walkFrom, leg, if_neg (not_or.2 ⟨ha.ne_empty, ha.ne_dot⟩), if_neg ha.ne_dots,
      if_neg (by simp), if_pos (Nat.lt_of_not_le hlong)]
  obtain ⟨n, hn⟩ := exists_walk_append (m := .upTo) rfl (by simp) hdir htext
  have hleg : leg .upTo t k [a] = .done (.entry (k ++ [a]) node) := by
    rw [leg_name ha hname (by simp), hget]
    cases node with
    | directory perm' => simp [leg, hget]
    | file number => rfl
    | link target => simp [Manner.upTo]
  rw [lookup, hn, walkFrom, hleg]

/-! ## Statuses of entries -/

/-- A path leads somewhere, or to nothing: it does not lead into a loop or through a file, and it is
not too long and holds no null character. -/
def Resolves (t : Tree Node) (route : List String) : Prop :=
  ∀ why, lookup .through t route = .error why → why.kind = .missing

/-- A status by which the entry at `k` is told: that of what `route` leads to or, if it leads to
nothing, the entry's own. -/
inductive Told (h : Host) (route : List String) (k : Key) (node : Node) : Status → Prop
  | through {l : Key} {found : Node} (hfound : lookup .through h.tree route = .ok (l, found)) :
    Told h route k node (h.status l found)
  | itself {why : Refusal} (hlost : lookup .through h.tree route = .error why)
    (hwhy : why.kind = .missing) : Told h route k node (h.status k node)

theorem Told.exists_info {status : Status} (htold : Told h route k node status)
    (hu : h.Unhindered) (name : String) : ∃ i, info name status = .ok i := by
  cases htold <;> exact hu.exists_info name _ _

instance (t : Tree Node) (route : List String) : Decidable (Resolves t route) :=
  match h : lookup .through t route with
  | .ok _ => isTrue (by simp [Resolves, h])
  | .error why => decidable_of_iff (why.kind = .missing) (by simp [Resolves, h])

/-- A path that leads somewhere, or to nothing, is one that is walked. -/
theorem Resolves.text (hres : Resolves t route) : pathRefusal? (Key.toString route) = none := by
  cases htext : pathRefusal? (Key.toString route) with
  | none => rfl
  | some why =>
    have hwhy : why.kind = .missing := hres why (by rw [lookup, walk_eq_error htext])
    exact absurd hwhy (kind_of_pathRefusal? htext)

theorem Resolves.ne_nameTooLong (hres : Resolves t route) :
    lookup .through t route ≠ .error .nameTooLong := by
  intro hlong
  cases hres _ hlong

theorem run_entryStatus_error (hlost : lookup .through h.tree route = .error why)
    (hwhy : why.kind ≠ .missing) :
    (entryStatus route).run h = .error (.forPath why (Key.toString route)) h := by
  have hkind : (Fault.forPath why (Key.toString route)).kind ≠ .missing := by
    rwa [Fault.kind_forPath]
  rw [entryStatus, run_tryCatch, run_stat, hlost]
  exact congrFun (if_neg hkind) h

/-- An entry that leads somewhere, or to nothing, has a status. -/
theorem exists_run_entryStatus (hentry : lookup .upTo h.tree route = .ok (k, node))
    (hres : Resolves h.tree route) :
    ∃ status, (entryStatus route).run h = .ok status h ∧ Told h route k node status := by
  cases hlookup : lookup .through h.tree route with
  | ok found =>
    refine ⟨_, ?_, .through hlookup⟩
    rw [entryStatus, run_tryCatch, run_stat, hlookup]
  | error why =>
    refine ⟨_, ?_, .itself hlookup (hres why hlookup)⟩
    have hkind : (Fault.forPath why (Key.toString route)).kind = .missing := by
      rw [Fault.kind_forPath]
      exact hres why hlookup
    rw [entryStatus, run_tryCatch, run_stat, hlookup]
    dsimp only
    rw [if_pos hkind, run_lstat, hentry]

/-! ## Listings -/

/-- A listing of the directory at `k`, which `route` leads to: its entries with their names in
order, each told by a status. -/
structure Listed (h : Host) (route : List String) (k : Key) (l : List (EntryInfo Status)) :
    Prop where
  sorted : (l.map EntryInfo.name).Pairwise (· < ·)
  complete : ∀ a, a ∈ l.map EntryInfo.name ↔ (h.tree.get? (k ++ [a])).isSome = true
  told : ∀ i ∈ l, ∃ node status j, h.tree.get? (k ++ [i.name]) = some node ∧
    Told h (route ++ [i.name]) (k ++ [i.name]) node status ∧ info i.name status = .ok j ∧
      i = .plain j

/-- Steps that only read answer one after another. -/
theorem exists_run_mapM {α β σ : Type} {f : α → EStateM Fault σ β} {g : β → α} {P : β → Prop}
    {l : List α} {s : σ} (hf : ∀ a ∈ l, ∃ b, (f a).run s = .ok b s ∧ g b = a ∧ P b) :
    ∃ l', (l.mapM f).run s = .ok l' s ∧ l'.map g = l ∧ ∀ b ∈ l', P b := by
  induction l with
  | nil => exact ⟨[], rfl, rfl, by simp⟩
  | cons a l ih =>
    obtain ⟨b, hb, rfl, hP⟩ := hf a List.mem_cons_self
    obtain ⟨l', hl', rfl, hPs⟩ := ih fun c hc => hf c (List.mem_cons_of_mem _ hc)
    refine ⟨b :: l', ?_, rfl, List.forall_mem_cons.2 ⟨hP, hPs⟩⟩
    rw [List.mapM_cons, run_bind_ok hb, run_bind_ok hl']
    rfl

/-- Steps that only read fail with the first of them that fails. -/
theorem exists_run_mapM_error {α β σ : Type} {f : α → EStateM Fault σ β} {P : α → Fault → Prop}
    {l : List α} {s : σ}
    (hf : ∀ a ∈ l, (∃ b, (f a).run s = .ok b s) ∨ ∃ e, (f a).run s = .error e s ∧ P a e)
    (hne : ∃ a ∈ l, ∃ e, (f a).run s = .error e s) :
    ∃ a ∈ l, ∃ e, (l.mapM f).run s = .error e s ∧ P a e := by
  induction l with
  | nil => simp at hne
  | cons a l ih =>
    rcases hf a List.mem_cons_self with ⟨b, hb⟩ | ⟨e, he, hP⟩
    · have htail : ∃ c ∈ l, ∃ e, (f c).run s = .error e s := by
        obtain ⟨c, hc, e, he⟩ := hne
        rcases List.mem_cons.1 hc with rfl | hc
        · rw [hb] at he
          cases he
        · exact ⟨c, hc, e, he⟩
      obtain ⟨c, hc, e, he, hP⟩ := ih (fun c hc => hf c (List.mem_cons_of_mem a hc)) htail
      refine ⟨c, List.mem_cons_of_mem a hc, e, ?_, hP⟩
      rw [List.mapM_cons, run_bind_ok hb, run_bind_error he]
    · refine ⟨a, List.mem_cons_self, e, ?_, hP⟩
      rw [List.mapM_cons, run_bind_error he]

/-- The metadata of an entry of the directory that a path leads to. -/
def entryInfo (route : List String) (a : String) : HostM (FileInfo Status) := do
  let status ← entryStatus (route ++ [a])
  MonadExcept.ofExcept (info a status)

theorem exists_run_entryInfo_error (hnot : ¬Resolves h.tree (route ++ [a])) :
    ∃ why, lookup .through h.tree (route ++ [a]) = .error why ∧ why.kind ≠ .missing ∧
      (entryInfo route a).run h = .error (.forPath why (Key.toString (route ++ [a]))) h := by
  simp only [Resolves, not_forall] at hnot
  obtain ⟨why, hlost, hwhy⟩ := hnot
  exact ⟨why, hlost, hwhy, run_bind_error (run_entryStatus_error hlost hwhy)⟩

section

variable (ht : Planted h.tree) (hu : h.Unhindered)
  (hdir : lookup .through h.tree route = .ok (k, .directory perm))
include ht hu hdir

/-- An entry of a directory that leads somewhere, or to nothing, is told by a status. -/
theorem exists_run_entryInfo (hsome : (h.tree.get? (k ++ [a])).isSome = true)
    (hres : Resolves h.tree (route ++ [a])) :
    ∃ i, (entryInfo route a).run h = .ok i h ∧ i.name = a ∧
      ∃ node status, h.tree.get? (k ++ [i.name]) = some node ∧
        Told h (route ++ [i.name]) (k ++ [i.name]) node status ∧ info i.name status = .ok i := by
  obtain ⟨node, hget⟩ := Option.isSome_iff_exists.1 hsome
  have hname : Path.IsName a := ht.names _ hsome a (by simp)
  have hentry := lookup_upTo_append hdir hname hget hres.text hres.ne_nameTooLong
  obtain ⟨status, hrun, htold⟩ := exists_run_entryStatus hentry hres
  obtain ⟨i, hinfo⟩ := htold.exists_info hu a
  have hi : (entryInfo route a).run h = .ok i h := by
    rw [entryInfo, run_bind_ok hrun, hinfo]
    rfl
  obtain ⟨rfl, -, -⟩ := info_ok hinfo
  exact ⟨i, hi, rfl, node, status, hget, htold, hinfo⟩

end

section

variable {root : Key} {path : String} (ht : Planted h.tree) (hu : h.Unhindered)
  (hdir : lookup .through h.tree (Rooted.route root path) = .ok (k, .directory perm))
include ht hu hdir

/-- Where all entries of a directory lead somewhere, or to nothing, it is listed. -/
theorem exists_run_list (hres : ∀ a, (h.tree.get? (k ++ [a])).isSome = true →
      Resolves h.tree (Rooted.route root path ++ [a])) :
    ∃ l, (Rooted.list root path).run h = .ok l h ∧
      Listed h (Rooted.route root path) k (l.map .plain) := by
  have hscan := run_scan (Rooted.route root path) h
  rw [hdir] at hscan
  obtain ⟨l, hrun, hnames, htold⟩ := exists_run_mapM fun a (ha : a ∈ h.tree.children k) =>
    exists_run_entryInfo ht hu hdir (ht.mem_children.1 ha) (hres a (ht.mem_children.1 ha))
  have hplain : (l.map EntryInfo.plain).map EntryInfo.name = h.tree.children k := by
    rw [List.map_map]
    exact hnames
  refine ⟨l, (run_bind_ok hscan).trans hrun, ?_, ?_, ?_⟩
  · rw [hplain]
    exact Tree.pairwise_children h.tree k
  · intro a
    rw [hplain]
    exact ht.mem_children
  · intro i hi
    obtain ⟨j, hj, rfl⟩ := List.mem_map.1 hi
    obtain ⟨node, status, hget, hstatus, hinfo⟩ := htold j hj
    exact ⟨node, status, j, hget, hstatus, hinfo, rfl⟩

/-- Where some entry leads neither somewhere nor to nothing, the listing fails as the lookup of such
an entry does. -/
theorem exists_run_list_error {b : String} (hsome : (h.tree.get? (k ++ [b])).isSome = true)
    (hnot : ¬Resolves h.tree (Rooted.route root path ++ [b])) :
    ∃ a why, (h.tree.get? (k ++ [a])).isSome = true ∧
      lookup .through h.tree (Rooted.route root path ++ [a]) = .error why ∧ why.kind ≠ .missing ∧
      (Rooted.list root path).run h =
        .error (.forPath why (Key.toString (Rooted.route root path ++ [a]))) h := by
  have hscan := run_scan (Rooted.route root path) h
  rw [hdir] at hscan
  obtain ⟨why, -, -, hfirst⟩ := exists_run_entryInfo_error hnot
  have hentries : ∀ a ∈ h.tree.children k,
      (∃ i, (entryInfo (Rooted.route root path) a).run h = .ok i h) ∨
        ∃ f, (entryInfo (Rooted.route root path) a).run h = .error f h ∧
          ∃ why, lookup .through h.tree (Rooted.route root path ++ [a]) = .error why ∧
            why.kind ≠ .missing ∧
            f = .forPath why (Key.toString (Rooted.route root path ++ [a])) := by
    intro a ha
    by_cases hres : Resolves h.tree (Rooted.route root path ++ [a])
    · obtain ⟨i, hi, -⟩ := exists_run_entryInfo ht hu hdir (ht.mem_children.1 ha) hres
      exact .inl ⟨i, hi⟩
    · obtain ⟨why, hlost, hwhy, hrun⟩ := exists_run_entryInfo_error hres
      exact .inr ⟨_, hrun, why, hlost, hwhy, rfl⟩
  obtain ⟨a, ha, f, hrun, why, hlost, hwhy, rfl⟩ :=
    exists_run_mapM_error hentries ⟨b, ht.mem_children.2 hsome, _, hfirst⟩
  exact ⟨a, why, ht.mem_children.1 ha, hlost, hwhy, (run_bind_ok hscan).trans hrun⟩

end

end Host

/-! ## Listings by a filesystem of the host -/

namespace FileSystem

open Host Memory World

variable {root k : Key} {path : String} {perm : Nat} {w : World}

/-- A directory of the host that a path leads to, by whatever links, is listed without a change: one
entry for each of its names, in order, told by the status of what the entry leads to or, where that
is nothing, by its own. No entry may lead into a loop, through a file or too far, and the host may
refuse nothing for want of a permission and tell no time that a calendar lacks. -/
theorem list_host (ht : Planted w.host.tree) (hu : w.host.Unhindered)
    (hdir : lookup .through w.host.tree (Rooted.route root path) = .ok (k, .directory perm))
    (hres : ∀ a, (w.host.tree.get? (k ++ [a])).isSome = true →
      Resolves w.host.tree (Rooted.route root path ++ [a])) :
    ∃ l, ((FileSystem.host root).list path).run w = .ok l w ∧
      Listed w.host (Rooted.route root path) k l := by
  obtain ⟨l, hrun, hlisted⟩ := exists_run_list ht hu hdir hres
  exact ⟨_, run_bind_ok (run_onHost_of_read hrun), hlisted⟩

/-- A world whose host has, in the directory `/srv/d`, a file, a link to a directory outside `/srv`,
a link to nothing and the link `l` with some target; the link `/srv/up` leads to that directory. -/
def hallWorld (target : String) : World where
  host.tree := ⟨[([], .directory 0o755), (["etc"], .directory 0o700), (["srv"], .directory 0o755),
    (["srv", "d"], .directory 0o755), (["srv", "d", "f"], .file 0), (["srv", "up"], .link "./d/"),
    (["srv", "d", "out"], .link "/etc"), (["srv", "d", "gone"], .link "../none"),
    (["srv", "d", "l"], .link target)]⟩
  host.files := [.owned [1, 2] 0o644]

/-- A directory is listed by a path through a link. -/
theorem list_host_through :
    (Planted (hallWorld "f").host.tree ∧ (hallWorld "f").host.Unhindered ∧
        lookup .through (hallWorld "f").host.tree (Rooted.route ["srv"] "x/..//up") =
          .ok (["srv", "d"], .directory 0o755) ∧
        ∀ a ∈ (hallWorld "f").host.tree.children ["srv", "d"],
          Resolves (hallWorld "f").host.tree (Rooted.route ["srv"] "x/..//up" ++ [a])) ∧
      ∃ l, ((FileSystem.host ["srv"]).list "x/..//up").run (hallWorld "f") =
          .ok l (hallWorld "f") ∧
        Listed (hallWorld "f").host (Rooted.route ["srv"] "x/..//up") ["srv", "d"] l := by
  have ht : Planted (hallWorld "f").host.tree := by decide +kernel
  have hdir : lookup .through (hallWorld "f").host.tree (Rooted.route ["srv"] "x/..//up") =
      .ok (["srv", "d"], .directory 0o755) := by decide +kernel
  have hres : ∀ a ∈ (hallWorld "f").host.tree.children ["srv", "d"],
      Resolves (hallWorld "f").host.tree (Rooted.route ["srv"] "x/..//up" ++ [a]) := by
    decide +kernel
  have hu : (hallWorld "f").host.Unhindered := ⟨rfl, fun _ _ => rfl⟩
  exact ⟨⟨ht, hu, hdir, hres⟩, list_host ht hu hdir fun a ha => hres a (ht.mem_children.2 ha)⟩

/-- An entry that leads into a loop, through a file or too far makes the whole listing fail. -/
theorem list_host_stuck (ht : Planted w.host.tree) (hu : w.host.Unhindered)
    (hdir : lookup .through w.host.tree (Rooted.route root path) = .ok (k, .directory perm))
    {b : String} (hsome : (w.host.tree.get? (k ++ [b])).isSome = true)
    (hnot : ¬Resolves w.host.tree (Rooted.route root path ++ [b])) :
    ∃ a why, (w.host.tree.get? (k ++ [a])).isSome = true ∧
      lookup .through w.host.tree (Rooted.route root path ++ [a]) = .error why ∧
      why.kind ≠ .missing ∧
      ((FileSystem.host root).list path).run w =
        .error (.forPath why (Key.toString (Rooted.route root path ++ [a]))) w := by
  obtain ⟨a, why, ha, hlost, hwhy, hrun⟩ := exists_run_list_error ht hu hdir hsome hnot
  exact ⟨a, why, ha, hlost, hwhy, run_bind_error (run_onHost_of_read_error hrun)⟩

/-- With one link that leads to itself, a directory is not listed at all. -/
theorem list_host_loop :
    Planted (hallWorld "l").host.tree ∧
      lookup .through (hallWorld "l").host.tree (Rooted.route ["srv"] "d") =
        .ok (["srv", "d"], .directory 0o755) ∧
      ((FileSystem.host ["srv"]).list "d").run (hallWorld "l") =
        .error (.onPath .linkLoop "/srv/d/l") (hallWorld "l") := by
  refine ⟨by decide +kernel, by decide +kernel, ?_⟩
  rfl

end FileSystem

end RootedFS
