import RootedFS.Proofs.Host.Inside
import RootedFS.Proofs.Host.Thinned
import RootedFS.Proofs.View.Removal

/-!
# Removing trees on the host

Removing the tree at a path takes out an entry of the host with all that is below it. Symbolic links
among these go themselves, and what they lead to stays, unless it is below the entry too. While
entries go one after another, a path leads where it did before or to nothing.

Before an entry is removed, it is asked what it leads to. A link to nothing is a link all the same,
but one that leads into a loop or through a file, or too far, is taken for a failure.

## Main definitions

* `Host.Removable`: an entry that can be removed with all that is below it
* `World.Loses`: a world without the entries of the host at some keys, notices aside
* `FileSystem.Clears`: removing takes out an entry, if nothing lies below the levels of calls

## Main results

* `FileSystem.clears`: by induction on the levels, with one level in `FileSystem.Clears.succ`
* `FileSystem.removeTree_host`: what a whole removal comes to
* `FileSystem.removeTree_host_stuck`, `FileSystem.removeTree_host_stuck_child`: an entry that leads
  into a loop, through a file or too far is not removed, nor is the directory that it is in
-/

namespace RootedFS

/-- Whether a key is at or below one of some children of a key. -/
def Key.under (k : Key) (names : List String) (j : Key) : Bool :=
  names.any fun a => within (k ++ [a]) j

theorem Key.under_iff {k j : Key} {names : List String} :
    under k names j = true ↔ ∃ a ∈ names, ∃ rest, j = k ++ a :: rest := by
  simp [under, within_iff]

/-- Where nothing is below an entry, only the entry itself goes. -/
theorem Tree.erase_eq_without {α : Type} {t : Tree α} {k : Key}
    (hbelow : ∀ rest, rest ≠ [] → t.get? (k ++ rest) = none) :
    t.erase k = t.without (Key.within k) := by
  change t.without (· == k) = t.without (Key.within k)
  refine without_congr fun j hj => ?_
  rw [mem_keys] at hj
  cases hin : Key.within k j with
  | false =>
    rw [beq_eq_false_iff_ne]
    rintro rfl
    exact Key.ne_of_within_eq_false hin rfl
  | true =>
    obtain ⟨rest, rfl⟩ := Key.within_iff.1 hin
    by_cases hnil : rest = []
    · simp [hnil]
    · rw [hbelow rest hnil] at hj
      cases hj

namespace Host

open Memory Rooted

variable {t : Tree Node} {m : Manner} {k l : Key} {a : String} {node : Node} {gone : Key → Bool}
  {h : Host}

/-! ## Entries that resolve -/

/-- On the way to an entry, a leg fails at the first name that is too long. -/
theorem leg_long (ht : Planted t) (hm : m.forFile = false) (hsome : (t.get? (k ++ l)).isSome = true)
    (hlong : ∃ b ∈ l, maxName < b.utf8ByteSize) : leg m t k l = .failed .nameTooLong := by
  induction l generalizing k with
  | nil => simp at hlong
  | cons b l ih =>
    have hb : Path.IsName b := ht.names _ hsome b (by simp)
    have hskip : ¬(b = "" ∨ b = ".") := not_or.2 ⟨hb.ne_empty, hb.ne_dot⟩
    by_cases hbl : maxName < b.utf8ByteSize
    · rw [leg, if_neg hskip, if_neg hb.ne_dots, if_neg (by simp [hm]), if_pos hbl]
    · obtain ⟨c, hc, hcl⟩ := hlong
      have hcl' : c ∈ l := by
        rcases List.mem_cons.1 hc with rfl | hc
        · exact absurd hcl hbl
        · exact hc
      rw [List.append_cons] at hsome
      obtain ⟨perm, hperm⟩ := ht.directory_of_append (List.ne_nil_of_mem hcl') hsome
      rw [leg, if_neg hskip, if_neg hb.ne_dots, if_neg (by simp [hm]), if_neg hbl, hperm]
      exact ih hsome ⟨c, hcl', hcl⟩

/-- An entry that resolves by its own key is short enough for the host. -/
theorem fits_of_resolves (ht : Planted t) (hsome : (t.get? k).isSome = true)
    (hres : Resolves t k) : Fits k where
  names := ht.names k hsome
  short := by
    intro a ha
    by_contra hlong
    have hwalk : walk .through t k = .error .nameTooLong := by
      rw [walk_eq hres.text, walkFrom,
        leg_long (k := []) ht rfl hsome ⟨a, ha, Nat.lt_of_not_le hlong⟩]
    exact hres.ne_nameTooLong (by rw [lookup, hwalk])
  text := hres.text

section

variable (ht : Planted t) (hget : t.get? (k ++ [a]) = some node) (hres : Resolves t (k ++ [a]))
include ht hget hres

/-- An entry is found by its own key. -/
theorem lookup_upTo_entry : lookup .upTo t (k ++ [a]) = .ok (k ++ [a], node) := by
  have hsome := Option.isSome_of_eq_some hget
  have hfits := fits_of_resolves ht hsome hres
  obtain ⟨perm, -, hwalk⟩ := walk_of_way (m := .through) hfits.of_append (ht.way hsome)
  have hdir : lookup .through t k = .ok (k, .directory perm) := by rw [lookup, hwalk]
  exact lookup_upTo_append hdir (hfits.names a (by simp)) hget hres.text hres.ne_nameTooLong

/-- An entry that is no link is what its own key leads to. -/
theorem lookup_through_entry (hlink : ∀ target, node ≠ .link target) :
    lookup .through t (k ++ [a]) = .ok (k ++ [a], node) := by
  have hsome := Option.isSome_of_eq_some hget
  rw [lookup, walk_entry (fits_of_resolves ht hsome hres) (ht.way hsome) hget hlink]

end

/-! ## Entries that can be removed -/

/-- The path names an entry below the root, which is there by its own key, on a host that hinders
nothing. It leads somewhere or to nothing, and so does every entry below it. -/
structure Removable (root : Key) (path : String) (h : Host) : Prop where
  planted : Planted h.tree
  sound : h.Sound
  unhindered : h.Unhindered
  proper : Key.resolve path ≠ []
  present : (h.tree.get? (Rooted.route root path)).isSome = true
  resolves : ∀ rest, (h.tree.get? (Rooted.route root path ++ rest)).isSome = true →
    Resolves h.tree (Rooted.route root path ++ rest)

variable {root : Key} {path : String}

theorem exists_route_eq_append (hproper : Key.resolve path ≠ []) (root : Key) :
    ∃ k a, Rooted.route root path = k ++ [a] := by
  have hne : Rooted.route root path ≠ [] := fun h => hproper (List.append_eq_nil_iff.1 h).2
  exact ⟨_, _, (List.dropLast_append_getLast hne).symm⟩

namespace Removable

theorem of_entries (ht : Planted h.tree) (hs : h.Sound) (hu : h.Unhindered)
    (hproper : Key.resolve path ≠ [])
    (hpresent : (h.tree.get? (Rooted.route root path)).isSome = true)
    (hentries : ∀ e ∈ h.tree.entries, Key.within (Rooted.route root path) e.1 = true →
      Resolves h.tree e.1) : Removable root path h := by
  refine ⟨ht, hs, hu, hproper, hpresent, fun rest hrest => ?_⟩
  obtain ⟨node, hget⟩ := Option.isSome_iff_exists.1 hrest
  exact hentries (Rooted.route root path ++ rest, node) (Tree.mem_entries_of_get? hget)
    (Key.within_append _ rest)

variable (hr : Removable root path h)
include hr

theorem resolves_self : Resolves h.tree (Rooted.route root path) := by
  have hres := hr.resolves []
  rw [List.append_nil] at hres
  exact hres hr.present

theorem lookup_upTo (hget : h.tree.get? (Rooted.route root path) = some node) :
    lookup .upTo h.tree (Rooted.route root path) = .ok (Rooted.route root path, node) := by
  have hres := hr.resolves_self
  obtain ⟨k, a, hroute⟩ := exists_route_eq_append hr.proper root
  rw [hroute] at hget hres ⊢
  exact lookup_upTo_entry hr.planted hget hres

theorem lookup_through (hget : h.tree.get? (Rooted.route root path) = some node)
    (hlink : ∀ target, node ≠ .link target) :
    lookup .through h.tree (Rooted.route root path) = .ok (Rooted.route root path, node) := by
  have hres := hr.resolves_self
  obtain ⟨k, a, hroute⟩ := exists_route_eq_append hr.proper root
  rw [hroute] at hget hres ⊢
  exact lookup_through_entry hr.planted hget hres hlink

/-- What is directly below an entry that can be removed can be removed. -/
theorem child (hsome : (h.tree.get? (Rooted.route root path ++ [a])).isSome = true) :
    Removable root (Path.join [path, a]) h := by
  have hname : Path.IsName a := hr.planted.names _ hsome a (by simp)
  have hroute := route_join_name root path hname
  refine ⟨hr.planted, hr.sound, hr.unhindered, ?_, by rwa [hroute], fun rest hrest => ?_⟩
  · rw [Path.resolve_join_name path hname]
    simp
  · rw [hroute, List.append_assoc] at hrest ⊢
    exact hr.resolves _ hrest

/-- When other entries go with all that is below them, an entry can still be removed. -/
theorem without (hbelow : ∀ k a, gone k = true → gone (k ++ [a]) = true)
    (hkeep : gone (Rooted.route root path) = false) :
    Removable root path { h with tree := h.tree.without gone } := by
  have hthin := extends_without h.tree gone
  refine ⟨hr.planted.without hbelow, ?_, ⟨hr.unhindered.superuser, hr.unhindered.dated⟩, hr.proper,
    ?_, fun rest hrest => ?_⟩
  · exact hr.sound.withTree fun k node hk => .inr ⟨k, hthin k node hk⟩
  · rw [Tree.get?_without, hkeep]
    exact hr.present
  · obtain ⟨node, hget⟩ := Option.isSome_iff_exists.1 hrest
    exact (hr.resolves rest (Option.isSome_of_eq_some (hthin _ node hget))).thinned hthin

/-- When some entries of a directory go with all that is below them, it can still be removed. -/
theorem without_under (names : List String) :
    Removable root path
      { h with tree := h.tree.without (Key.under (Rooted.route root path) names) } := by
  refine hr.without (fun k b hk => ?_) ?_
  · obtain ⟨a, ha, rest, rfl⟩ := Key.under_iff.1 hk
    exact Key.under_iff.2 ⟨a, ha, rest ++ [b], by simp⟩
  · rw [Bool.eq_false_iff]
    intro hunder
    obtain ⟨a, -, rest, hself⟩ := Key.under_iff.1 hunder
    simp at hself

end Removable

end Host

/-! ## Worlds without some entries of the host -/

namespace World

variable {w w' w'' : World} {gone gone' : Key → Bool}

/-- The world whose host is without the entries at some keys. -/
def clear (gone : Key → Bool) (w : World) : World :=
  { w with host := { w.host with tree := w.host.tree.without gone } }

/-- Notices aside, `w'` is `w` without the entries of the host at some keys. -/
def Loses (w : World) (gone : Key → Bool) (w' : World) : Prop :=
  w'.hushed = (w.clear gone).hushed

theorem Loses.host (h : w.Loses gone w') :
    w'.host = { w.host with tree := w.host.tree.without gone } :=
  congrArg (fun v : World => v.host) h

theorem Loses.of_hushed (h : w'.hushed = w.hushed) : w.Loses (fun _ => false) w' := by
  rw [Loses, h, clear, Tree.without_eq_self fun _ _ => rfl]

theorem Loses.trans (h : w.Loses gone w') (h' : w'.Loses gone' w'') :
    w.Loses (fun k => gone k || gone' k) w'' := by
  have hclear : ∀ (v : World) gone, (v.clear gone).hushed = v.hushed.clear gone := fun _ _ => rfl
  rw [Loses, h', hclear, h, hclear, hclear]
  simp only [clear, Tree.without_without]

end World

/-! ## Removing an entry of the host -/

namespace FileSystem

open Host Memory World

variable {root k : Key} {path : String} {w w' : World} {n : Nat} {node : Node} {why : Refusal}
  {fs : FileSystem} {f : Fault} {gone : Key → Bool}

/-- What a path leads to is told with its kind. -/
theorem exists_run_stat_host (hs : w.host.Sound) (hu : w.host.Unhindered)
    (hlookup : lookup .through w.host.tree (Rooted.route root path) = .ok (k, node)) :
    ∃ i, ((FileSystem.host root).stat path).run w = .ok i w ∧ i.isDirectory = node.isDirectory := by
  have hstat := Host.run_stat (Rooted.route root path) w.host
  rw [hlookup] at hstat
  obtain ⟨i, hinfo⟩ := hu.exists_info (Key.resolve path).name k node
  have hread : (Rooted.stat root path).run w.host = .ok i w.host := by
    rw [Rooted.stat, run_bind_ok hstat, hinfo]
    rfl
  refine ⟨.plain i, run_bind_ok (run_onHost_of_read hread), ?_⟩
  obtain ⟨-, -, hmode⟩ := info_ok hinfo
  have hkind := isDirectory_status hs (get?_of_lookup hlookup)
  rw [← hmode] at hkind
  exact hkind

theorem run_stat_host_error
    (hlookup : lookup .through w.host.tree (Rooted.route root path) = .error why) :
    ((FileSystem.host root).stat path).run w =
      .error (.forPath why (Key.toString (Rooted.route root path))) w := by
  have hstat := Host.run_stat (Rooted.route root path) w.host
  rw [hlookup] at hstat
  have hread : (Rooted.stat root path).run w.host =
      .error (.forPath why (Key.toString (Rooted.route root path))) w.host := by
    rw [Rooted.stat, run_bind_error hstat]
  exact run_bind_error (run_onHost_of_read_error hread)

theorem isSymlink_host (root : Key) (path : String) :
    (FileSystem.host root).isSymlink path =
      tryCatch (do discard ((FileSystem.host root).readlink path); return true) fun f =>
        if f.isFilesystemError || f.kind = .noSymlinks then return false else throw f := rfl

/-- A link is told from other entries, whatever it leads to. -/
theorem exists_run_isSymlink_link {target : String}
    (hlookup : lookup .upTo w.host.tree (Rooted.route root path) = .ok (k, .link target)) :
    ∃ w', ((FileSystem.host root).isSymlink path).run w = .ok true w' ∧ w'.hushed = w.hushed := by
  have hread : (Rooted.readlink root path).run w.host = .ok target w.host := by
    rw [Rooted.readlink, Host.readlink, run_bind_ok (EStateM.run_get w.host), hlookup]
    rfl
  have hreadlink : ∃ text w', ((FileSystem.host root).readlink path).run w = .ok text w' ∧
      w'.hushed = w.hushed := by
    rw [FileSystem.readlink, run_bind_ok (run_onHost_of_read hread)]
    split
    · exact ⟨_, _, rfl, rfl⟩
    · split
      · exact ⟨_, _, rfl, rfl⟩
      · exact ⟨_, _, rfl, rfl⟩
  obtain ⟨text, w', hrun, hhush⟩ := hreadlink
  refine ⟨w', ?_, hhush⟩
  rw [isSymlink_host, run_tryCatch, discard_eq_bind, bind_assoc, run_bind_ok hrun]
  rfl

theorem run_isSymlink_of_not_link
    (hlookup : lookup .upTo w.host.tree (Rooted.route root path) = .ok (k, node))
    (hnode : ∀ target, node ≠ .link target) :
    ((FileSystem.host root).isSymlink path).run w = .ok false w := by
  have hread : (Rooted.readlink root path).run w.host =
      .error (.onPath .invalid (Key.toString (Rooted.route root path))) w.host := by
    rw [Rooted.readlink, Host.readlink, run_bind_ok (EStateM.run_get w.host), hlookup]
    cases node with
    | directory perm => rfl
    | file number => rfl
    | link target => exact absurd rfl (hnode target)
  have hreadlink : ((FileSystem.host root).readlink path).run w = _ :=
    run_bind_error (run_onHost_of_read_error hread)
  rw [isSymlink_host, run_tryCatch, discard_eq_bind, bind_assoc, run_bind_error hreadlink]
  rfl

/-- An entry that has nothing below it is removed. -/
theorem run_remove_host (hr : Removable root path w.host)
    (hbelow : ∀ rest, rest ≠ [] → w.host.tree.get? (Rooted.route root path ++ rest) = none) :
    ((FileSystem.host root).remove path).run w =
      .ok () (w.clear (Key.within (Rooted.route root path))) := by
  obtain ⟨node, hget⟩ := Option.isSome_iff_exists.1 hr.present
  have hlookup := hr.lookup_upTo hget
  have hlstat := run_lstat (Rooted.route root path) w.host
  rw [hlookup] at hlstat
  have hremove : (Rooted.remove root path).run w.host =
      .ok () { w.host with tree := w.host.tree.erase (Rooted.route root path) } := by
    rw [Rooted.remove, run_bind_ok hlstat, isDirectory_status hr.sound hget]
    cases hnode : node.isDirectory with
    | false => exact run_unlink hlookup hnode
    | true =>
      have hchildren := Tree.children_eq_nil_iff.2 hbelow
      have hne : Rooted.route root path ≠ [] := fun h => hr.proper (List.append_eq_nil_iff.1 h).2
      rw [if_pos rfl, run_removeDirectory hlookup, removalRefusal?, hnode, hchildren, if_neg hne]
      rfl
  change (onHost (Rooted.remove root path)).run w = _
  rw [run_onHost, hremove, Tree.erase_eq_without hbelow]
  rfl

/-! ## One level of removing -/

/-- A link to nothing is removed. -/
theorem removeLevels_of_lost_link (hstat : (fs.stat path).run w = .error f w)
    (hf : f.kind = .missing) (hlink : (fs.isSymlink path).run w = .ok true w') :
    (fs.removeLevels (n + 1) path).run w = (fs.remove path).run w' := by
  have hfind := run_find?_error hstat
  rw [if_pos hf] at hfind
  rw [removeLevels, ← find?, run_bind_ok hfind, run_bind_ok hlink]
  rfl

/-- A link to a directory is removed, and the directory is not asked for its entries. -/
theorem removeLevels_of_link {i : EntryInfo Status} (hstat : (fs.stat path).run w = .ok i w)
    (hi : i.isDirectory = true) (hlink : (fs.isSymlink path).run w = .ok true w') :
    (fs.removeLevels (n + 1) path).run w = (fs.remove path).run w' := by
  rw [removeLevels, ← find?, run_bind_ok (run_find?_ok hstat)]
  simp only [hi, if_true]
  rw [run_bind_ok hlink]
  rfl

/-- Other entries than directories are removed at once. -/
theorem exists_removeLevels_of_not_directory (hr : Removable root path w.host)
    (hget : w.host.tree.get? (Rooted.route root path) = some node)
    (hnode : node.isDirectory = false) (n : Nat) :
    ∃ w', w'.hushed = w.hushed ∧ ((FileSystem.host root).removeLevels (n + 1) path).run w =
      ((FileSystem.host root).remove path).run w' := by
  cases node with
  | directory perm => cases hnode
  | file number =>
    obtain ⟨i, hstat, hkind⟩ := exists_run_stat_host hr.sound hr.unhindered
      (hr.lookup_through hget (by simp))
    exact ⟨w, rfl, removeLevels_of_file hstat hkind⟩
  | link target =>
    obtain ⟨w', hlink, hhush⟩ := exists_run_isSymlink_link (hr.lookup_upTo hget)
    cases hlookup : lookup .through w.host.tree (Rooted.route root path) with
    | error why =>
      have hwhy : (Fault.forPath why (Key.toString (Rooted.route root path))).kind = .missing := by
        rw [Fault.kind_forPath]
        exact hr.resolves_self why hlookup
      exact ⟨w', hhush, removeLevels_of_lost_link (run_stat_host_error hlookup) hwhy hlink⟩
    | ok found =>
      obtain ⟨i, hstat, hkind⟩ := exists_run_stat_host hr.sound hr.unhindered hlookup
      cases hdir : found.2.isDirectory with
      | false => exact ⟨w, rfl, removeLevels_of_file hstat (hkind.trans hdir)⟩
      | true => exact ⟨w', hhush, removeLevels_of_link hstat (hkind.trans hdir) hlink⟩

/-- A directory is removed after what is directly in it. -/
theorem exists_removeLevels_of_directory (hr : Removable root path w.host) {perm : Nat}
    (hget : w.host.tree.get? (Rooted.route root path) = some (.directory perm)) (n : Nat) :
    ∃ names : List String, names.Nodup ∧
      (∀ a, a ∈ names ↔ (w.host.tree.get? (Rooted.route root path ++ [a])).isSome = true) ∧
      ((FileSystem.host root).removeLevels (n + 1) path).run w =
        ((names.forM fun a =>
            (FileSystem.host root).removeLevels n ((FileSystem.host root).join [path, a])) >>=
          fun _ => (FileSystem.host root).remove path).run w := by
  have hlookup := hr.lookup_through hget (by simp)
  have hlink := run_isSymlink_of_not_link (hr.lookup_upTo hget) (by simp)
  obtain ⟨i, hstat, hkind⟩ := exists_run_stat_host hr.sound hr.unhindered hlookup
  obtain ⟨l, hread, hlisted⟩ := exists_run_list hr.planted hr.unhindered hlookup fun a =>
    hr.resolves [a]
  have hlist : ((FileSystem.host root).list path).run w = .ok (l.map .plain) w :=
    run_bind_ok (run_onHost_of_read hread)
  refine ⟨(l.map EntryInfo.plain).map EntryInfo.name, hlisted.sorted.imp String.ne_of_lt,
    hlisted.complete, ?_⟩
  exact removeLevels_of_directory hstat hkind hlink hlist

/-! ## Levels of removing -/

/-- Removing takes out the entry and all that is below it, if no entry lies below the levels of
calls. -/
def Clears (root : Key) (n : Nat) : Prop :=
  ∀ {path w}, Removable root path w.host →
    (∀ rest, (w.host.tree.get? (Rooted.route root path ++ rest)).isSome = true → rest.length < n) →
    ∃ w', ((FileSystem.host root).removeLevels n path).run w = .ok () w' ∧
      w.Loses (Key.within (Rooted.route root path)) w'

/-- One after another, entries of a directory go, each with all that is below it. -/
theorem Clears.forM (hn : Clears root n) {names : List String} (hnodup : names.Nodup)
    (hnames : ∀ a ∈ names, Path.IsName a ∧ Removable root (Path.join [path, a]) w.host)
    (henough : ∀ a ∈ names, ∀ rest,
      (w.host.tree.get? (Rooted.route root path ++ a :: rest)).isSome = true → rest.length < n) :
    ∃ w', (names.forM fun a => (FileSystem.host root).removeLevels n
        ((FileSystem.host root).join [path, a])).run w = .ok () w' ∧
      w.Loses (Key.under (Rooted.route root path) names) w' := by
  -- by induction on the names, from any world in which these entries can be removed
  induction names generalizing w with
  | nil => exact ⟨w, rfl, .of_hushed rfl⟩
  | cons a names ih =>
    obtain ⟨hname, hr⟩ := hnames a List.mem_cons_self
    have hroute := route_join_name root path hname
    have hfirst := hn hr fun rest hrest => henough a List.mem_cons_self rest (by
      rwa [hroute, List.append_assoc] at hrest)
    rw [hroute] at hfirst
    obtain ⟨w₁, hrun₁, hloses₁⟩ := hfirst
    have hhost := hloses₁.host
    have hrest := ih (w := w₁) (List.nodup_cons.1 hnodup).2 ?removable ?enough
    case removable =>
      intro b hb
      obtain ⟨hbname, hbr⟩ := hnames b (List.mem_cons_of_mem a hb)
      have hne : a ≠ b := fun hab => (List.nodup_cons.1 hnodup).1 (hab ▸ hb)
      rw [hhost]
      refine ⟨hbname, hbr.without (fun k c hk => Key.within_append_of_within hk [c]) ?_⟩
      rw [route_join_name root path hbname]
      exact Key.within_child_of_ne hne _ []
    case enough =>
      intro b hb rest hsome
      refine henough b (List.mem_cons_of_mem a hb) rest ?_
      rw [hhost] at hsome
      obtain ⟨node, hget⟩ := Option.isSome_iff_exists.1 hsome
      exact Option.isSome_of_eq_some (extends_without _ _ _ node hget)
    obtain ⟨w₂, hrun₂, hloses₂⟩ := hrest
    refine ⟨w₂, (run_bind_ok hrun₁).trans hrun₂, ?_⟩
    exact hloses₁.trans hloses₂

/-- Once nothing is left below an entry, it goes too. -/
theorem exists_run_remove (hr : Removable root path w'.host)
    (hbelow : ∀ rest, rest ≠ [] → w'.host.tree.get? (Rooted.route root path ++ rest) = none)
    (hloses : w.Loses gone w')
    (hgone : ∀ k, gone k = true → Key.within (Rooted.route root path) k = true) :
    ∃ w'', ((FileSystem.host root).remove path).run w' = .ok () w'' ∧
      w.Loses (Key.within (Rooted.route root path)) w'' := by
  have hlast : w'.Loses (Key.within (Rooted.route root path))
      (w'.clear (Key.within (Rooted.route root path))) := rfl
  have hboth := hloses.trans hlast
  have hsame : (fun k => gone k || Key.within (Rooted.route root path) k) =
      Key.within (Rooted.route root path) := by
    funext k
    cases hk : gone k with
    | false => rfl
    | true => rw [hgone k hk, Bool.true_or]
  rw [hsame] at hboth
  exact ⟨_, run_remove_host hr hbelow, hboth⟩

/-- An entry other than a directory goes at any level. -/
theorem exists_removeLevels_leaf (hr : Removable root path w.host)
    (hget : w.host.tree.get? (Rooted.route root path) = some node)
    (hnode : node.isDirectory = false) (n : Nat) :
    ∃ w', ((FileSystem.host root).removeLevels (n + 1) path).run w = .ok () w' ∧
      w.Loses (Key.within (Rooted.route root path)) w' := by
  obtain ⟨w₁, hhush, hrun⟩ := exists_removeLevels_of_not_directory hr hget hnode n
  have hhost : w₁.host = w.host := by
    change w₁.hushed.host = w.hushed.host
    rw [hhush]
  rw [hrun]
  refine exists_run_remove (hhost ▸ hr) (fun rest hrest => ?_) (.of_hushed hhush) (by simp)
  by_contra hne
  rw [hhost] at hne
  obtain ⟨perm, hperm⟩ := hr.planted.directory_of_append hrest (Option.ne_none_iff_isSome.1 hne)
  rw [hget] at hperm
  cases hperm
  cases hnode

/-- A directory goes after its entries, which take one level less. -/
theorem Clears.directory (hn : Clears root n) (hr : Removable root path w.host) {perm : Nat}
    (hget : w.host.tree.get? (Rooted.route root path) = some (.directory perm))
    (henough : ∀ rest, (w.host.tree.get? (Rooted.route root path ++ rest)).isSome = true →
      rest.length < n + 1) :
    ∃ w', ((FileSystem.host root).removeLevels (n + 1) path).run w = .ok () w' ∧
      w.Loses (Key.within (Rooted.route root path)) w' := by
  obtain ⟨names, hnodup, hnames, hrun⟩ := exists_removeLevels_of_directory hr hget n
  have hchildren : ∀ a ∈ names, Path.IsName a ∧ Removable root (Path.join [path, a]) w.host :=
    fun a ha => ⟨hr.planted.names _ ((hnames a).1 ha) a (by simp), hr.child ((hnames a).1 ha)⟩
  obtain ⟨w₁, hforM, hloses⟩ := hn.forM hnodup hchildren fun a _ rest hrest => by
    have hlength := henough (a :: rest) hrest
    rw [List.length_cons] at hlength
    omega
  have hr₁ : Removable root path w₁.host := hloses.host ▸ hr.without_under names
  rw [hrun, run_bind_ok hforM]
  refine exists_run_remove hr₁ (fun rest => hr₁.planted.get?_append fun a => ?_) hloses
    fun k hk => ?_
  · rw [hloses.host, Tree.get?_without]
    split
    · rfl
    · rename_i hkeep
      by_contra hne
      have ha := (hnames a).2 (Option.ne_none_iff_isSome.1 hne)
      exact hkeep (Key.under_iff.2 ⟨a, ha, [], rfl⟩)
  · obtain ⟨a, -, rest, rfl⟩ := Key.under_iff.1 hk
    exact Key.within_append _ _

/-- A level of removing adds the entry itself to what goes before it. -/
theorem Clears.succ (hn : Clears root n) : Clears root (n + 1) := by
  intro path w hr henough
  obtain ⟨node, hget⟩ := Option.isSome_iff_exists.1 hr.present
  cases node with
  | directory perm => exact hn.directory hr hget henough
  | file number => exact exists_removeLevels_leaf hr hget rfl n
  | link target => exact exists_removeLevels_leaf hr hget rfl n

/-- Removing takes out the entry and all that is below it, however many levels there are. -/
theorem clears (root : Key) (n : Nat) : Clears root n := by
  induction n with
  | zero =>
    intro path w hr henough
    exact absurd (henough [] (by rw [List.append_nil]; exact hr.present)) (Nat.not_lt_zero _)
  | succ n ih => exact ih.succ

/-! ## Whole removals -/

theorem run_removeTree (fs : FileSystem) (path : String) (w : World) :
    (fs.removeTree path).run w = (fs.removeLevels (w.size + 1) path).run w := rfl

/-- The number of levels that removing starts with is enough, and so is any above the number of
entries. -/
theorem exists_run_removeLevels (hr : Removable root path w.host) (hn : w.size < n) :
    ∃ w', ((FileSystem.host root).removeLevels n path).run w = .ok () w' ∧
      w.Loses (Key.within (Rooted.route root path)) w' := by
  refine clears root n hr fun rest hrest => ?_
  have hlength := hr.planted.length_lt_size hrest
  have hsize := w.size_host_le_size
  rw [List.length_append] at hlength
  omega

theorem sound_hallWorld (target : String) : (hallWorld target).host.Sound where
  filed := by
    intro k n hk
    have hmem := Tree.mem_entries_of_get? hk
    simp_all [hallWorld]
  directory_perm := by
    intro k perm hk
    have hmem := Tree.mem_entries_of_get? hk
    simp [hallWorld] at hmem
    omega
  file_perm := by
    intro n
    cases n with
    | zero =>
      change 0o644 < 0o10000
      decide
    | succ n => simp [hallWorld, Host.file]

/-- Removing the tree at a path takes out the entry of the host that the path names with all that is
below it, and nothing else, whatever links there are and wherever they lead; and any number of
levels of calls that is above the number of entries comes to the same. No entry that goes may lead
into a loop, through a file or too far, and the host may refuse nothing for want of a permission and
tell no time that a calendar lacks. -/
theorem removeTree_host (hr : Removable root path w.host) :
    (∃ w', ((FileSystem.host root).removeTree path).run w = .ok () w' ∧
      w.Loses (Key.within (Rooted.route root path)) w') ∧
    ∀ n, w.size < n → ∃ w', ((FileSystem.host root).removeLevels n path).run w = .ok () w' ∧
      w.Loses (Key.within (Rooted.route root path)) w' := by
  rw [run_removeTree]
  exact ⟨exists_run_removeLevels hr (Nat.lt_succ_self w.size), fun n hn =>
    exists_run_removeLevels hr hn⟩

/-- A directory goes with a link to a directory elsewhere, which stays. -/
theorem removeTree_host_hall :
    Removable ["srv"] "x/..//d" (hallWorld "f").host ∧
      (∃ w', ((FileSystem.host ["srv"]).removeTree "x/..//d").run (hallWorld "f") = .ok () w' ∧
        (hallWorld "f").Loses (Key.within (Rooted.route ["srv"] "x/..//d")) w') ∧
      ∀ n, (hallWorld "f").size < n →
        ∃ w', ((FileSystem.host ["srv"]).removeLevels n "x/..//d").run (hallWorld "f") =
            .ok () w' ∧
          (hallWorld "f").Loses (Key.within (Rooted.route ["srv"] "x/..//d")) w' := by
  have hr : Removable ["srv"] "x/..//d" (hallWorld "f").host :=
    .of_entries (by decide +kernel) (sound_hallWorld "f") ⟨rfl, fun _ _ => rfl⟩ (by decide)
      (by decide +kernel) (by decide +kernel)
  exact ⟨hr, removeTree_host hr⟩

/-- What is at a path, and leads into a loop, through a file or too far, is not removed. -/
theorem removeTree_host_stuck
    (hlost : lookup .through w.host.tree (Rooted.route root path) = .error why)
    (hwhy : why.kind ≠ .missing) :
    ((FileSystem.host root).removeTree path).run w =
      .error (.forPath why (Key.toString (Rooted.route root path))) w := by
  have hkind : (Fault.forPath why (Key.toString (Rooted.route root path))).kind ≠ .missing := by
    rwa [Fault.kind_forPath]
  rw [run_removeTree]
  exact removeLevels_of_error (run_stat_host_error hlost) hkind

/-- A directory with an entry that leads into a loop, through a file or too far is not removed, and
nothing in it is. -/
theorem removeTree_host_stuck_child {perm : Nat} {b : String} (ht : Planted w.host.tree)
    (hs : w.host.Sound) (hu : w.host.Unhindered)
    (hdir : lookup .through w.host.tree (Rooted.route root path) = .ok (k, .directory perm))
    (hself : lookup .upTo w.host.tree (Rooted.route root path) = .ok (k, .directory perm))
    (hsome : (w.host.tree.get? (k ++ [b])).isSome = true)
    (hnot : ¬Resolves w.host.tree (Rooted.route root path ++ [b])) :
    ∃ a why, (w.host.tree.get? (k ++ [a])).isSome = true ∧
      lookup .through w.host.tree (Rooted.route root path ++ [a]) = .error why ∧
      why.kind ≠ .missing ∧
      ((FileSystem.host root).removeTree path).run w =
        .error (.forPath why (Key.toString (Rooted.route root path ++ [a]))) w := by
  obtain ⟨a, why, ha, hlost, hwhy, hlist⟩ := list_host_stuck ht hu hdir hsome hnot
  refine ⟨a, why, ha, hlost, hwhy, ?_⟩
  obtain ⟨i, hstat, hkind⟩ := exists_run_stat_host hs hu hdir
  have hlink := run_isSymlink_of_not_link hself (by simp)
  rw [run_removeTree, removeLevels, ← find?, run_bind_ok (run_find?_ok hstat)]
  simp only [hkind, Node.isDirectory, if_true]
  rw [run_bind_ok hlink, if_neg Bool.false_ne_true, run_bind_error hlist]

/-- A link that leads to itself is there, and is not removed. -/
theorem removeTree_host_loop :
    Planted (hallWorld "l").host.tree ∧ (hallWorld "l").host.Sound ∧ Key.resolve "d/l" ≠ [] ∧
      ((hallWorld "l").host.tree.get? (Rooted.route ["srv"] "d/l")).isSome = true ∧
      ((FileSystem.host ["srv"]).removeTree "d/l").run (hallWorld "l") =
        .error (.onPath .linkLoop "/srv/d/l") (hallWorld "l") := by
  have hlost : lookup .through (hallWorld "l").host.tree (Rooted.route ["srv"] "d/l") =
      .error .linkLoop := by decide +kernel
  have hroute : Key.toString (Rooted.route ["srv"] "d/l") = "/srv/d/l" := by decide +kernel
  refine ⟨by decide +kernel, sound_hallWorld "l", by decide, by decide +kernel, ?_⟩
  rw [← hroute]
  exact removeTree_host_stuck hlost (by decide)

end FileSystem

end RootedFS
