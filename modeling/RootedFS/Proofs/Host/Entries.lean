import RootedFS.Proofs.Host.Holds
import RootedFS.Proofs.Together

/-!
# Directories and entries of a root

What the calls on a directory of the host that take no handle come to, told by its contents: making
directories, moving and removing entries, and asking for the status of an entry or for the entries
of a directory.

## Main results

* `Holds.makeDirectories`: directories are made along a way without files, and along no other
* `Holds.outcome_rename`, `Holds.outcome_remove`: what may be moved is moved, what may be removed is
  removed
* `Holds.outcome_stat`, `Holds.outcome_list`: what is told of entries is what is told of items
-/

namespace RootedFS.Host

open Memory (run_bind_ok run_bind_error run_tryCatch)
open Rooted

variable {root k src dst : Key} {h h' : Host} {c : Contents} {a : String} {perm : Int} {f : Fault}
  {why : Refusal} {path target : List String} {node : Node} {t : Tree Node}

/-! ## Steps of calls -/

theorem withheld_lt (mask : Nat) (perm : Int) : withheld mask perm < 0o10000 := by
  have hle : withheld mask perm ≤ (perm % 0o10000).toNat := Nat.and_le_left
  omega

theorem run_onRoute_ok {α : Type} (path : List String) (x : α) (h : Host) :
    (onRoute path (.ok x)).run h = .ok x h := rfl

theorem run_requireInt (hperm : fitsInt perm = true) (h : Host) :
    (requireInt perm).run h = .ok () h := by
  rw [requireInt, if_pos hperm]
  rfl

theorem run_requirePath (hpath : hasNull (Key.toString path) = false) (h : Host) :
    (requirePath path).run h = .ok () h := by
  rw [requirePath, hpath]
  rfl

theorem run_requirePath_error (hpath : hasNull (Key.toString path) = true) (h : Host) :
    (requirePath path).run h = .error .nullInPath h := by
  rw [requirePath, hpath]
  rfl

/-- A walk along a text with a null character is refused for that. -/
theorem walk_of_hasNull {m : Manner} (hpath : hasNull (Key.toString path) = true) :
    walk m t path = .error .embeddedNull :=
  walk_eq_error (by rw [pathRefusal?, if_pos hpath])

/-- Whether a path is refused depends on nothing else. -/
theorem respects_requirePath {R : Host → Host → Prop} (path : List String) :
    Respects R (requirePath path) := by
  rw [requirePath]
  split
  · exact .throw _
  · exact .pure ()

/-- Whether a number is refused depends on nothing else. -/
theorem respects_requireInt {R : Host → Host → Prop} (n : Int) : Respects R (requireInt n) := by
  rw [requireInt]
  split
  · exact .pure ()
  · exact .throw _

theorem run_makeDirectory (hperm : fitsInt perm = true) (path : List String) (h : Host) :
    (makeDirectory path perm).run h =
      match walk .upTo h.tree path with
      | .ok (.entry ..) => .error (.onPath .present (Key.toString path)) h
      | .ok (.absent k name _) =>
        .ok () { h with tree := h.tree.insert (k ++ [name]) (.directory (withheld 0o1777 perm)) }
      | .error why => .error (.forPath why (Key.toString path)) h := by
  cases hnull : hasNull (Key.toString path) with
  | true =>
    rw [makeDirectory, run_bind_error (run_requirePath_error hnull h), walk_of_hasNull hnull]
    rfl
  | false =>
    rw [makeDirectory, run_bind_ok (run_requirePath hnull h),
      run_bind_ok (run_requireInt hperm h), run_bind_ok (EStateM.run_get h)]
    cases walk .upTo h.tree path with
    | error why => rfl
    | ok found =>
      rw [run_bind_ok (run_onRoute_ok path found h)]
      cases found <;> rfl

theorem run_ensureDirectory_of_ok (h₁ : (makeDirectory path perm).run h = .ok () h') :
    (ensureDirectory path perm).run h = .ok () h' := by
  rw [ensureDirectory, run_tryCatch, h₁]

theorem run_ensureDirectory_of_error (h₁ : (makeDirectory path perm).run h = .error f h) :
    (ensureDirectory path perm).run h =
      if f.isFilesystemError && leadsTo h.tree Node.isDirectory path then .ok () h
      else .error f h := by
  rw [ensureDirectory, run_tryCatch, h₁]
  dsimp only
  rw [run_bind_ok (EStateM.run_get h)]
  split <;> rfl

/-- A directory that is there is made by doing nothing. -/
theorem run_ensureDirectory_of_entry (hperm : fitsInt perm = true)
    (hwalk : ∀ m, walk m h.tree path = .ok (.entry k node)) (hnode : node.isDirectory = true) :
    (ensureDirectory path perm).run h = .ok () h := by
  have hmake := run_makeDirectory hperm path h
  rw [hwalk] at hmake
  have hleads : leadsTo h.tree Node.isDirectory path = true := by
    rw [leadsTo, lookup, hwalk]
    exact hnode
  rw [run_ensureDirectory_of_error hmake, hleads]
  rfl

/-! ## Directories on the way -/

/-- Below what is there, only the last directory is made. -/
theorem run_makeDirectoriesAt_of_leadsTo (hleads : leadsTo h.tree (fun _ => true) path = true) :
    (makeDirectoriesAt (path ++ [a]) perm).run h = (ensureDirectory (path ++ [a]) perm).run h := by
  rw [makeDirectoriesAt, List.reverse_append, List.reverse_singleton, List.singleton_append,
    makeBackwards, run_bind_ok (EStateM.run_get h), List.reverse_reverse, if_pos hleads,
    List.reverse_cons, List.reverse_reverse]

/-- Below nothing, what leads to the last directory is made before it. That something is there is no
failure yet. -/
theorem run_makeDirectoriesAt_of_lost (hleads : leadsTo h.tree (fun _ => true) path = false) :
    (makeDirectoriesAt (path ++ [a]) perm).run h = (do
      tryCatch (makeDirectoriesAt path defaultPerm) fun f =>
        if f.kind = .present then pure () else throw f
      ensureDirectory (path ++ [a]) perm : HostM Unit).run h := by
  rw [makeDirectoriesAt, List.reverse_append, List.reverse_singleton, List.singleton_append,
    makeBackwards, run_bind_ok (EStateM.run_get h), List.reverse_reverse, hleads,
    List.reverse_cons, List.reverse_reverse]
  rfl

/-- Where what leads to the last directory has been made, only that one is left. -/
theorem run_makeDirectoriesAt_of_ok (hleads : leadsTo h.tree (fun _ => true) path = false)
    (hway : (makeDirectoriesAt path defaultPerm).run h = .ok () h') :
    (makeDirectoriesAt (path ++ [a]) perm).run h =
      (ensureDirectory (path ++ [a]) perm).run h' := by
  rw [run_makeDirectoriesAt_of_lost hleads]
  refine run_bind_ok (a := ()) ?_
  rw [run_tryCatch, hway]

/-- Where making what leads to the last directory fails, all fails, unless something is there. -/
theorem run_makeDirectoriesAt_of_error (hleads : leadsTo h.tree (fun _ => true) path = false)
    (hway : (makeDirectoriesAt path defaultPerm).run h = .error f h') (hf : f.kind ≠ .present) :
    (makeDirectoriesAt (path ++ [a]) perm).run h = .error f h' := by
  rw [run_makeDirectoriesAt_of_lost hleads]
  refine run_bind_error ?_
  rw [run_tryCatch, hway]
  dsimp only
  rw [if_neg hf]
  rfl

/-- Along directories nothing is made. -/
theorem run_makeDirectoriesAt_of_way (hperm : fitsInt perm = true) (hfits : Fits k)
    (hway : Way h.tree k) : (makeDirectoriesAt k perm).run h = .ok () h := by
  have hensure : ∀ {perm}, fitsInt perm = true → (ensureDirectory k perm).run h = .ok () h := by
    intro perm hperm
    obtain ⟨p, hget, -⟩ := walk_of_way (m := .upTo) hfits hway
    have hentry : ∀ m, walk m h.tree k = .ok (.entry k (.directory p)) := by
      intro m
      obtain ⟨p', hget', hwalk⟩ := walk_of_way (m := m) hfits hway
      rw [hget] at hget'
      cases hget'
      exact hwalk
    exact run_ensureDirectory_of_entry hperm hentry rfl
  rcases List.eq_nil_or_concat k with rfl | ⟨k, a, rfl⟩
  · exact hensure hperm
  · rw [List.concat_eq_append] at *
    obtain ⟨p, -, hwalk⟩ := walk_of_way (m := .through) hfits.of_append hway.of_append
    rw [run_makeDirectoriesAt_of_leadsTo (by rw [leadsTo, lookup, hwalk])]
    exact hensure hperm

namespace Rooted.Holds

variable (hh : Holds root h c) (hc : c.Sound)
include hh hc

/-- A missing directory is made in the one that leads to it. -/
theorem ensureDirectory_absent (hfits : Fits (root ++ (k ++ [a]))) (hperm : fitsInt perm = true)
    (hdir : c k = some .directory) (hnone : c (k ++ [a]) = none) :
    ∃ h', (ensureDirectory (root ++ (k ++ [a])) perm).run h = .ok () h' ∧
      Holds root h' (c.put (k ++ [a]) .directory) := by
  have hmake := run_makeDirectory hperm (root ++ (k ++ [a])) h
  rw [hh.walk_free hc hfits hdir hnone] at hmake
  have hholds := hh.insertDirectory hnone (withheld_lt 0o1777 perm)
  rw [← List.append_assoc] at hholds
  exact ⟨_, run_ensureDirectory_of_ok hmake, hholds⟩

theorem ensureDirectory_directory (hfits : Fits (root ++ k)) (hperm : fitsInt perm = true)
    (hk : c k = some .directory) : (ensureDirectory (root ++ k) perm).run h = .ok () h := by
  obtain ⟨node, -, hitem, hwalk⟩ := hh.walk_item hc hfits hk
  refine run_ensureDirectory_of_entry hperm hwalk ?_
  cases node with
  | directory p => rfl
  | file n => cases hitem
  | link target => cases hitem

/-- Where a file is, no directory is made. -/
theorem ensureDirectory_file (hfits : Fits (root ++ k)) (hperm : fitsInt perm = true)
    (hk : c.HasFile k) : ∃ f, (ensureDirectory (root ++ k) perm).run h = .error f h := by
  obtain ⟨content, hk⟩ := hk
  obtain ⟨node, -, hitem, hwalk⟩ := hh.walk_item hc hfits hk
  have hmake := run_makeDirectory hperm (root ++ k) h
  rw [hwalk] at hmake
  have hleads : leadsTo h.tree Node.isDirectory (root ++ k) = false := by
    rw [leadsTo, lookup, hwalk]
    cases node with
    | directory p => cases hitem
    | file n => rfl
    | link target => rfl
  refine ⟨_, (run_ensureDirectory_of_error hmake).trans (if_neg ?_)⟩
  simp [hleads]

/-- Below what is no directory, no directory is made, but not because one is there. -/
theorem ensureDirectory_stuck (hfits : Fits (root ++ (k ++ [a]))) (hperm : fitsInt perm = true)
    (hdir : c k ≠ some .directory) :
    ∃ f, (ensureDirectory (root ++ (k ++ [a])) perm).run h = .error f h ∧ f.kind ≠ .present := by
  obtain ⟨why, hwalk, hwhy⟩ := hh.walk_stuck hc hfits hdir .upTo
  obtain ⟨why', hwalk', -⟩ := hh.walk_stuck hc hfits hdir .through
  have hmake := run_makeDirectory hperm (root ++ (k ++ [a])) h
  rw [hwalk] at hmake
  have hleads : leadsTo h.tree Node.isDirectory (root ++ (k ++ [a])) = false := by
    rw [leadsTo, lookup, hwalk']
  refine ⟨_, (run_ensureDirectory_of_error hmake).trans (if_neg (by simp [hleads])), ?_⟩
  rcases hwhy with rfl | rfl
  · intro h
    cases h
  · intro h
    cases h

end Rooted.Holds

/-- What making a directory and the way to it comes to, as the contents tell it. A failure tells
that something is there only where it is. -/
inductive WayOutcome (root : Key) (c : Contents) (k : Key) :
    EStateM.Result Fault Host Unit → Prop
  | made {h' : Host} (hclear : c.Clear k) (hholds : Holds root h' (c.makeWay k)) :
    WayOutcome root c k (.ok () h')
  | blocked {f : Fault} {h' : Host} (hblocked : ¬c.Clear k)
    (hkind : c k = none → f.kind ≠ .present) : WayOutcome root c k (.error f h')

namespace Rooted.Holds

variable (hh : Holds root h c) (hc : c.Sound)
include hh hc

/-- In a directory, a directory is made or found, unless a file is there. -/
theorem ensureDirectory_below (hfits : Fits (root ++ (k ++ [a]))) (hperm : fitsInt perm = true)
    (hdir : c k = some .directory) :
    WayOutcome root c (k ++ [a]) ((ensureDirectory (root ++ (k ++ [a])) perm).run h) := by
  have hclear := hc.clear_of_directory hdir
  by_cases hlast : c (k ++ [a]) = none
  · obtain ⟨h', hensure, hholds⟩ := hh.ensureDirectory_absent hc hfits hperm hdir hlast
    rw [hensure]
    refine .made (Contents.clear_append_singleton.2 ⟨hclear, fun hfile => hfile.ne_none hlast⟩) ?_
    rwa [Contents.makeWay_append_singleton hlast, hc.makeWay_eq_self (by simp [hdir])]
  · rcases hc.directory_or_hasFile hlast with hlastDir | hfile
    · rw [hh.ensureDirectory_directory hc hfits hperm hlastDir]
      refine .made (Contents.clear_append_singleton.2
        ⟨hclear, fun hfile => hfile.ne_directory hlastDir⟩) ?_
      rwa [hc.makeWay_eq_self hlast]
    · obtain ⟨f, hensure⟩ := hh.ensureDirectory_file hc hfits hperm hfile
      rw [hensure]
      exact .blocked (fun h => (Contents.clear_append_singleton.1 h).2 hfile)
        fun hnone => absurd hnone hlast

/-- Below a file no directory is made. -/
theorem ensureDirectory_blocked (hfits : Fits (root ++ (k ++ [a]))) (hperm : fitsInt perm = true)
    (hk : c k ≠ none) (hdir : c k ≠ some .directory) :
    WayOutcome root c (k ++ [a]) ((ensureDirectory (root ++ (k ++ [a])) perm).run h) := by
  obtain ⟨f, hensure, hkind⟩ := hh.ensureDirectory_stuck hc hfits hperm hdir
  rw [hensure]
  refine .blocked (fun h => ?_) fun _ => hkind
  have hfile := (hc.directory_or_hasFile hk).resolve_left hdir
  refine (Contents.clear_append_singleton.1 h).1 k ?_ hfile
  refine Key.mem_steps.2 ⟨?_, List.prefix_rfl⟩
  rintro rfl
  exact hdir hh.top

/-- Directories are made along a way without files, and along no other. -/
theorem makeDirectories (hfits : Fits (root ++ k)) (hperm : fitsInt perm = true) :
    WayOutcome root c k ((makeDirectoriesAt (root ++ k) perm).run h) := by
  -- from the root down: the last name is looked at after what leads to it has been made
  induction k using List.reverseRecOn generalizing perm with
  | nil =>
    rw [List.append_nil] at hfits ⊢
    rw [run_makeDirectoriesAt_of_way hperm hfits hh.way]
    refine .made ?_ ?_
    · intro j hj
      simp [Key.steps, Key.chain] at hj
    · rwa [Contents.makeWay_nil]
  | append_singleton k a ih =>
    have hfits' : Fits (root ++ k) := by
      rw [← List.append_assoc] at hfits
      exact hfits.of_append
    have hleads := hh.leadsTo_eq hc hfits' (fun _ => true) (fun _ => true) fun _ => rfl
    rw [← List.append_assoc]
    by_cases hk : c k = none
    · rw [hk] at hleads
      have hlast : c (k ++ [a]) = none := by
        by_contra hne
        rw [hc.closed k a hne] at hk
        cases hk
      have hlastFile : ¬c.HasFile (k ++ [a]) := fun hfile => hfile.ne_none hlast
      have hdefault : fitsInt defaultPerm = true := by decide
      have houtcome := ih hfits' hdefault
      generalize hrun : (makeDirectoriesAt (root ++ k) defaultPerm).run h = r at houtcome
      cases houtcome with
      | made hclear hholds =>
        rw [run_makeDirectoriesAt_of_ok hleads hrun, List.append_assoc]
        have hnames : ∀ b ∈ k, Path.IsName b := fun b hb =>
          hfits'.names b (List.mem_append_right root hb)
        have hnone : c.makeWay k (k ++ [a]) = none := by
          have hself := c.makeWay_parent_self (k ++ [a])
          rwa [Key.parent_append_singleton, hlast] at hself
        obtain ⟨h'', hensure, hholds'⟩ := hholds.ensureDirectory_absent (hc.makeWay hclear hnames)
          hfits hperm (hc.makeWay_directory hclear List.prefix_rfl) hnone
        rw [hensure]
        refine .made (Contents.clear_append_singleton.2 ⟨hclear, hlastFile⟩) ?_
        rwa [Contents.makeWay_append_singleton hlast]
      | blocked hblocked hkind =>
        rw [run_makeDirectoriesAt_of_error hleads hrun (hkind hk)]
        exact .blocked (fun h => hblocked (Contents.clear_append_singleton.1 h).1)
          fun _ => hkind hk
    · obtain ⟨i, hi⟩ := Option.ne_none_iff_exists'.1 hk
      rw [hi] at hleads
      rw [run_makeDirectoriesAt_of_leadsTo hleads, List.append_assoc]
      by_cases hdir : c k = some .directory
      · exact hh.ensureDirectory_below hc hfits hperm hdir
      · exact hh.ensureDirectory_blocked hc hfits hperm hk hdir

end Rooted.Holds

/-! ## Moving -/

/-- A renaming call decides by the entry that it would move and the two places. -/
theorem renamePlan_of_entry {found : Found} (hnull : hasNull (Key.toString path) = false)
    (hnull' : hasNull (Key.toString target) = false) (hpath : requireParent t path = .ok ())
    (htarget : requireParent t target = .ok ()) (hsrc : walk .upTo t path = .ok (.entry src node))
    (hdst : walk .upTo t target = .ok found) (hplace : found.place = dst) :
    renamePlan t path target =
      if src = [] ∨ dst = [] then .error .busy
      else if src = dst then .ok (src, dst)
      else if Key.within src dst then .error .invalid
      else if Key.within dst src then .error .notEmpty
      else
        match node.isDirectory, t.get? dst with
        | _, none => .ok (src, dst)
        | true, some (.directory _) =>
          if (t.children dst).isEmpty then .ok (src, dst) else .error .notEmpty
        | true, some _ => .error .notDirectory
        | false, some (.directory _) => .error .isDirectory
        | false, some _ => .ok (src, dst) := by
  subst hplace
  rw [renamePlan, hnull, hnull', hpath, htarget, hsrc, hdst]
  cases found <;> rfl

theorem renamePlan_of_lookup_error (hlookup : lookup .upTo t path = .error why)
    (target : List String) :
    ∃ why, renamePlan t path target = .error why := by
  rw [lookup] at hlookup
  rw [renamePlan]
  cases hasNull (Key.toString path) || hasNull (Key.toString target) with
  | true => exact ⟨_, rfl⟩
  | false =>
    cases requireParent t path with
    | error why => exact ⟨why, rfl⟩
    | ok u =>
      cases requireParent t target with
      | error why => exact ⟨why, rfl⟩
      | ok u =>
        cases hwalk : walk .upTo t path with
        | error why => exact ⟨why, rfl⟩
        | ok found =>
          rw [hwalk] at hlookup
          cases found with
          | entry k node => cases hlookup
          | absent k name asDirectory => exact ⟨_, rfl⟩

namespace Rooted.Holds

variable (hh : Holds root h c) (hc : c.Sound)
include hh hc

theorem makeParents (hfits : Fits (root ++ k)) :
    WayOutcome root c k.parent ((makeParents (root ++ k)).run h) := by
  rw [Rooted.makeParents]
  rcases List.eq_nil_or_concat k with rfl | ⟨k, a, rfl⟩
  · rw [List.append_nil] at hfits ⊢
    rw [run_makeDirectoriesAt_of_way (by decide) hfits.dropLast hh.way.dropLast]
    refine .made ?_ ?_
    · intro j hj
      simp [Key.parent, Key.steps, Key.chain] at hj
    · rwa [Key.parent, List.dropLast_nil, Contents.makeWay_nil]
  · rw [List.concat_eq_append] at hfits ⊢
    rw [← List.append_assoc, List.dropLast_concat, Key.parent_append_singleton]
    rw [← List.append_assoc] at hfits
    exact hh.makeDirectories hc hfits.of_append (by decide)

theorem requireParent_ok (hfits : Fits (root ++ k)) (hdir : c k.parent = some .directory) :
    requireParent h.tree (root ++ k) = .ok () := by
  have hlookup : ∃ l perm,
      lookup .through h.tree (root ++ k).dropLast = .ok (l, .directory perm) := by
    rcases List.eq_nil_or_concat k with rfl | ⟨k, a, rfl⟩
    · rw [List.append_nil] at hfits ⊢
      obtain ⟨perm, -, hwalk⟩ := walk_of_way (m := .through) hfits.dropLast hh.way.dropLast
      exact ⟨root.dropLast, perm, by rw [lookup, hwalk]⟩
    · rw [List.concat_eq_append, Key.parent_append_singleton] at *
      rw [← List.append_assoc] at hfits ⊢
      rw [List.dropLast_concat]
      obtain ⟨node, -, hitem, hlookup⟩ := hh.lookup_item hc hfits.of_append hdir
      cases node with
      | directory perm => exact ⟨_, perm, hlookup _⟩
      | file n => cases hitem
      | link target => cases hitem
  obtain ⟨l, perm, hlookup⟩ := hlookup
  rw [requireParent, hfits.text, hlookup]
  rfl

/-- A walk to where something may be put ends there. -/
theorem exists_walk_place (hfits : Fits (root ++ k)) (hdir : c k.parent = some .directory)
    (m : Manner) : ∃ found, walk m h.tree (root ++ k) = .ok found ∧ found.place = root ++ k := by
  by_cases hk : c k = none
  · obtain ⟨k', a, rfl⟩ := List.eq_nil_or_concat k |>.resolve_left (hh.ne_nil_of_none hk)
    rw [List.concat_eq_append, Key.parent_append_singleton] at *
    exact ⟨_, hh.walk_free hc hfits hdir hk m, List.append_assoc root k' [a]⟩
  · obtain ⟨i, hi⟩ := Option.ne_none_iff_exists'.1 hk
    obtain ⟨node, -, -, hwalk⟩ := hh.walk_item hc hfits hi
    exact ⟨_, hwalk m, rfl⟩

omit hc in
theorem children_eq_nil_iff : h.tree.children (root ++ k) = [] ↔ c.Bare k := by
  rw [Tree.children_eq_nil_iff]
  refine forall₂_congr fun rest _ => ?_
  rw [← hh.get?_map, List.append_assoc, Option.map_eq_none_iff]

/-- What may be moved is moved, where there is a directory to take it to. -/
theorem renamePlan_movable (hsrc : Fits (root ++ src)) (hdst : Fits (root ++ dst))
    (hdir : c dst.parent = some .directory) (hmove : c.Movable src dst) :
    renamePlan h.tree (root ++ src) (root ++ dst) = .ok (root ++ src, root ++ dst) := by
  obtain ⟨i, hi⟩ := Option.ne_none_iff_exists'.1 hmove.source
  obtain ⟨node, hget, hitem, hwalk⟩ := hh.walk_item hc hsrc hi
  obtain ⟨found, hfound, hplace⟩ := hh.exists_walk_place hc hdst hdir .upTo
  have hne : ∀ {k}, k ≠ [] → root ++ k ≠ [] := fun hk h => hk (List.append_eq_nil_iff.1 h).2
  have hdstNe : dst ≠ [] := by
    rintro rfl
    exact hmove.source (hmove.bare src hmove.src_ne)
  -- nothing is below the place, so that it does not lead to the source
  have hback : Key.within dst src = false := by
    by_contra hin
    obtain ⟨rest, rfl⟩ := Key.within_iff.1 (Bool.not_eq_false _ ▸ hin)
    by_cases hrest : rest = []
    · exact Key.ne_of_within_eq_false hmove.out (by simp [hrest])
    · exact hmove.source (hmove.bare rest hrest)
  have hdiff : root ++ src ≠ root ++ dst := fun h =>
    Key.ne_of_within_eq_false hmove.out (List.append_cancel_left h)
  rw [renamePlan_of_entry hsrc.hasNull_eq_false hdst.hasNull_eq_false
    (hh.requireParent_ok hc hsrc (hc.parent_directory hmove.source))
    (hh.requireParent_ok hc hdst hdir) (hwalk _) hfound hplace,
    if_neg (by simp [hmove.src_ne, hdstNe]), if_neg hdiff, Key.within_append_append, hmove.out,
    Key.within_append_append, hback]
  have hchildren := hh.children_eq_nil_iff.2 hmove.bare
  have hkind := hmove.kind
  rw [hi, ← hh.get?_map, ← hitem] at hkind
  cases hplaceGet : h.tree.get? (root ++ dst) with
  | none => cases node <;> rfl
  | some node' =>
    rw [hplaceGet] at hkind
    cases node <;> cases node' <;> simp [Host.item, Node.isDirectory, hchildren] at hkind ⊢

/-- What is moved may be moved. -/
theorem movable_of_renamePlan {p : Key × Key} (hsrc : Fits (root ++ src))
    (hdst : Fits (root ++ dst)) (hdir : c dst.parent = some .directory) (hne : src ≠ dst)
    (hplan : renamePlan h.tree (root ++ src) (root ++ dst) = .ok p) : c.Movable src dst := by
  have hsource : c src ≠ none := by
    intro hnone
    obtain ⟨why, hlookup, -⟩ := hh.lookup_none hc hsrc hnone .upTo
    obtain ⟨why', herror⟩ := renamePlan_of_lookup_error hlookup (root ++ dst)
    rw [herror] at hplan
    cases hplan
  obtain ⟨i, hi⟩ := Option.ne_none_iff_exists'.1 hsource
  obtain ⟨node, hget, hitem, hwalk⟩ := hh.walk_item hc hsrc hi
  obtain ⟨found, hfound, hplace⟩ := hh.exists_walk_place hc hdst hdir .upTo
  rw [renamePlan_of_entry hsrc.hasNull_eq_false hdst.hasNull_eq_false
    (hh.requireParent_ok hc hsrc (hc.parent_directory hsource))
    (hh.requireParent_ok hc hdst hdir) (hwalk _) hfound hplace, Key.within_append_append,
    Key.within_append_append] at hplan
  split at hplan
  · cases hplan
  split at hplan
  · rename_i heq
    exact absurd (List.append_cancel_left heq) hne
  split at hplan
  · cases hplan
  rename_i hout
  split at hplan
  · cases hplan
  have hitems := hh.get?_map dst
  have hkind : c.Bare dst ∧
      (c dst = none ∨ (c src = some .directory ↔ c dst = some .directory)) := by
    rw [hi, ← hitem]
    cases hplaceGet : h.tree.get? (root ++ dst) with
    | none =>
      rw [hplaceGet] at hitems
      exact ⟨hc.bare (by simp [← hitems]), .inl hitems.symm⟩
    | some node' =>
      rw [hplaceGet] at hplan hitems
      cases node' with
      | directory perm =>
        cases node with
        | directory perm' =>
          simp only [Node.isDirectory] at hplan
          split at hplan
          · rename_i hempty
            refine ⟨hh.children_eq_nil_iff.1 (List.isEmpty_iff.1 hempty), .inr ?_⟩
            exact iff_of_true rfl hitems.symm
          · cases hplan
        | file n => cases hplan
        | link target => cases hplan
      | file n =>
        refine ⟨hc.bare (by simp [← hitems, Host.item]), .inr ?_⟩
        cases node with
        | directory perm => cases hplan
        | file n' => simp [← hitems, Host.item]
        | link target => simp [← hitems, Host.item]
      | link target => exact absurd hitems.symm (hc.not_link dst target)
  have hout' : Key.within src dst = false := Bool.not_eq_true _ ▸ hout
  refine ⟨?_, hsource, hout', hc.clear_of_directory hdir, hkind.1, hkind.2⟩
  rintro rfl
  cases hout'

end Rooted.Holds
/-! ## Requests without handles -/

/-- The kind bits of what is told of an entry are those of its kind. -/
theorem isDirectory_status (hs : h.Sound) (hget : h.tree.get? k = some node) :
    Mode.isDirectory ((h.status k node).mode : Int) = node.isDirectory := by
  cases node with
  | directory perm => exact Mode.isDirectory_directory (hs.directory_perm k perm hget)
  | file n =>
    have hperm := hs.file_perm n
    change Mode.isDirectory (((h.file n).mode : Nat) : Int) = false
    rw [Regular.mode]
    split
    · exact Mode.isDirectory_device hperm
    · exact Mode.isDirectory_regular hperm
  | link target =>
    change Mode.isDirectory ((Mode.link + 0o777 : Nat) : Int) = false
    decide

/-- What is told of an entry is what is told of the item. -/
theorem summary_info (hs : h.Sound) (hget : h.tree.get? k = some node) {name : String}
    {i : FileInfo Status} (hi : info name (h.status k node) = .ok i) :
    (EntryInfo.plain i).summary = (h.item node).summary name := by
  obtain ⟨hname, hsize, hmode⟩ := info_ok hi
  have hkind := isDirectory_status hs hget
  rw [← hmode] at hkind
  have hsummary : (EntryInfo.plain i).summary =
      ⟨name, node.isDirectory, (h.status k node).size⟩ := by
    rw [← hname, ← hkind, ← hsize]
    rfl
  rw [hsummary]
  cases node <;> rfl

theorem run_stat (path : List String) (h : Host) :
    (stat path).run h =
      match lookup .through h.tree path with
      | .ok (k, node) => .ok (h.status k node) h
      | .error why => .error (.forPath why (Key.toString path)) h := by
  rw [stat, run_bind_ok (EStateM.run_get h)]
  cases lookup .through h.tree path <;> rfl

theorem run_lstat (path : List String) (h : Host) :
    (lstat path).run h =
      match lookup .upTo h.tree path with
      | .ok (k, node) => .ok (h.status k node) h
      | .error why => .error (.forPath why (Key.toString path)) h := by
  rw [lstat, run_bind_ok (EStateM.run_get h)]
  cases lookup .upTo h.tree path <;> rfl

theorem run_removeDirectory (hlookup : lookup .upTo h.tree path = .ok (k, node)) :
    (removeDirectory path).run h =
      match removalRefusal? h.tree k node with
      | some why => .error (.onPath why (Key.toString path)) h
      | none => .ok () { h with tree := h.tree.erase k } := by
  rw [removeDirectory, run_bind_ok (EStateM.run_get h)]
  dsimp only
  rw [hlookup, run_bind_ok (run_onRoute_ok path (k, node) h)]
  dsimp only
  cases removalRefusal? h.tree k node <;> rfl

theorem run_unlink (hlookup : lookup .upTo h.tree path = .ok (k, node))
    (hnode : node.isDirectory = false) :
    (unlink path).run h = .ok () { h with tree := h.tree.erase k } := by
  rw [unlink, run_bind_ok (EStateM.run_get h), hlookup,
    run_bind_ok (run_onRoute_ok path (k, node) h)]
  simp only [hnode]
  rfl

theorem run_rename (path target : List String) (h : Host) :
    (rename path target).run h =
      match renamePlan h.tree path target with
      | .error why => .error (.forPaths why (Key.toString path) (Key.toString target)) h
      | .ok (src, dst) =>
        .ok () (if src = dst then h else { h with tree := h.tree.move src dst }) := by
  rw [rename, run_bind_ok (EStateM.run_get h)]
  cases renamePlan h.tree path target with
  | error why => rfl
  | ok p =>
    obtain ⟨src, dst⟩ := p
    change (if src = dst then pure () else modifyTree (·.move src dst)).run h =
      .ok () (if src = dst then h else { h with tree := h.tree.move src dst })
    split <;> rfl

theorem run_scan (path : List String) (h : Host) :
    (scan path).run h =
      match lookup .through h.tree path with
      | .ok (k, .directory _) => .ok (h.tree.children k) h
      | .ok _ => .error (.onPath .notDirectory (Key.toString path)) h
      | .error why => .error (.forPath why (Key.toString path)) h := by
  rw [scan, run_bind_ok (EStateM.run_get h)]
  cases lookup .through h.tree path with
  | error why => rfl
  | ok p =>
    obtain ⟨k, node⟩ := p
    rw [run_bind_ok (run_onRoute_ok path (k, node) h)]
    cases node <;> rfl

/-- What a computation that answers nothing replies. -/
def done (x : HostM Unit) : HostM Reply := do
  x
  return .done

/-- What a computation that answers metadata replies. -/
def infoReply (x : HostM (FileInfo Status)) : HostM Reply :=
  return .info (EntryInfo.plain (← x)).summary

/-- What a computation that answers the metadata of entries replies. -/
def listReply (x : HostM (List (FileInfo Status))) : HostM Reply :=
  return .listing (((← x).map EntryInfo.plain).map EntryInfo.summary)

theorem run_done_ok {x : HostM Unit} (hx : x.run h = .ok () h') :
    (done x).run h = .ok .done h' :=
  run_bind_ok hx

theorem run_done_error {x : HostM Unit} (hx : x.run h = .error f h') :
    (done x).run h = .error f h' :=
  run_bind_error hx

namespace Rooted.Holds

variable (hh : Holds root h c) (hc : c.Sound) {s s' : String}
include hh hc

/-- Directories are made as the contents say. -/
theorem outcome_makeDirectories (hfits : Fits (root ++ Key.resolve s))
    (hperm : fitsInt perm = true) :
    Contents.Outcome (Holds root) c (.makeDirectories s perm)
      ((done (Rooted.makeDirectories root s perm)).run h) := by
  have houtcome := hh.makeDirectories hc hfits hperm
  rw [Rooted.makeDirectories, route]
  generalize hrun : (makeDirectoriesAt (root ++ Key.resolve s) perm).run h = r at houtcome
  cases houtcome with
  | made hclear hholds =>
    rw [run_done_ok hrun]
    exact .served hclear (.makeDirectories s perm) hholds
  | blocked hblocked hkind =>
    rw [run_done_error hrun]
    exact .refused hblocked

/-- Entries are moved as the contents say. -/
theorem outcome_rename (hsrc : Fits (root ++ Key.resolve s)) (hdst : Fits (root ++ Key.resolve s'))
    (hne : Key.resolve s ≠ Key.resolve s') :
    Contents.Outcome (Holds root) c (.rename s s') ((done (Rooted.rename root s s')).run h) := by
  have houtcome := hh.makeParents hc hdst
  rw [Rooted.rename, route, route]
  generalize hparents : (Rooted.makeParents (root ++ Key.resolve s')).run h = r at houtcome
  cases houtcome with
  | blocked hblocked hkind =>
    rw [run_done_error (run_bind_error hparents)]
    exact .refused fun hadmits => hblocked hadmits.way
  | @made h' hclear hholds =>
    have hnames : ∀ b ∈ (Key.resolve s').parent, Path.IsName b := fun b hb =>
      hdst.names b (List.mem_append_right root (List.dropLast_subset _ hb))
    have hc' := hc.makeWay hclear hnames
    have hdir := hc.makeWay_directory hclear List.prefix_rfl
    have hrun : (do
        Rooted.makeParents (root ++ Key.resolve s')
        Host.rename (root ++ Key.resolve s) (root ++ Key.resolve s') : HostM Unit).run h =
        (Host.rename (root ++ Key.resolve s) (root ++ Key.resolve s')).run h' :=
      run_bind_ok hparents
    rw [run_rename] at hrun
    by_cases hmove : c.Movable (Key.resolve s) (Key.resolve s')
    · have hmove' := Contents.movable_makeWay.2 hmove
      rw [hholds.renamePlan_movable hc' hsrc hdst hdir hmove'] at hrun
      simp only [List.append_cancel_left_eq, if_neg hne] at hrun
      rw [run_done_ok hrun]
      refine .served hmove (.rename s s') ?_
      refine hholds.move hmove.src_ne ?_ hmove.out hmove'.bare
      intro hnil
      rw [hnil] at hmove
      exact hmove.source (hmove.bare _ hmove.src_ne)
    · have hplan : ∃ why,
          renamePlan h'.tree (root ++ Key.resolve s) (root ++ Key.resolve s') = .error why := by
        cases hplan : renamePlan h'.tree (root ++ Key.resolve s) (root ++ Key.resolve s') with
        | error why => exact ⟨why, rfl⟩
        | ok p =>
          have hmove' := hholds.movable_of_renamePlan hc' hsrc hdst hdir hne hplan
          exact absurd (Contents.movable_makeWay.1 hmove') hmove
      obtain ⟨why, hplan⟩ := hplan
      rw [hplan] at hrun
      rw [run_done_error hrun]
      exact .refused hmove

/-- Entries are removed as the contents say. -/
theorem outcome_remove (hfits : Fits (root ++ Key.resolve s)) (hne : Key.resolve s ≠ []) :
    Contents.Outcome (Holds root) c (.remove s) ((done (Rooted.remove root s)).run h) := by
  have hlstat := run_lstat (root ++ Key.resolve s) h
  rw [Rooted.remove, route]
  by_cases hnone : c (Key.resolve s) = none
  · obtain ⟨why, hlookup, -⟩ := hh.lookup_none hc hfits hnone .upTo
    rw [hlookup] at hlstat
    rw [run_done_error (run_bind_error hlstat)]
    refine .refused fun hadmits => ?_
    rcases hadmits with hfile | ⟨hdir, -⟩
    · exact hfile.ne_none hnone
    · rw [hdir] at hnone
      cases hnone
  · obtain ⟨i, hi⟩ := Option.ne_none_iff_exists'.1 hnone
    obtain ⟨node, hget, hitem, hlookup⟩ := hh.lookup_item hc hfits hi
    rw [hlookup] at hlstat
    have hkind := isDirectory_status hh.sound hget
    have hrun : (Rooted.remove root s).run h =
        (if node.isDirectory then removeDirectory (root ++ Key.resolve s)
          else unlink (root ++ Key.resolve s)).run h := by
      rw [Rooted.remove, route, run_bind_ok hlstat, hkind]
    rw [Rooted.remove, route] at hrun
    have herase := hh.erase hne
    rcases hc.directory_or_hasFile hnone with hdir | hfile
    · have hnode : node.isDirectory = true := by
        rw [hi] at hdir
        cases hdir
        cases node with
        | directory perm => rfl
        | file n => cases hitem
        | link target => cases hitem
      rw [hnode, if_pos rfl, run_removeDirectory (hlookup _), removalRefusal?, hnode] at hrun
      simp only [Bool.not_true, Bool.false_eq_true, if_false, List.append_eq_nil_iff, hne,
        and_false] at hrun
      by_cases hbare : c.Bare (Key.resolve s)
      · rw [hh.children_eq_nil_iff.2 hbare] at hrun
        rw [run_done_ok hrun]
        exact .served (.inr ⟨hdir, hbare⟩) (.remove s) herase
      · have hfull : ¬(h.tree.children (root ++ Key.resolve s)).isEmpty := fun hempty =>
          hbare (hh.children_eq_nil_iff.1 (List.isEmpty_iff.1 hempty))
        rw [if_neg hfull] at hrun
        rw [run_done_error hrun]
        refine .refused fun hadmits => ?_
        rcases hadmits with hfile | ⟨-, hbare'⟩
        · exact hfile.ne_directory hdir
        · exact hbare hbare'
    · have hnode : node.isDirectory = false := by
        obtain ⟨content, hfile⟩ := hfile
        rw [hi] at hfile
        cases hfile
        cases node with
        | directory perm => cases hitem
        | file n => rfl
        | link target => rfl
      rw [hnode, if_neg (by simp), run_unlink (hlookup _) hnode] at hrun
      rw [run_done_ok hrun]
      exact .served (.inl hfile) (.remove s) herase

/-- What is told of an entry is what the contents say. -/
theorem outcome_stat (hfits : Fits (root ++ Key.resolve s)) :
    Contents.Outcome (Holds root) c (.stat s) ((infoReply (Rooted.stat root s)).run h) := by
  have hstat := run_stat (root ++ Key.resolve s) h
  rw [Rooted.stat, route]
  by_cases hnone : c (Key.resolve s) = none
  · obtain ⟨why, hlookup, -⟩ := hh.lookup_none hc hfits hnone .through
    rw [hlookup] at hstat
    rw [infoReply, run_bind_error (run_bind_error hstat)]
    exact .refused fun hadmits => hadmits hnone
  · obtain ⟨i, hi⟩ := Option.ne_none_iff_exists'.1 hnone
    obtain ⟨node, hget, rfl, hlookup⟩ := hh.lookup_item hc hfits hi
    rw [hlookup] at hstat
    obtain ⟨i, hinfo⟩ := hh.unhindered.exists_info (Key.resolve s).name (root ++ Key.resolve s) node
    have hrun : (do
        let status ← Host.stat (root ++ Key.resolve s)
        MonadExcept.ofExcept (info (Key.resolve s).name status)).run h = .ok i h := by
      rw [run_bind_ok hstat, hinfo]
      rfl
    rw [infoReply, run_bind_ok hrun]
    refine .served hnone ?_ hh
    rw [summary_info hh.sound hget hinfo]
    exact .stat hi

theorem mem_children : a ∈ h.tree.children (root ++ k) ↔ c (k ++ [a]) ≠ none := by
  have hget : ∀ rest, root ++ k ++ a :: rest ∈ h.tree.keys ↔ c (k ++ a :: rest) ≠ none := by
    intro rest
    rw [Tree.mem_keys, ← Option.ne_none_iff_isSome, ne_eq, ne_eq, ← hh.get?_map,
      Option.map_eq_none_iff, List.append_assoc]
  rw [Tree.mem_children, exists_congr hget]
  constructor
  · rintro ⟨rest, hrest⟩
    by_cases hnil : rest = []
    · rwa [hnil] at hrest
    · rw [List.append_cons] at hrest
      simp [hc.directory_of_append hnil hrest]
  · exact fun h => ⟨[], h⟩

/-- What is told of the entries of a directory is what is told of the items. -/
theorem exists_run_mapM_info (names : List String)
    (hnames : ∀ a ∈ names, Fits (root ++ (k ++ [a])) ∧ c (k ++ [a]) ≠ none) :
    ∃ l, (names.mapM fun name => do
        let status ← entryStatus (root ++ k ++ [name])
        MonadExcept.ofExcept (info name status)).run h = .ok l h ∧
      l.map (fun i => (EntryInfo.plain i).summary) = c.summaries k names := by
  induction names with
  | nil => exact ⟨[], rfl, rfl⟩
  | cons a names ih =>
    obtain ⟨l, hrun, hl⟩ := ih fun b hb => hnames b (List.mem_cons_of_mem a hb)
    obtain ⟨hfits, hne⟩ := hnames a List.mem_cons_self
    obtain ⟨i, hi⟩ := Option.ne_none_iff_exists'.1 hne
    obtain ⟨node, hget, rfl, hlookup⟩ := hh.lookup_item hc hfits hi
    have hstatus : (entryStatus (root ++ k ++ [a])).run h =
        .ok (h.status (root ++ (k ++ [a])) node) h := by
      rw [entryStatus, run_tryCatch, run_stat, List.append_assoc, hlookup]
    obtain ⟨i, hinfo⟩ := hh.unhindered.exists_info a (root ++ (k ++ [a])) node
    have hentry : (do
        let status ← entryStatus (root ++ k ++ [a])
        MonadExcept.ofExcept (info a status)).run h = .ok i h := by
      rw [run_bind_ok hstatus, hinfo]
      rfl
    refine ⟨i :: l, ?_, ?_⟩
    · rw [List.mapM_cons, run_bind_ok hentry, run_bind_ok hrun]
      rfl
    · rw [List.map_cons, summary_info hh.sound hget hinfo, hl, Contents.summaries,
        Contents.summaries, List.filterMap_cons, hi]
      rfl

/-- What is told of the entries of a directory is what the contents say. -/
theorem outcome_list (hfits : Fits (root ++ Key.resolve s))
    (hchildren : ∀ a, c (Key.resolve s ++ [a]) ≠ none → Fits (root ++ (Key.resolve s ++ [a]))) :
    Contents.Outcome (Holds root) c (.list s) ((listReply (Rooted.list root s)).run h) := by
  have hscan := run_scan (root ++ Key.resolve s) h
  rw [Rooted.list, route]
  cases hi : c (Key.resolve s) with
  | none =>
    obtain ⟨why, hlookup, -⟩ := hh.lookup_none hc hfits hi .through
    rw [hlookup] at hscan
    rw [listReply, run_bind_error (run_bind_error hscan)]
    refine .refused fun hadmits => ?_
    rw [Contents.Admits, hi] at hadmits
    cases hadmits
  | some i =>
    obtain ⟨node, hget, rfl, hlookup⟩ := hh.lookup_item hc hfits hi
    rw [hlookup] at hscan
    cases node with
    | directory perm =>
      have hmem : ∀ a, a ∈ h.tree.children (root ++ Key.resolve s) ↔
          c (Key.resolve s ++ [a]) ≠ none := fun a => hh.mem_children hc
      obtain ⟨l, hrun, hl⟩ := hh.exists_run_mapM_info hc
        (h.tree.children (root ++ Key.resolve s)) fun a ha =>
          ⟨hchildren a ((hmem a).1 ha), (hmem a).1 ha⟩
      rw [listReply, run_bind_ok ((run_bind_ok hscan).trans hrun)]
      refine .served hi ?_ hh
      rw [List.map_map]
      change c.Replies _ (.listing (l.map fun i => (EntryInfo.plain i).summary))
      rw [hl]
      exact Contents.replies_list (Tree.pairwise_children _ _) fun a ha => (hmem a).2 ha
    | file n =>
      rw [listReply, run_bind_error (run_bind_error hscan)]
      refine .refused fun hadmits => ?_
      rw [Contents.Admits, hi] at hadmits
      cases hadmits
    | link target => exact absurd hi (hc.not_link _ target)

end Rooted.Holds

end RootedFS.Host
