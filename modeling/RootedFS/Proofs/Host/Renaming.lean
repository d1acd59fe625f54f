import RootedFS.Proofs.Host.Target
import RootedFS.Proofs.Host.TempFile

/-!
# Renaming calls that fail on the host

A renaming call makes the directories on the way to its target before the host is asked to move
anything. When the move is refused after that, or a directory further on the way cannot be made, the
directories that have been made stay. Nothing else about the host changes, and nothing at all if no
directory on that way was missing where one could be made.

## Main definitions

* `Host.Laid`: a path along which no directory is missing that could be made
* `Host.Paved`: what making directories along a path leaves of a host

## Main results

* `Host.attains_makeDirectoriesAt`: a directory that is missing along a path is made
* `FileSystem.rename_host_error`: what a renaming call that fails changes, and when it changes
  nothing
-/

namespace RootedFS

open Memory (run_bind_ok run_bind_error)

namespace Host

open Rooted

variable {h h' : Host} {t : Tree Node} {m : Manner} {k k' : Key} {route way path more : List String}
  {a name : String} {asDirectory : Bool} {why : Refusal} {root : Key} {f : Fault}
  {source target : String}

/-! ## Paths that go on from nothing -/

/-- Above a directory there is a directory. -/
theorem Planted.parent (ht : Planted t) (hdir : ∃ p, t.get? k = some (.directory p)) :
    ∃ p, t.get? k.parent = some (.directory p) := by
  rcases List.eq_nil_or_concat k with rfl | ⟨k, a, rfl⟩
  · exact hdir
  · obtain ⟨p, hp⟩ := hdir
    rw [List.concat_eq_append] at hp ⊢
    rw [Key.parent_append_singleton]
    exact ht.standing k a (by rw [hp]; rfl)

/-- A leg that fails does so when the path goes on. -/
theorem leg_append_of_failed (ht : Planted t) (hm : m.forFile = false)
    (hdir : ∃ p, t.get? k = some (.directory p)) (hleg : leg .through t k route = .failed why) :
    leg m t k (route ++ more) = .failed why := by
  fun_induction leg .through t k route with
  | case2 k hget =>
    obtain ⟨p, hp⟩ := hdir
    rw [hget] at hp
    cases hp
  | case3 k piece rest hskip ih =>
    rw [List.cons_append, leg, if_pos hskip]
    exact ih hdir hleg
  | case4 k rest hskip ih =>
    rw [List.cons_append, leg, if_neg hskip, if_pos rfl]
    exact ih (ht.parent hdir) hleg
  | case5 k piece rest hskip hup hfile => cases hfile.1
  | case6 k piece rest hskip hup hfile hlong =>
    rw [List.cons_append, leg, if_neg hskip, if_neg hup, if_neg (by simp [hm]), if_pos hlong]
    exact hleg
  | case8 k piece rest hskip hup hfile hlong hget hend =>
    have hend' : ¬onlySlashes (rest ++ more) = true := by
      rw [onlySlashes, List.all_append, Bool.and_eq_true]
      exact fun hboth => hend hboth.1
    rw [List.cons_append, leg_entry hskip hup (not_slash hm) hlong, hget]
    exact (if_neg hend').trans hleg
  | case9 k piece rest hskip hup hfile hlong perm hget ih =>
    rw [List.cons_append, leg_entry hskip hup (not_slash hm) hlong, hget]
    exact ih ⟨perm, hget⟩ hleg
  | case11 k piece rest hskip hup hfile hlong number hget hend =>
    have hend' : rest ++ more ≠ [] := fun hnil => hend (List.append_eq_nil_iff.1 hnil).1
    rw [List.cons_append, leg_entry hskip hup (not_slash hm) hlong, hget]
    exact (if_neg hend').trans hleg
  | _ => cases hleg

/-- Links lead from directory to directory. -/
theorem exists_directory_of_link (ht : Planted t) (htop : ∃ p, t.get? [] = some (.directory p))
    (hdir : ∃ p, t.get? k = some (.directory p)) (hleg : leg m t k route = .link k' way) :
    ∃ p, t.get? k' = some (.directory p) := by
  fun_induction leg m t k route with
  | case3 k piece rest hskip ih => exact ih hdir hleg
  | case4 k rest hskip ih => exact ih (ht.parent hdir) hleg
  | case9 k piece rest hskip hup hfile hlong perm hget ih => exact ih ⟨perm, hget⟩ hleg
  | case13 k piece rest hskip hup hfile hlong target hget hend =>
    obtain ⟨rfl, -⟩ := Leg.link.inj hleg
    split
    · exact htop
    · exact hdir
  | _ => cases hleg

/-- A walk that fails does so when the path goes on. -/
theorem walkFrom_append_of_error (ht : Planted t) (htop : ∃ p, t.get? [] = some (.directory p))
    (hm : m.forFile = false) (hmore : more ≠ []) {n : Nat}
    (hdir : ∃ p, t.get? k = some (.directory p))
    (hwalk : walkFrom .through t n k route = .error why) :
    walkFrom m t n k (route ++ more) = .error why := by
  fun_induction walkFrom .through t n k route with
  | case1 => cases hwalk
  | case2 links k route why' hleg =>
    cases hwalk
    rw [walkFrom, leg_append_of_failed ht hm hdir hleg]
  | case3 k route k₁ route₁ hleg =>
    rw [walkFrom, leg_append_of_link hm hmore hleg]
    exact hwalk
  | case4 k route k₁ route₁ hleg links ih =>
    rw [walkFrom, leg_append_of_link hm hmore hleg]
    exact ih (exists_directory_of_link ht htop hdir hleg) hwalk

/-- A leg that finds nothing goes no further, and only slashes may follow. -/
theorem leg_append_of_absent (hm : m.forFile = false) (hmore : more ≠ [])
    (hleg : leg .through t k route = .done (.absent k' name asDirectory)) :
    leg m t k (route ++ more) =
      if onlySlashes more then .done (.absent k' name true) else .failed .missing := by
  fun_induction leg .through t k route with
  | case3 k piece rest hskip ih =>
    rw [List.cons_append, leg, if_pos hskip]
    exact ih hleg
  | case4 k rest hskip ih =>
    rw [List.cons_append, leg, if_neg hskip, if_pos rfl]
    exact ih hleg
  | case7 k piece rest hskip hup hfile hlong hget hend =>
    obtain ⟨rfl, rfl, -⟩ := Found.absent.inj (Leg.done.inj hleg)
    have hend' : onlySlashes (rest ++ more) = onlySlashes more := by
      rw [onlySlashes, onlySlashes, List.all_append]
      exact (congrArg (· && _) hend).trans (Bool.true_and _)
    rw [List.cons_append, leg_entry hskip hup (not_slash hm) hlong, hget]
    simp [hend', hmore]
  | case9 k piece rest hskip hup hfile hlong perm hget ih =>
    rw [List.cons_append, leg_entry hskip hup (not_slash hm) hlong, hget]
    exact ih hleg
  | _ => cases hleg

/-- A walk that finds nothing goes no further, and only slashes may follow. -/
theorem walkFrom_append_of_absent (hm : m.forFile = false) (hmore : more ≠ []) {n : Nat}
    (hwalk : walkFrom .through t n k route = .ok (.absent k' name asDirectory)) :
    walkFrom m t n k (route ++ more) =
      if onlySlashes more then .ok (.absent k' name true) else .error .missing := by
  fun_induction walkFrom .through t n k route with
  | case1 links k route found hleg =>
    cases hwalk
    rw [walkFrom, leg_append_of_absent hm hmore hleg]
    by_cases hslashes : onlySlashes more = true
    · rw [if_pos hslashes, if_pos hslashes]
    · rw [if_neg hslashes, if_neg hslashes]
  | case2 | case3 => cases hwalk
  | case4 k route k₁ route₁ hleg links ih =>
    rw [walkFrom, leg_append_of_link hm hmore hleg]
    exact ih hwalk

/-- Nothing is below what is missing. -/
theorem leadsTo_eq_false_of_absent (hwalk : walk .upTo t way = .ok (.absent k name asDirectory))
    (hway : way <+: path) : leadsTo t (fun _ => true) path = false := by
  have hthrough : walk .through t way = .ok (.absent k name asDirectory) :=
    walk_of_follow (m := .upTo) hwalk (by simp)
  obtain ⟨more, rfl⟩ := hway
  by_cases hmore : more = []
  · rw [hmore, List.append_nil, leadsTo, lookup, hthrough]
  · cases htext : pathRefusal? (Key.toString (way ++ more)) with
    | some why => rw [leadsTo, lookup, walk_eq_error htext]
    | none =>
      have hfrom := walkFrom_append_of_absent (m := .through) rfl hmore (walkFrom_of_walk hthrough)
      rw [leadsTo, lookup, walk_eq htext, hfrom]
      by_cases hslashes : onlySlashes more = true
      · rw [if_pos hslashes]
      · rw [if_neg hslashes]

/-- Where one more name is missing, what comes before it leads somewhere. -/
theorem leadsTo_of_absent (ht : Planted t) (htop : ∃ p, t.get? [] = some (.directory p))
    (ha : Path.IsName a) (hwalk : walk .upTo t (path ++ [a]) = .ok (.absent k name asDirectory)) :
    leadsTo t (fun _ => true) path = true := by
  have hfrom := walkFrom_of_walk hwalk
  rw [leadsTo, lookup, walk_eq (pathRefusal?_of_append (pathRefusal?_of_walk hwalk))]
  cases hbefore : walkFrom .through t maxLinks [] path with
  | error why =>
    rw [walkFrom_append_of_error ht htop rfl (by simp) htop hbefore] at hfrom
    cases hfrom
  | ok found =>
    cases found with
    | entry k' node => rfl
    | absent k' name' asDirectory' =>
      have hname : ¬onlySlashes [a] = true := by simp [onlySlashes, ha.ne_empty]
      rw [walkFrom_append_of_absent rfl (by simp) hbefore, if_neg hname] at hfrom
      cases hfrom

/-! ## Directories along a path -/

/-- No directory along a path is missing that could be made: no part of the path ends in a directory
that lacks the last name. -/
def Laid (t : Tree Node) (path : List String) : Prop :=
  ∀ way, way <+: path → ∀ k name asDirectory, walk .upTo t way ≠ .ok (.absent k name asDirectory)

/-- What making directories along a path leaves of a host: files, streams and all entries that were
there are as they were, and every new entry is a directory with the permissions that directories on
the way get, and a part of the path leads to it. -/
structure Paved (path : List String) (h h' : Host) : Prop where
  files : h'.files = h.files
  streams : h'.streams = h.streams
  kept : Extends h.tree h'.tree
  made : ∀ k node, h.tree.get? k = none → h'.tree.get? k = some node →
    node = .directory (withheld 0o1777 defaultPerm) ∧
      ∃ way, way <+: path ∧ lookup .through h'.tree way = .ok (k, node)

theorem Paved.refl (path : List String) (h : Host) : Paved path h h where
  files := rfl
  streams := rfl
  kept := fun _ _ hj => hj
  made := by
    intro k node hnone hsome
    rw [hnone] at hsome
    cases hsome

/-- One more directory at a part of the path. -/
theorem Paved.insert (hpaved : Paved path h h') (hway : way <+: path)
    (hwalk : walk .upTo h'.tree way = .ok (.absent k name asDirectory)) :
    Paved path h { h' with
      tree := h'.tree.insert (k ++ [name]) (.directory (withheld 0o1777 defaultPerm)) } where
  files := hpaved.files
  streams := hpaved.streams
  kept := fun j node hj =>
    extends_insert (get?_of_absent hwalk) _ j node (hpaved.kept j node hj)
  made := by
    have hextends :=
      extends_insert (get?_of_absent hwalk) (.directory (withheld 0o1777 defaultPerm))
    intro j node hnone hsome
    change (h'.tree.insert (k ++ [name]) _).get? j = _ at hsome
    have hnew := hsome
    rw [Tree.get?_insert] at hnew
    split at hnew
    · rename_i heq
      cases hnew
      subst heq
      -- the part of the path that found nothing ends at the new directory
      have hthrough : walk .through h'.tree way = .ok (.absent k name asDirectory) :=
        walk_of_follow (m := .upTo) hwalk (by simp)
      refine ⟨rfl, way, hway, ?_⟩
      dsimp only
      rw [lookup, walk_of_absent_directory hextends hsome hthrough]
    · obtain ⟨hnode, way', hway', hlookup⟩ := hpaved.made j node hnone hnew
      exact ⟨hnode, way', hway', lookup_of_extends hextends hlookup⟩

theorem keeps_paved (path : List String) (h : Host) :
    Keeps (Paved path h) (makeDirectoriesAt path defaultPerm) := by
  refine keeps_makeBackwards_of fun way hway p hp => ?_
  rw [List.reverse_reverse] at hway
  obtain rfl : p = defaultPerm := hp.elim id id
  exact keeps_makeDirectory fun h' k name asDirectory hpaved hwalk => hpaved.insert hway hwalk

/-- Where no directory is missing, none is made. -/
theorem keeps_of_laid (hlaid : Laid h.tree path) :
    Keeps (fun h' => h' = h) (makeDirectoriesAt path defaultPerm) := by
  refine keeps_makeBackwards_of fun way hway p hp => ?_
  rw [List.reverse_reverse] at hway
  refine keeps_makeDirectory fun h' k name asDirectory hsame hwalk => ?_
  rw [hsame] at hwalk
  exact absurd hwalk (hlaid way hway k name asDirectory)

/-- A directory that has been made is not taken away. -/
theorem lasting_directory (k : Key) (p : Nat) :
    Lasting fun h => h.tree.get? k = some (.directory p) := by
  intro h j q hk hnone
  dsimp only
  rw [Tree.get?_insert, if_neg, hk]
  rintro rfl
  rw [hk] at hnone
  cases hnone

theorem attains_ensureDirectory
    (hwalk : walk .upTo h.tree path = .ok (.absent k name asDirectory)) :
    Attains (fun h => h.tree.get? (k ++ [name]) = some (.directory (withheld 0o1777 defaultPerm)))
      (ensureDirectory path defaultPerm) h := by
  have hmake := run_makeDirectory (by decide : fitsInt defaultPerm = true) path h
  rw [hwalk] at hmake
  rw [Attains, run_ensureDirectory_of_ok hmake]
  refine .ok ⟨rfl, ?_⟩
  dsimp only
  rw [Tree.get?_insert, if_pos rfl]

/-- A directory that is missing along a path is made, whatever becomes of the rest of the path. -/
theorem attains_makeDirectoriesAt (ht : Planted h.tree)
    (htop : ∃ p, h.tree.get? [] = some (.directory p)) (hnames : ∀ a ∈ path, Path.IsName a)
    (hway : way <+: path) (hwalk : walk .upTo h.tree way = .ok (.absent k name asDirectory)) :
    Attains (fun h => h.tree.get? (k ++ [name]) = some (.directory (withheld 0o1777 defaultPerm)))
      (makeDirectoriesAt path defaultPerm) h := by
  -- down the path: what comes before its last name is made first, unless it leads somewhere
  induction path using List.reverseRecOn with
  | nil =>
    rw [List.prefix_nil.1 hway] at hwalk
    exact attains_ensureDirectory hwalk
  | append_singleton path a ih =>
    rcases List.prefix_concat_iff.1 hway with rfl | hway
    · have hleads := leadsTo_of_absent ht htop (hnames a (by simp)) hwalk
      rw [Attains, run_makeDirectoriesAt_of_leadsTo hleads]
      exact attains_ensureDirectory hwalk
    · have hleads := leadsTo_eq_false_of_absent hwalk hway
      have hlasting := lasting_directory (k ++ [name]) (withheld 0o1777 defaultPerm)
      rw [Attains, run_makeDirectoriesAt_of_lost hleads]
      refine Attains.bind (Attains.tryCatch ?_ fun f => ?_) fun _ =>
        keeps_ensureDirectory (hlasting.keeps_makeDirectory _ _)
      · exact ih (fun b hb => hnames b (List.mem_append_left _ hb)) hway
      · split
        · exact .pure ()
        · exact .throw f

/-! ## Renaming calls -/

/-- A renaming call that fails does so in the state that making directories has left. -/
theorem makeParents_of_rename_error
    (hrun : (Rooted.rename root source target).run h = .error f h') :
    (makeParents (Rooted.route root target)).run h = .ok () h' ∨
      (makeParents (Rooted.route root target)).run h = .error f h' := by
  rw [Rooted.rename] at hrun
  cases hmade : (makeParents (Rooted.route root target)).run h with
  | error f₁ h₁ =>
    rw [run_bind_error hmade] at hrun
    exact .inr hrun
  | ok u h₁ =>
    rw [run_bind_ok hmade, run_rename] at hrun
    cases hplan : renamePlan h₁.tree (Rooted.route root source) (Rooted.route root target) with
    | error why =>
      rw [hplan] at hrun
      cases hrun
      exact .inl rfl
    | ok places =>
      rw [hplan] at hrun
      cases hrun

/-- What making directories leaves, a renaming call that fails leaves. -/
theorem of_rename_error {P : Host → Prop}
    (hattains : Attains P (makeDirectoriesAt (Rooted.route root target).dropLast defaultPerm) h)
    (hrun : (Rooted.rename root source target).run h = .error f h') : P h' := by
  rcases makeParents_of_rename_error hrun with hmade | hmade
  · exact hattains.of_ok hmade
  · exact hattains.of_error hmade

/-- Where no directory is missing on the way to its target, a renaming call that fails changes
nothing. -/
theorem rename_error_of_laid (hlaid : Laid h.tree (Rooted.route root target).dropLast)
    (hrun : (Rooted.rename root source target).run h = .error f h') : h' = h :=
  of_rename_error (P := fun h' => h' = h) ((keeps_of_laid hlaid).attains rfl) hrun

end Host

namespace FileSystem

open Host World

variable {root : Key} {path target : String} {f : Fault} {w w' : World}

/-- A renaming call on the host that fails leaves all that was there as it was, whatever the failure
and whatever links there are. New are only directories, at parts of the path to the directory of the
target, and the first that was missing is among them: nothing has changed exactly if none was
missing that could be made. -/
theorem rename_host_error (ht : Planted w.host.tree)
    (htop : ∃ p, w.host.tree.get? [] = some (.directory p)) (hroot : ∀ a ∈ root, Path.IsName a)
    (hrun : ((host root).rename path target).run w = .error f w') :
    w' = { w with host := w'.host } ∧
      Paved (Rooted.route root target).dropLast w.host w'.host ∧
      (∀ way, way <+: (Rooted.route root target).dropLast → ∀ k name asDirectory,
        walk .upTo w.host.tree way = .ok (.absent k name asDirectory) →
        w'.host.tree.get? (k ++ [name]) = some (.directory 0o755)) ∧
      (w' = w ↔ Laid w.host.tree (Rooted.route root target).dropLast) := by
  change (onHost (Rooted.rename root path target)).run w = .error f w' at hrun
  rw [run_onHost] at hrun
  cases hmove : (Rooted.rename root path target).run w.host with
  | ok u h' =>
    rw [hmove] at hrun
    cases hrun
  | error g h' =>
    rw [hmove] at hrun
    cases hrun
    have hnames : ∀ a ∈ (Rooted.route root target).dropLast, Path.IsName a := fun a ha =>
      Rooted.isName_of_mem_append_resolve hroot target a (List.dropLast_subset _ ha)
    have hpaved := of_rename_error ((keeps_paved _ w.host).attains (.refl _ w.host)) hmove
    have hfirst : ∀ way, way <+: (Rooted.route root target).dropLast → ∀ k name asDirectory,
        walk .upTo w.host.tree way = .ok (.absent k name asDirectory) →
        h'.tree.get? (k ++ [name]) = some (.directory 0o755) := fun way hway k name _ hwalk =>
      of_rename_error (attains_makeDirectoriesAt ht htop hnames hway hwalk) hmove
    refine ⟨rfl, hpaved, hfirst, fun hsame way hway k name asDirectory hwalk => ?_, fun hlaid => ?_⟩
    · have hmade := hfirst way hway k name asDirectory hwalk
      have hnone := get?_of_absent hwalk
      have hhost : h' = w.host := congrArg World.host hsame
      rw [hhost, hnone] at hmade
      cases hmade
    · rw [rename_error_of_laid hlaid hmove]

/-- Nothing is moved to a place below a link to a directory, and a directory has been made there. -/
theorem rename_host_error_through :
    ∃ f w', ((host ["srv"]).rename "none" "up/x/../x/y").run (hallWorld "f") = .error f w' ∧
      Paved ["srv", "up", "x"] (hallWorld "f").host w'.host ∧
      w'.host.tree.get? ["srv", "d", "x"] = some (.directory 0o755) := by
  have ht : Planted (hallWorld "f").host.tree := by decide +kernel
  have htop : ∃ p, (hallWorld "f").host.tree.get? [] = some (.directory p) := ⟨_, rfl⟩
  have hroot : ∀ a ∈ ["srv"], Path.IsName a := by decide
  have hway : (Rooted.route ["srv"] "up/x/../x/y").dropLast = ["srv", "up", "x"] := by
    decide +kernel
  have hwalk : walk .upTo (hallWorld "f").host.tree ["srv", "up", "x"] =
      .ok (.absent ["srv", "d"] "x" false) := by decide +kernel
  have hrun : ((host ["srv"]).rename "none" "up/x/../x/y").run (hallWorld "f") =
      .error (.onPaths .missing "/srv/none" "/srv/up/x/y") { hallWorld "f" with
        host := { (hallWorld "f").host with
          tree := (hallWorld "f").host.tree.insert ["srv", "d", "x"] (.directory 0o755) } } := rfl
  obtain ⟨-, hpaved, hfirst, -⟩ := rename_host_error ht htop hroot hrun
  rw [hway] at hpaved hfirst
  exact ⟨_, _, hrun, hpaved, hfirst _ List.prefix_rfl _ _ _ hwalk⟩

/-- Where nothing is but the root, what is not there is not moved, and a directory is made for
it. -/
theorem rename_host_error_changed :
    let w : World := { host := { tree := ⟨[([], .directory 0o755), (["srv"], .directory 0o755)]⟩ } }
    ∃ f w', ((host ["srv"]).rename "missing" "a/b").run w = .error f w' ∧
      f.isFilesystemError = true ∧ w.host.tree.get? ["srv", "a"] = none ∧
      w'.host.tree.get? ["srv", "a"] = some (.directory 0o755) := by
  intro w
  have hrun : ((host ["srv"]).rename "missing" "a/b").run w =
      .error (.onPaths .missing "/srv/missing" "/srv/a/b")
        { host := { tree := w.host.tree.insert ["srv", "a"] (.directory 0o755) } } := rfl
  exact ⟨_, _, hrun, by decide, by decide, by decide⟩

end FileSystem

end RootedFS
