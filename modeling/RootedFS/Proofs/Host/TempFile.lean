import RootedFS.Proofs.Host.Listing
import RootedFS.Proofs.Host.ReadBack

/-!
# Temporary files on the host

The directory of a temporary file is made with whatever is missing on the way to it, and then its
path leads to a directory, by whatever links. A number is passed over when its name is taken, and
that changes nothing; the first name that is free in that directory becomes the file's. The path
that goes on from the directory's by that name leads to the file.

## Main definitions

* `Host.Grown`: a host to which directories have been added
* `Host.withTemp`: a host with a temporary file in a directory
* `Host.Gains`: what a host gains with a temporary file

## Main results

* `Host.exists_lookup_of_makeDirectoriesAt`: the path of directories that have been made leads to
  one
* `Host.openTemp_ok`: where a temporary file is, and which path leads to it
* `FileSystem.exists_of_run_firstFree`: the number that a search settles on
-/

namespace RootedFS

open Memory (run_bind_ok run_bind_error exists_of_run_bind run_tryCatch)

namespace Host

open Rooted

variable {h h' h₁ : Host} {t : Tree Node} {k k' : Key} {a directory lead name : String}
  {path : List String} {perm number : Int} {p : Nat} {root : Key}

/-! ## Directories that are made -/

theorem exists_lookup_of_leadsTo (hleads : leadsTo t Node.isDirectory path = true) :
    ∃ k p, lookup .through t path = .ok (k, .directory p) := by
  rw [leadsTo] at hleads
  cases hlookup : lookup .through t path with
  | error why =>
    rw [hlookup] at hleads
    cases hleads
  | ok found =>
    obtain ⟨k, node⟩ := found
    rw [hlookup] at hleads
    cases node with
    | directory p => exact ⟨k, p, rfl⟩
    | file n => cases hleads
    | link target => cases hleads

/-- The path of a directory that has been made leads to it. -/
theorem exists_lookup_of_makeDirectory (hrun : (makeDirectory path perm).run h = .ok () h') :
    ∃ k p, lookup .through h'.tree path = .ok (k, .directory p) := by
  have hperm : fitsInt perm = true := by
    obtain ⟨⟨⟩, h₁, -, hrun⟩ := exists_of_run_bind hrun
    obtain ⟨⟨⟩, h₂, hrequire, -⟩ := exists_of_run_bind hrun
    exact fitsInt_of_run_requireInt hrequire
  rw [run_makeDirectory hperm] at hrun
  cases hwalk : walk .upTo h.tree path with
  | error why =>
    rw [hwalk] at hrun
    cases hrun
  | ok found =>
    rw [hwalk] at hrun
    cases found with
    | entry k node => cases hrun
    | absent k name asDirectory =>
      cases hrun
      have hfollow : walk .through h.tree path = .ok (.absent k name asDirectory) :=
        walk_of_follow (m := .upTo) hwalk (by simp)
      have hget := Tree.get?_insert h.tree (k ++ [name]) (k ++ [name])
        (.directory (withheld 0o1777 perm))
      rw [if_pos rfl] at hget
      have hend := walk_of_absent_directory (extends_insert (get?_of_absent hwalk) _) hget hfollow
      exact ⟨_, _, by rw [lookup, hend]⟩

theorem exists_lookup_of_ensureDirectory (hrun : (ensureDirectory path perm).run h = .ok () h') :
    ∃ k p, lookup .through h'.tree path = .ok (k, .directory p) := by
  rw [ensureDirectory, run_tryCatch] at hrun
  cases hmake : (makeDirectory path perm).run h with
  | ok u h₁ =>
    rw [hmake] at hrun
    cases hrun
    exact exists_lookup_of_makeDirectory hmake
  | error f h₁ =>
    rw [hmake] at hrun
    dsimp only at hrun
    rw [run_bind_ok (EStateM.run_get h₁)] at hrun
    split at hrun
    · rename_i hthere
      cases hrun
      exact exists_lookup_of_leadsTo (Bool.and_eq_true_iff.1 hthere).2
    · cases hrun

/-- The path of directories that have been made leads to a directory, by whatever links. -/
theorem exists_lookup_of_makeDirectoriesAt
    (hrun : (makeDirectoriesAt path perm).run h = .ok () h') :
    ∃ k p, lookup .through h'.tree path = .ok (k, .directory p) := by
  -- whatever is made on the way, the last step ensures the directory itself
  rcases List.eq_nil_or_concat path with rfl | ⟨way, name, rfl⟩
  · exact exists_lookup_of_ensureDirectory hrun
  · rw [List.concat_eq_append, makeDirectoriesAt, List.reverse_append, List.reverse_singleton,
      List.singleton_append, makeBackwards, run_bind_ok (EStateM.run_get h)] at hrun
    rw [List.concat_eq_append]
    have hensure : ∃ h₁, (ensureDirectory (name :: way.reverse).reverse perm).run h₁ =
        .ok () h' := by
      split at hrun
      · exact ⟨h, hrun⟩
      · obtain ⟨⟨⟩, h₁, -, hrun⟩ := exists_of_run_bind hrun
        exact ⟨h₁, hrun⟩
    obtain ⟨h₁, hensure⟩ := hensure
    rw [List.reverse_cons, List.reverse_reverse] at hensure
    exact exists_lookup_of_ensureDirectory hensure

/-- A host before and after directories have been added to it. -/
structure Grown (h h' : Host) : Prop where
  kept : Extends h.tree h'.tree
  origin : ∀ j node, h'.tree.get? j = some node →
    h.tree.get? j = some node ∨ ∃ p, node = .directory p
  files : h'.files = h.files

theorem Grown.refl (h : Host) : h.Grown h :=
  ⟨fun _ _ hj => hj, fun _ _ hj => .inl hj, rfl⟩

theorem lasting_grown (h : Host) : Lasting (Grown h) := by
  intro h' k p hgrown hnone
  refine ⟨fun j node hj => extends_insert hnone _ j node (hgrown.kept j node hj), ?_, hgrown.files⟩
  intro j node hj
  change (h'.tree.insert k (.directory p)).get? j = _ at hj
  rw [Tree.get?_insert] at hj
  split at hj
  · exact .inr ⟨p, (Option.some.inj hj).symm⟩
  · exact hgrown.origin j node hj

/-! ## Opening temporary files -/

/-- A host with an empty temporary file in the directory at a key, and a stream on it. -/
def withTemp (k : Key) (a : String) (h : Host) : Host :=
  { h with
    tree := h.tree.insert (k ++ [a]) (.file h.files.length)
    files := h.files ++ [.owned [] 0o600]
    streams := h.streams ++ [Stream.ofFlags tempFlags (some h.files.length) 0] }

/-- The caller may use a temporary file in every way, as its owner. -/
theorem permits_withTemp (h : Host) (k : Key) (a : String) (right : Right) :
    (h.withTemp k a).permits ((h.withTemp k a).file h.files.length) right = true := by
  have hfile : (h.withTemp k a).file h.files.length = .owned [] 0o600 := file_append_length h _
  have hallows : (Regular.owned [] 0o600).allows right = true := by cases right <;> decide
  rw [hfile, permits, hallows, Bool.or_true]

/-- What a host gains with a temporary file: where nothing was in a directory, there is an empty
file that its owner may read and write, and there alone; all that was there is as it was, and
nothing else is new but directories. -/
structure Gains (h h' : Host) (k : Key) (a : String) : Prop where
  absent : h.tree.get? (k ++ [a]) = none
  directory : ∃ p, h'.tree.get? k = some (.directory p)
  place : ∀ j, h'.tree.get? j = some (.file h.files.length) ↔ j = k ++ [a]
  file : h'.files = h.files ++ [.owned [] 0o600]
  kept : ∀ j node, h.tree.get? j = some node → h'.tree.get? j = some node
  only : ∀ j node, h.tree.get? j = none → h'.tree.get? j = some node →
    j = k ++ [a] ∨ ∃ p, node = .directory p

/-- With a temporary file where nothing was, a host gains it and the directories that were made
before. -/
theorem Grown.gains (hgrown : h.Grown h₁) (hfiled : h.Filed)
    (hdir : h₁.tree.get? k = some (.directory p)) (hnone : h₁.tree.get? (k ++ [a]) = none) :
    h.Gains (h₁.withTemp k a) k a := by
  have hnew : ∀ j, (h₁.withTemp k a).tree.get? j =
      if j = k ++ [a] then some (.file h.files.length) else h₁.tree.get? j := by
    intro j
    rw [← hgrown.files]
    exact Tree.get?_insert _ _ _ _
  have hextends : Extends h₁.tree (h₁.withTemp k a).tree := extends_insert hnone _
  refine {
    absent := ?absent
    directory := ⟨p, hextends _ _ hdir⟩
    place := ?place
    file := by rw [← hgrown.files]; rfl
    kept := fun j node hj => hextends _ _ (hgrown.kept j node hj)
    only := ?only }
  case absent =>
    by_contra hsome
    obtain ⟨node, hnode⟩ := Option.ne_none_iff_exists'.1 hsome
    rw [hgrown.kept _ _ hnode] at hnone
    cases hnone
  case place =>
    intro j
    rw [hnew]
    split
    · rename_i heq
      exact iff_of_true rfl heq
    · rename_i hne
      refine iff_of_false (fun hj => ?_) hne
      rcases hgrown.origin j _ hj with hold | ⟨p', hp⟩
      · exact Nat.lt_irrefl _ (hfiled j _ hold)
      · cases hp
  case only =>
    intro j node hj hnode
    rw [hnew] at hnode
    split at hnode
    · exact .inl ‹_›
    · rcases hgrown.origin j node hnode with hold | hdir'
      · rw [hj] at hold
        cases hold
      · exact .inr hdir'

/-- Opening a temporary file makes a file where nothing is, and is refused elsewhere. -/
theorem opening_temp (t : Tree Node) (path : List String) :
    opening t path tempFlags =
      match walk ⟨false, true⟩ t path with
      | .ok (.entry ..) => .error .present
      | .ok (.absent k name _) => .ok (.make (k ++ [name]))
      | .error why => .error why := by
  change (walk ⟨false, true⟩ t path >>= _) = _
  cases walk ⟨false, true⟩ t path with
  | error why => rfl
  | ok found =>
    cases found with
    | absent k name asDirectory => rfl
    | entry k node => cases node <;> rfl

theorem run_openTemp (hlead : '/' ∉ lead.toList) (root : Key) (directory : String) (number : Int)
    (h : Host) :
    (openTemp root directory lead number).run h =
      match walk ⟨false, true⟩ h.tree (route root directory ++ [lead ++ toString number]) with
      | .ok (.entry ..) => .error (.onPath .present
          (Key.toString (route root directory ++ [lead ++ toString number]))) h
      | .ok (.absent k name _) =>
        .ok (h.streams.length, Path.join [directory, lead ++ toString number]) (h.withTemp k name)
      | .error why =>
        .error (.forPath why (Key.toString (route root directory ++ [lead ++ toString number])))
          h := by
  rw [openTemp]
  simp only [tempRoute_eq hlead, List.getLast?_concat, Option.getD_some]
  cases hnull : hasNull (Key.toString (route root directory ++ [lead ++ toString number])) with
  | true =>
    rw [walk_of_hasNull hnull]
    exact run_bind_error (run_bind_error (run_requirePath_error hnull h))
  | false =>
    have hentry := run_openEntry hnull tempFlags (by decide) tempPerm (by decide) h
    rw [opening_temp] at hentry
    cases hwalk : walk ⟨false, true⟩ h.tree (route root directory ++ [lead ++ toString number]) with
    | error why =>
      rw [hwalk] at hentry
      exact run_bind_error hentry
    | ok found =>
      rw [hwalk] at hentry
      cases found with
      | entry k node => exact run_bind_error hentry
      | absent k name asDirectory =>
        rw [run_bind_ok (run_onRoute_ok _ _ h)] at hentry
        have hmake : (openEntry (route root directory ++ [lead ++ toString number]) tempFlags
            tempPerm).run h = .ok (some h.files.length) { h with
              tree := h.tree.insert (k ++ [name]) (.file h.files.length)
              files := h.files ++ [.owned [] 0o600] } := hentry
        have hempty : (({ h with
            tree := h.tree.insert (k ++ [name]) (.file h.files.length)
            files := h.files ++ [.owned [] 0o600] } : Host).file h.files.length).content = [] :=
          congrArg Regular.content (file_append_length h _)
        rw [run_bind_ok hmake, run_bind_ok (run_openStream _ _ _), hempty]
        rfl

/-- Where a call that makes a file of its own finds nothing, a call that follows links finds
nothing. -/
theorem walk_through_of_fresh {asDirectory : Bool}
    (hwalk : walk ⟨false, true⟩ t path = .ok (.absent k name asDirectory)) :
    walk .through t path = .ok (.absent k name false) := by
  obtain rfl := asDirectory_of_forFile rfl hwalk
  have hupTo : walk .upTo t path = .ok (.absent k name false) :=
    walk_of_forFile (m := ⟨false, true⟩) hwalk
  exact walk_of_follow (m := .upTo) hupTo (by simp)

/-- A directory lacks the name that the path going on from its own by that name does not lead to. -/
theorem eq_of_walk_absent {asDirectory : Bool} (ha : Path.IsName a)
    (hdir : lookup .through t path = .ok (k, .directory p))
    (hwalk : walk ⟨false, true⟩ t (path ++ [a]) = .ok (.absent k' name asDirectory)) :
    k' = k ∧ name = a := by
  have hupTo : walk .upTo t (path ++ [a]) = .ok (.absent k' name asDirectory) :=
    walk_of_forFile (m := ⟨false, true⟩) hwalk
  have htext := pathRefusal?_of_walk hupTo
  obtain ⟨n, hn⟩ := exists_walk_append (m := .upTo) rfl (by simp) hdir htext
  rw [hn, walkFrom] at hupTo
  by_cases hlong : maxName < a.utf8ByteSize
  · rw [leg, if_neg (not_or.2 ⟨ha.ne_empty, ha.ne_dot⟩), if_neg ha.ne_dots, if_neg (by simp),
      if_pos hlong] at hupTo
    cases hupTo
  · rw [leg_name ha (Nat.not_lt.1 hlong) (by simp)] at hupTo
    -- whatever has the name would be where the walk ends
    cases hget : t.get? (k ++ [a]) with
    | none =>
      rw [hget] at hupTo
      cases hupTo
      exact ⟨rfl, rfl⟩
    | some node =>
      rw [hget] at hupTo
      cases node with
      | directory p' =>
        simp only [leg, hget] at hupTo
        cases hupTo
      | file m => cases hupTo
      | link target => cases hupTo

/-- A temporary file is made in the directory that its directory's path leads to, where the name is
free, and the path that goes on by the name leads to it. -/
theorem openTemp_ok {r : Nat × String} (hlead : '/' ∉ lead.toList)
    (hdir : lookup .through h.tree (route root directory) = .ok (k, .directory p))
    (hrun : (openTemp root directory lead number).run h = .ok r h') :
    r = (h.streams.length, Path.join [directory, lead ++ toString number]) ∧
      h.tree.get? (k ++ [lead ++ toString number]) = none ∧
      h' = h.withTemp k (lead ++ toString number) ∧
      walk .through h'.tree (route root directory ++ [lead ++ toString number]) =
        .ok (.entry (k ++ [lead ++ toString number]) (.file h.files.length)) := by
  rw [run_openTemp hlead] at hrun
  cases hwalk : walk ⟨false, true⟩ h.tree (route root directory ++ [lead ++ toString number]) with
  | error why =>
    rw [hwalk] at hrun
    cases hrun
  | ok found =>
    rw [hwalk] at hrun
    cases found with
    | entry k' node => cases hrun
    | absent k' name asDirectory =>
      obtain ⟨rfl, rfl⟩ := eq_of_walk_absent (Path.isName_append_number hlead number) hdir hwalk
      have hthrough := walk_through_of_fresh hwalk
      have hnone := get?_of_absent hwalk
      cases hrun
      have hget : (h.withTemp k' (lead ++ toString number)).tree.get?
          (k' ++ [lead ++ toString number]) = some (.file h.files.length) :=
        (Tree.get?_insert _ _ _ _).trans (if_pos rfl)
      exact ⟨rfl, hnone, rfl, walk_of_absent (extends_insert hnone _) hget rfl (by simp) hthrough⟩

/-- A number whose name is not free leaves the host as it was. -/
theorem openTemp_error {f : Fault} (hlead : '/' ∉ lead.toList)
    (hrun : (openTemp root directory lead number).run h = .error f h') : h' = h := by
  rw [run_openTemp hlead] at hrun
  split at hrun
  all_goals
    cases hrun
  all_goals
    rfl

end Host

namespace FileSystem

open World

variable {w w' : World}

/-- A search that succeeds does so with some number, when the numbers before it change nothing. -/
theorem exists_of_run_firstFree {α : Type} {attempt : Int → WorldM α} {n : Nat} {x : α}
    (hattempt : ∀ number w f w', (attempt number).run w = .error f w' → w' = w)
    (hrun : (firstFree attempt n).run w = .ok x w') :
    ∃ number supply, (attempt number).run { w with supply } = .ok x w' := by
  induction n generalizing w with
  | zero => cases hrun
  | succ n ih =>
    have hdraw : draw.run w = .ok w.supply.draw.1 { w with supply := w.supply.draw.2 } := rfl
    rw [firstFree, run_bind_ok hdraw, run_tryCatch] at hrun
    cases hfirst : (attempt w.supply.draw.1).run { w with supply := w.supply.draw.2 } with
    | ok y w₁ =>
      rw [hfirst] at hrun
      cases hrun
      exact ⟨_, _, hfirst⟩
    | error f w₁ =>
      obtain rfl := hattempt _ _ _ _ hfirst
      rw [hfirst] at hrun
      dsimp only at hrun
      split at hrun
      · obtain ⟨number, supply, hnumber⟩ := ih hrun
        exact ⟨number, supply, hnumber⟩
      · cases hrun

end FileSystem

end RootedFS
