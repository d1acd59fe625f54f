import RootedFS.Host.Rooted
import RootedFS.Proofs.Memory.Disk

/-!
# Walks that find nothing, and what is put there

A walk that ends in a directory without the last name has looked for an entry of that name only at
its end. Once an entry is put there, the same walk ends at it.

## Main results

* `Host.leg_entry`: by a name a leg goes to the entry of that name
* `Host.walk_of_absent`: a walk that found nothing ends at what is put in its place
* `Host.readlink_of_symlink`: a symbolic link that has been made is read by the same path
-/

namespace RootedFS.Host

open Memory

variable {t t' : Tree Node} {m : Manner} {k k' : Key} {route route' : List String} {name : String}
  {node : Node}

/-- A tree has all the entries of another. -/
def Extends (t t' : Tree Node) : Prop :=
  ∀ j node, t.get? j = some node → t'.get? j = some node

/-! ## Texts that are walked -/

theorem pathRefusal?_eq_none_iff {text : String} :
    pathRefusal? text = none ↔ hasNull text = false ∧ text.utf8ByteSize < maxPath := by
  unfold pathRefusal?
  split
  · simp [*]
  · split <;> simp_all

/-- No text is refused because something is missing. -/
theorem kind_of_pathRefusal? {text : String} {why : Refusal} (h : pathRefusal? text = some why) :
    why.kind ≠ .missing := by
  unfold pathRefusal? at h
  split at h
  · cases h
    decide
  · split at h
    · cases h
      decide
    · cases h

theorem hasNull_append (s s' : String) : hasNull (s ++ s') = (hasNull s || hasNull s') := by
  simp [hasNull]

theorem walk_eq (h : pathRefusal? (Key.toString route) = none) :
    walk m t route = walkFrom m t maxLinks [] route := by
  rw [walk, h]

theorem walk_eq_error {why : Refusal} (h : pathRefusal? (Key.toString route) = some why) :
    walk m t route = .error why := by
  rw [walk, h]

/-- The text of a path that leads anywhere is one that is walked. -/
theorem pathRefusal?_of_walk {found : Found} (hwalk : walk m t route = .ok found) :
    pathRefusal? (Key.toString route) = none := by
  cases h : pathRefusal? (Key.toString route) with
  | none => rfl
  | some why =>
    rw [walk_eq_error h] at hwalk
    cases hwalk

theorem hasNull_of_walk {found : Found} (hwalk : walk m t route = .ok found) :
    hasNull (Key.toString route) = false :=
  (pathRefusal?_eq_none_iff.1 (pathRefusal?_of_walk hwalk)).1

/-! ## Legs by names -/

/-- Where no file may be made, slashes at the end are no trouble. -/
theorem not_slash {rest : List String} (hm : m.forFile = false) :
    ¬(m.forFile = true ∧ rest ≠ [] ∧ onlySlashes rest = true) := by
  simp [hm]

/-- By a name that may be had, a leg goes to the entry of that name. -/
theorem leg_entry {piece : String} {rest : List String}
    (hskip : ¬(piece = "" ∨ piece = ".")) (hup : ¬piece = "..")
    (hslash : ¬(m.forFile = true ∧ rest ≠ [] ∧ onlySlashes rest = true))
    (hlong : ¬maxName < piece.utf8ByteSize) :
    leg m t k (piece :: rest) =
      match t.get? (k ++ [piece]) with
      | none =>
        if onlySlashes rest then .done (.absent k piece (rest ≠ [])) else .failed .missing
      | some (.directory _) => leg m t (k ++ [piece]) rest
      | some (.file number) =>
        if rest = [] then .done (.entry (k ++ [piece]) (.file number)) else .failed .notDirectory
      | some (.link target) =>
        if rest = [] ∧ ¬m.follow then .done (.entry (k ++ [piece]) (.link target))
        else .link (if Path.isAbsolute target then [] else k) (Path.pieces target ++ rest) := by
  refine (if_neg hskip).trans ((if_neg hup).trans ((if_neg hslash).trans ((if_neg hlong).trans ?_)))
  rcases t.get? (k ++ [piece]) with _ | (perm | number | target) <;> rfl

/-! ## Walks by their legs -/

/-- A walk that ends somewhere ends with a leg. -/
theorem exists_leg_of_walk {found : Found} (hwalk : walk m t route = .ok found) :
    ∃ k route, leg m t k route = .done found := by
  have hlegs : ∀ links k route, walkFrom m t links k route = .ok found →
      ∃ k route, leg m t k route = .done found := by
    intro links k route hwalk
    fun_induction walkFrom m t links k route with
    | case1 links k route found' hleg =>
      rw [Except.ok.injEq] at hwalk
      exact ⟨k, route, hwalk ▸ hleg⟩
    | case2 | case3 => cases hwalk
    | case4 k route k₁ route₁ hleg links ih => exact ih hwalk
  rw [walk_eq (pathRefusal?_of_walk hwalk)] at hwalk
  exact hlegs _ _ _ hwalk

/-- Where each leg to a link leads to the same link in another manner or another tree, a walk there
ends as its last leg does. -/
theorem walk_of_legs {m' : Manner} {found found' : Found}
    (hlink : ∀ k route k' route', leg m t k route = .link k' route' →
      leg m' t' k route = .link k' route')
    (hdone : ∀ k route, leg m t k route = .done found → leg m' t' k route = .done found')
    (hwalk : walk m t route = .ok found) : walk m' t' route = .ok found' := by
  have hlegs : ∀ links k route, walkFrom m t links k route = .ok found →
      walkFrom m' t' links k route = .ok found' := by
    intro links k route hwalk
    fun_induction walkFrom m t links k route with
    | case1 links k route found'' hleg =>
      rw [Except.ok.injEq] at hwalk
      rw [walkFrom, hdone _ _ (hwalk ▸ hleg)]
    | case2 | case3 => cases hwalk
    | case4 k route k₁ route₁ hleg links ih =>
      rw [walkFrom, hlink _ _ _ _ hleg]
      exact ih hwalk
  have hroute := pathRefusal?_of_walk hwalk
  rw [walk_eq hroute] at hwalk ⊢
  exact hlegs _ _ _ hwalk

/-- What is looked up is where a walk ends. -/
theorem walk_of_lookup (hlookup : lookup m t route = .ok (k, node)) :
    walk m t route = .ok (.entry k node) := by
  unfold lookup at hlookup
  split at hlookup
  · rename_i hwalk
    obtain ⟨rfl, rfl⟩ := Prod.mk.inj (Except.ok.inj hlookup)
    exact hwalk
  · cases hlookup
  · cases hlookup

/-! ## Walks in a tree that has more -/

/-- A leg to a link passes through entries alone. -/
theorem leg_of_link (h : Extends t t') (hleg : leg m t k route = .link k' route') :
    leg m t' k route = .link k' route' := by
  fun_induction leg m t k route with
  | case1 k node hget => cases hleg
  | case2 k hget => cases hleg
  | case3 k piece rest hskip ih =>
    rw [leg, if_pos hskip]
    exact ih hleg
  | case4 k rest hskip ih =>
    rw [leg, if_neg hskip, if_pos rfl]
    exact ih hleg
  | case5 => cases hleg
  | case6 => cases hleg
  | case7 => cases hleg
  | case8 => cases hleg
  | case9 k piece rest hskip hup hfile hlong perm hget ih =>
    rw [leg_entry hskip hup hfile hlong, h _ _ hget]
    exact ih hleg
  | case10 => cases hleg
  | case11 => cases hleg
  | case12 => cases hleg
  | case13 k piece rest hskip hup hfile hlong target hget hend =>
    rw [leg_entry hskip hup hfile hlong, h _ _ hget]
    dsimp only
    rw [if_neg hend]
    exact hleg

/-- A leg that ends at an entry passes through entries alone. -/
theorem leg_of_entry (h : Extends t t') (hleg : leg m t k route = .done (.entry k' node)) :
    leg m t' k route = .done (.entry k' node) := by
  fun_induction leg m t k route with
  | case1 k node' hget => rw [leg, h _ _ hget, ← hleg]
  | case3 k piece rest hskip ih =>
    rw [leg, if_pos hskip]
    exact ih hleg
  | case4 k rest hskip ih =>
    rw [leg, if_neg hskip, if_pos rfl]
    exact ih hleg
  | case9 k piece rest hskip hup hfile hlong perm hget ih =>
    rw [leg_entry hskip hup hfile hlong, h _ _ hget]
    exact ih hleg
  | case10 k piece hskip hup hlong number hget hfile =>
    rw [leg_entry hskip hup hfile hlong, h _ _ hget, ← hleg]
    rfl
  | case12 k piece rest hskip hup hfile hlong target hget hend =>
    rw [leg_entry hskip hup hfile hlong, h _ _ hget, ← hleg]
    exact if_pos hend
  | _ => cases hleg

theorem lookup_of_extends (h : Extends t t') (hlookup : lookup m t route = .ok (k, node)) :
    lookup m t' route = .ok (k, node) := by
  have hwalk : walk m t' route = .ok (.entry k node) :=
    walk_of_legs (fun _ _ _ _ => leg_of_link h) (fun _ _ => leg_of_entry h) (walk_of_lookup hlookup)
  rw [lookup, hwalk]

/-! ## Walks that find nothing -/

/-- A leg that found nothing ends at what is put in its place, unless it follows that further. -/
theorem leg_of_absent (h : Extends t t') (hnode : t'.get? (k' ++ [name]) = some node)
    (hkind : node.isDirectory = false) (hlink : ∀ target, node = .link target → m.follow = false)
    (hleg : leg m t k route = .done (.absent k' name false)) :
    leg m t' k route = .done (.entry (k' ++ [name]) node) := by
  fun_induction leg m t k route with
  | case1 => cases hleg
  | case2 => cases hleg
  | case3 k piece rest hskip ih =>
    rw [leg, if_pos hskip]
    exact ih hleg
  | case4 k rest hskip ih =>
    rw [leg, if_neg hskip, if_pos rfl]
    exact ih hleg
  | case5 => cases hleg
  | case6 => cases hleg
  | case7 k piece rest hskip hup hfile hlong hget hend =>
    rw [Leg.done.injEq, Found.absent.injEq] at hleg
    obtain ⟨rfl, rfl, hrest⟩ := hleg
    have hnil : rest = [] := by simpa using hrest
    rw [leg_entry hskip hup hfile hlong, hnode]
    cases node with
    | directory perm => cases hkind
    | file number => simp [hnil]
    | link target => simp [hnil, hlink target rfl]
  | case8 => cases hleg
  | case9 k piece rest hskip hup hfile hlong perm hget ih =>
    rw [leg_entry hskip hup hfile hlong, h _ _ hget]
    exact ih hleg
  | case10 => cases hleg
  | case11 => cases hleg
  | case12 => cases hleg
  | case13 => cases hleg

/-- A walk that found nothing ends at what is put in its place, unless it follows that further. -/
theorem walk_of_absent (h : Extends t t') (hnode : t'.get? (k' ++ [name]) = some node)
    (hkind : node.isDirectory = false) (hlink : ∀ target, node = .link target → m.follow = false)
    (hwalk : walk m t route = .ok (.absent k' name false)) :
    walk m t' route = .ok (.entry (k' ++ [name]) node) :=
  -- the legs to links are the same, and the last one ends at the node
  walk_of_legs (fun _ _ _ _ => leg_of_link h) (fun _ _ => leg_of_absent h hnode hkind hlink) hwalk

/-- Slashes do not lead away from a directory. -/
theorem leg_onlySlashes (h : onlySlashes route = true) (k : Key) :
    leg m t k route = leg m t k [] := by
  induction route with
  | nil => rfl
  | cons piece rest ih =>
    rw [onlySlashes, List.all_cons, Bool.and_eq_true, decide_eq_true_iff] at h
    have hskip : leg m t k (piece :: rest) = leg m t k rest := if_pos (.inl h.1)
    exact hskip.trans (ih h.2)

/-- A leg that found nothing ends at a directory that is put in its place. -/
theorem leg_of_absent_directory {perm : Nat} {asDirectory : Bool} (h : Extends t t')
    (hnode : t'.get? (k' ++ [name]) = some (.directory perm))
    (hleg : leg m t k route = .done (.absent k' name asDirectory)) :
    leg m t' k route = .done (.entry (k' ++ [name]) (.directory perm)) := by
  fun_induction leg m t k route with
  | case3 k piece rest hskip ih =>
    rw [leg, if_pos hskip]
    exact ih hleg
  | case4 k rest hskip ih =>
    rw [leg, if_neg hskip, if_pos rfl]
    exact ih hleg
  | case7 k piece rest hskip hup hfile hlong hget hend =>
    rw [Leg.done.injEq, Found.absent.injEq] at hleg
    obtain ⟨rfl, rfl, -⟩ := hleg
    rw [leg_entry hskip hup hfile hlong, hnode]
    dsimp only
    rw [leg_onlySlashes hend, leg, hnode]
  | case9 k piece rest hskip hup hfile hlong perm hget ih =>
    rw [leg_entry hskip hup hfile hlong, h _ _ hget]
    exact ih hleg
  | _ => cases hleg

/-- A walk that found nothing ends at a directory that is put in its place. -/
theorem walk_of_absent_directory {perm : Nat} {asDirectory : Bool} (h : Extends t t')
    (hnode : t'.get? (k' ++ [name]) = some (.directory perm))
    (hwalk : walk m t route = .ok (.absent k' name asDirectory)) :
    walk m t' route = .ok (.entry (k' ++ [name]) (.directory perm)) :=
  walk_of_legs (fun _ _ _ _ => leg_of_link h) (fun _ _ => leg_of_absent_directory h hnode) hwalk

theorem extends_insert (h : t.get? k = none) (node : Node) : Extends t (t.insert k node) := by
  intro j node' hj
  rw [Tree.get?_insert, if_neg, hj]
  rintro rfl
  rw [h] at hj
  cases hj

/-- A walk that finds nothing has looked for an entry. -/
theorem get?_of_absent {asDirectory : Bool}
    (hwalk : walk m t route = .ok (.absent k name asDirectory)) :
    t.get? (k ++ [name]) = none := by
  obtain ⟨k', route', hleg⟩ := exists_leg_of_walk hwalk
  fun_induction leg m t k' route' with
  | case3 k' piece rest hskip ih => exact ih hleg
  | case4 k' rest hskip ih => exact ih hleg
  | case7 k' piece rest hskip hup hfile hlong hget hend =>
    rw [Leg.done.injEq, Found.absent.injEq] at hleg
    obtain ⟨rfl, rfl, -⟩ := hleg
    exact hget
  | case9 k' piece rest hskip hup hfile hlong perm hget ih => exact ih hleg
  | _ => cases hleg

theorem get?_of_leg (hleg : leg m t k route = .done (.entry k' node)) : t.get? k' = some node := by
  -- every leg that ends at an entry has just looked it up
  fun_induction leg m t k route with
  | _ => simp_all

/-- A walk ends at an entry that is there. -/
theorem get?_of_entry (hwalk : walk m t route = .ok (.entry k node)) : t.get? k = some node := by
  obtain ⟨k', route', hleg⟩ := exists_leg_of_walk hwalk
  exact get?_of_leg hleg

theorem get?_of_lookup (h : lookup m t route = .ok (k, node)) : t.get? k = some node :=
  get?_of_entry (walk_of_lookup h)

/-! ## Walks that may make a file -/

/-- A leg that is not refused gets as far when no file may be made. -/
theorem leg_of_forFile {l : Leg} (hleg : leg m t k route = l) (hl : ∀ why, l ≠ .failed why) :
    leg { m with forFile := false } t k route = l := by
  subst hleg
  fun_induction leg m t k route with
  | case1 k node hget => simp only [leg, hget]
  | case2 | case5 | case6 | case8 | case11 => exact absurd rfl (hl _)
  | case3 k piece rest hskip ih =>
    rw [leg, if_pos hskip]
    exact ih hl
  | case4 k rest hskip ih =>
    rw [leg, if_neg hskip, if_pos rfl]
    exact ih hl
  | case9 k piece rest hskip hup hfile hlong perm hget ih =>
    rw [leg_entry hskip hup (not_slash rfl) hlong, hget]
    exact ih hl
  | case7 k piece rest hskip hup hfile hlong hget hend =>
    simp [leg, hskip, hup, hlong, hget, hend]
  | case10 k piece hskip hup hlong number hget hfile =>
    rw [leg_entry hskip hup (not_slash rfl) hlong, hget]
    rfl
  | case12 k piece rest hskip hup hfile hlong target hget hend =>
    simp [leg, hskip, hup, hlong, hget, hend]
  | case13 k piece rest hskip hup hfile hlong target hget hend =>
    rw [leg_entry hskip hup (not_slash rfl) hlong, hget]
    exact if_neg hend

/-- A walk that ends somewhere ends there when no file may be made. -/
theorem walk_of_forFile {found : Found} (hwalk : walk m t route = .ok found) :
    walk { m with forFile := false } t route = .ok found :=
  walk_of_legs (fun _ _ _ _ hleg => leg_of_forFile hleg (by simp))
    (fun _ _ hleg => leg_of_forFile hleg (by simp)) hwalk

/-- A walk that may make a file does not end where a directory is asked for. -/
theorem asDirectory_of_forFile {asDirectory : Bool} (hm : m.forFile = true)
    (hwalk : walk m t route = .ok (.absent k name asDirectory)) : asDirectory = false := by
  obtain ⟨k', route', hleg⟩ := exists_leg_of_walk hwalk
  fun_induction leg m t k' route' with
  | case3 k' piece rest hskip ih => exact ih hleg
  | case4 k' rest hskip ih => exact ih hleg
  | case7 k' piece rest hskip hup hfile hlong hget hend => simp_all
  | case9 k' piece rest hskip hup hfile hlong perm hget ih => exact ih hleg
  | _ => cases hleg

/-! ## Walks that follow a link at the end -/

/-- A leg that does not end at a link gets as far when a link at the end is followed. -/
theorem leg_of_follow {l : Leg} (hleg : leg m t k route = l)
    (hl : ∀ k target, l ≠ .done (.entry k (.link target))) :
    leg { m with follow := true } t k route = l := by
  subst hleg
  fun_induction leg m t k route with
  | case3 k piece rest hskip ih =>
    rw [leg, if_pos hskip]
    exact ih hl
  | case4 k rest hskip ih =>
    rw [leg, if_neg hskip, if_pos rfl]
    exact ih hl
  | case9 k piece rest hskip hup hfile hlong perm hget ih =>
    rw [leg_entry (m := { m with follow := true }) hskip hup hfile hlong, hget]
    exact ih hl
  | case7 k piece rest hskip hup hfile hlong hget hend =>
    rw [leg_entry (m := { m with follow := true }) hskip hup hfile hlong, hget]
    exact if_pos hend
  | case11 k piece rest hskip hup hfile hlong number hget hend =>
    rw [leg_entry (m := { m with follow := true }) hskip hup hfile hlong, hget]
    exact if_neg hend
  | case12 k piece rest hskip hup hfile hlong target hget hend => exact absurd rfl (hl _ _)
  | case13 k piece rest hskip hup hfile hlong target hget hend =>
    rw [leg_entry (m := { m with follow := true }) hskip hup hfile hlong, hget]
    exact if_neg (by simp)
  | _ => simp_all [leg]

/-- A walk that does not end at a link ends there when a link at the end is followed. -/
theorem walk_of_follow {found : Found} (hwalk : walk m t route = .ok found)
    (hfound : ∀ k target, found ≠ .entry k (.link target)) :
    walk { m with follow := true } t route = .ok found :=
  walk_of_legs (fun _ _ _ _ hleg => leg_of_follow hleg (by simp))
    (fun _ _ hleg => leg_of_follow hleg fun k target heq => hfound k target (Leg.done.inj heq))
    hwalk

/-! ## Symbolic links -/

/-- Where a call that makes a symbolic link puts it. -/
def linkPlace (t : Tree Node) (target : String) (route : List String) : Except Refusal Key := do
  if hasNull target || hasNull (Key.toString route) then throw .embeddedNull
  if target = "" then throw .missing
  if maxPath ≤ target.utf8ByteSize then throw .nameTooLong
  match ← walk .upTo t route with
  | .entry .. => throw .present
  | .absent _ _ true => throw .missing
  | .absent k name false => return k ++ [name]

theorem symlink_eq (target : String) (route : List String) :
    symlink target route = (do
      let k ← onTexts target (Key.toString route) (linkPlace (← get).tree target route)
      modifyTree (·.insert k (.link target))) := rfl

/-- A symbolic link goes where a walk finds nothing. -/
theorem walk_of_linkPlace {target : String} (h : linkPlace t target route = .ok k) :
    ∃ k' name, walk .upTo t route = .ok (.absent k' name false) ∧ k = k' ++ [name] := by
  simp only [linkPlace, bind, Except.bind, throw, throwThe, MonadExceptOf.throw, pure,
    Except.pure] at h
  split at h
  · cases h
  split at h
  · cases h
  split at h
  · cases h
  split at h
  · cases h
  · rename_i found hwalk
    split at h
    · cases h
    · cases h
    · rename_i k' name
      exact ⟨k', name, hwalk, (Except.ok.inj h).symm⟩

/-- A symbolic link that has been made is read by the same path. -/
theorem readlink_of_symlink {h h' : Host} {target : String}
    (hmake : (symlink target route).run h = .ok () h') :
    (readlink route).run h' = .ok target h' := by
  rw [symlink_eq, run_bind_ok (EStateM.run_get h)] at hmake
  cases hplace : linkPlace h.tree target route with
  | error why =>
    rw [hplace] at hmake
    cases hmake
  | ok k =>
    rw [hplace] at hmake
    obtain ⟨k', name, hwalk, rfl⟩ := walk_of_linkPlace hplace
    have hnone := get?_of_absent hwalk
    have hget : (h.tree.insert (k' ++ [name]) (.link target)).get? (k' ++ [name]) =
        some (.link target) := by simp
    have hwalk' := walk_of_absent (extends_insert hnone (.link target)) hget rfl (fun _ _ => rfl)
      hwalk
    cases hmake
    have hlookup : lookup .upTo (h.tree.insert (k' ++ [name]) (.link target)) route =
        .ok (k' ++ [name], .link target) := by rw [lookup, hwalk']
    rw [readlink, run_bind_ok (EStateM.run_get _)]
    dsimp only
    rw [hlookup]
    rfl

end RootedFS.Host
