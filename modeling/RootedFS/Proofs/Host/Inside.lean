import RootedFS.Proofs.Host.Plain
import RootedFS.Proofs.Path.Route
import RootedFS.Proofs.Tree.Move

/-!
# Inside a key, and outside

A tree falls into the entries at and below a key and the entries elsewhere. Changes at keys inside
leave those outside as they are. Where the links inside lead inside again, a walk that is headed
inside meets no entry outside but the directories on the way to the key: it goes the same way on two
hosts that have the same inside, and ends inside.

## Main definitions

* `Tree.inside`, `Tree.outside`: the entries at and below a key, and the others
* `Host.Inward`: the target of a link that leads to a key or below it
* `Host.Headed`: pieces that lead to a key or below it
* `Host.SameInside`: two trees that have the same inside

## Main results

* `Tree.inside_move`, `Tree.outside_move`: what a move inside does to the two parts
* `Host.SameInside.walk_eq`, `Host.SameInside.lookup_eq`: walks headed inside are the same
-/

namespace RootedFS

namespace Tree

variable {α : Type} {root k src dst : Key} {t t' : Tree α} {a : α}

/-- The entries at and below a key. -/
def inside (root : Key) (t : Tree α) : Tree α :=
  ⟨t.entries.filter fun e => Key.within root e.1⟩

/-- The entries that are neither at a key nor below it. -/
def outside (root : Key) (t : Tree α) : Tree α :=
  ⟨t.entries.filter fun e => !Key.within root e.1⟩

theorem get?_inside (hk : Key.within root k = true) (t : Tree α) :
    (t.inside root).get? k = t.get? k := by
  rw [get?, inside, lookup_filter t.entries (Key.within root) k, if_pos hk]
  rfl

theorem get?_outside (hk : Key.within root k = false) (t : Tree α) :
    (t.outside root).get? k = t.get? k := by
  rw [get?, outside, lookup_filter t.entries (fun l => !Key.within root l) k, hk]
  rfl

theorem get?_eq_of_inside_eq (h : t.inside root = t'.inside root) (hk : Key.within root k = true) :
    t.get? k = t'.get? k := by
  rw [← get?_inside hk t, h, get?_inside hk]

theorem mem_entries_of_get? (h : t.get? k = some a) : (k, a) ∈ t.entries := by
  obtain ⟨l₁, l₂, hl, -⟩ := List.lookup_eq_some_iff.1 h
  rw [hl]
  simp

theorem inside_erase (t : Tree α) (root k : Key) :
    (t.erase k).inside root = (t.inside root).erase k := by
  rw [inside, erase, inside, erase, List.filter_comm]

theorem outside_erase (hk : Key.within root k = true) (t : Tree α) :
    (t.erase k).outside root = t.outside root := by
  rw [outside, outside, erase, List.filter_filter]
  refine congrArg Tree.mk (List.filter_congr fun e _ => ?_)
  by_cases he : e.1 = k
  · simp [he, hk]
  · simp [he]

theorem inside_insert (hk : Key.within root k = true) (t : Tree α) (a : α) :
    (t.insert k a).inside root = (t.inside root).insert k a := by
  have hcons : ((k, a) :: (t.erase k).entries).filter (fun e => Key.within root e.1) =
      (k, a) :: (t.erase k).entries.filter fun e => Key.within root e.1 :=
    List.filter_cons_of_pos hk
  rw [insert, insert, ← inside_erase, inside, hcons]
  rfl

theorem outside_insert (hk : Key.within root k = true) (t : Tree α) (a : α) :
    (t.insert k a).outside root = t.outside root := by
  rw [insert, outside, List.filter_cons_of_neg (by simp [hk]), ← outside_erase hk t]
  rfl

theorem within_rebase (hsrc : Key.within root src = true) (hdst : Key.within root dst = true)
    (k : Key) : Key.within root (rebase src dst k) = Key.within root k := by
  rw [rebase]
  cases hk : Key.below? src k with
  | none => rfl
  | some rest =>
    obtain ⟨s, rfl⟩ := Key.within_iff.1 hsrc
    obtain ⟨d, rfl⟩ := Key.within_iff.1 hdst
    rw [Key.below?_eq_some_iff.1 hk]
    dsimp only
    rw [List.append_assoc, List.append_assoc, Key.within_append, Key.within_append]

theorem inside_move (hsrc : Key.within root src = true) (hdst : Key.within root dst = true)
    (t : Tree α) : (t.move src dst).inside root = (t.inside root).move src dst := by
  rw [move, move, ← inside_erase, inside, List.filter_map]
  refine congrArg Tree.mk (congrArg _ (List.filter_congr fun e _ => ?_))
  exact within_rebase hsrc hdst e.1

/-- What is below a key inside is inside. -/
theorem within_of_below? {rest : Key} (hk : Key.within root k = true) {j : Key}
    (hj : Key.below? k j = some rest) : Key.within root j = true := by
  obtain ⟨l, rfl⟩ := Key.within_iff.1 hk
  rw [Key.below?_eq_some_iff.1 hj, List.append_assoc, Key.within_append]

theorem outside_move (hsrc : Key.within root src = true) (hdst : Key.within root dst = true)
    (t : Tree α) : (t.move src dst).outside root = t.outside root := by
  rw [← outside_erase hdst t, move, outside, outside, List.filter_map]
  have hfilter : (t.erase dst).entries.filter
      ((fun e => !Key.within root e.1) ∘ fun e => (rebase src dst e.1, e.2)) =
      (t.erase dst).entries.filter fun e => !Key.within root e.1 :=
    List.filter_congr fun e _ => congrArg _ (within_rebase hsrc hdst e.1)
  rw [hfilter]
  -- what is outside is not below what moves
  have hstay : ∀ e ∈ (t.erase dst).entries.filter fun e => !Key.within root e.1,
      (rebase src dst e.1, e.2) = id e := by
    intro e he
    have hout : Key.within root e.1 = false := by simpa using (List.mem_filter.1 he).2
    cases hbelow : Key.below? src e.1 with
    | none => rw [rebase_of_below?_eq_none hbelow, id]
    | some rest =>
      rw [within_of_below? hsrc hbelow] at hout
      cases hout
  rw [List.map_congr_left hstay, List.map_id]

theorem children_inside (hk : Key.within root k = true) (t : Tree α) :
    (t.inside root).children k = t.children k := by
  rw [children, children, namesBelow, namesBelow, keys, keys, inside, List.filterMap_map,
    List.filterMap_map, List.filterMap_filter]
  refine congrArg _ (List.filterMap_congr fun e _ => ?_)
  split
  · rfl
  · rename_i hout
    rw [Function.comp_apply]
    cases hbelow : Key.below? k e.1 with
    | none => rfl
    | some rest => exact absurd (within_of_below? hk hbelow) hout

end Tree

namespace Host

variable {root k l : Key} {t t' : Tree Node} {m : Manner} {target : String} {rest : List String}

/-! ## Pieces that lead inside -/

/-- Pieces without `.` and `..`. -/
def Straight (pieces : List String) : Prop :=
  "." ∉ pieces ∧ ".." ∉ pieces

/-- The target of a link that leads to a key or below it: from the top, and straight. -/
def Inward (root : Key) (target : String) : Prop :=
  Path.isAbsolute target = true ∧ root <+: (Path.pieces target).filter (· ≠ "") ∧
    Straight (Path.pieces target)

instance : Decidable (Straight k) :=
  inferInstanceAs (Decidable (_ ∧ _))

instance : Decidable (Inward root target) :=
  inferInstanceAs (Decidable (_ ∧ _))

/-- Pieces that lead from a directory to a key or below it. -/
structure Headed (root k : Key) (pieces : List String) : Prop where
  leads : root <+: k ++ pieces.filter (· ≠ "")
  directory : Straight k
  pieces : Straight pieces

/-- Two trees that have the same inside, to which directories lead on both, and whose links inside
lead inside. -/
structure SameInside (root : Key) (t t' : Tree Node) : Prop where
  names : ∀ a ∈ root, Path.IsName a
  inside : t.inside root = t'.inside root
  way : ∀ k, k <+: root → k ≠ root → ∃ perm, t.get? k = some (.directory perm)
  way' : ∀ k, k <+: root → k ≠ root → ∃ perm, t'.get? k = some (.directory perm)
  inward : ∀ k target, (k, Node.link target) ∈ t.entries → Key.within root k = true →
    Inward root target

/-- How far a walk that is headed inside gets: it ends inside, or goes on headed inside. -/
def Leg.Stays (root : Key) : Leg → Prop
  | .done found => Key.within root found.place = true ∧ Straight found.place
  | .failed _ => True
  | .link k pieces => Headed root k pieces

theorem within_eq_true_iff : Key.within root k = true ↔ root <+: k := by
  rw [Key.within_iff]
  exact ⟨fun ⟨rest, h⟩ => ⟨rest, h.symm⟩, fun ⟨rest, h⟩ => ⟨rest, h.symm⟩⟩

/-- What is on the way to a key is outside. -/
theorem within_eq_false_of_way (hk : k <+: root) (hne : k ≠ root) : Key.within root k = false := by
  rw [← Bool.not_eq_true, within_eq_true_iff]
  exact fun hin => hne (hk.eq_of_length_le hin.length_le)

theorem straight_append : Straight (k ++ l) ↔ Straight k ∧ Straight l := by
  simp only [Straight, List.mem_append, not_or]
  exact and_and_and_comm

theorem straight_cons {a : String} : Straight (a :: l) ↔ (a ≠ "." ∧ a ≠ "..") ∧ Straight l := by
  simp only [Straight, List.mem_cons, not_or, ne_comm (b := a)]
  exact and_and_and_comm

theorem straight_of_names (hl : ∀ a ∈ l, Path.IsName a) : Straight l :=
  ⟨fun hmem => (hl _ hmem).ne_dot rfl, fun hmem => (hl _ hmem).ne_dots rfl⟩

theorem Headed.of_empty (h : Headed root k ("" :: rest)) : Headed root k rest :=
  ⟨by simpa using h.leads, h.directory, (straight_cons.1 h.pieces).2⟩

theorem Headed.next {a : String} (ha : a ≠ "") (h : Headed root k (a :: rest)) :
    Headed root (k ++ [a]) rest := by
  have hleads := h.leads
  rw [List.filter_cons_of_pos (by simpa using ha), List.append_cons] at hleads
  obtain ⟨hpiece, hrest⟩ := straight_cons.1 h.pieces
  exact ⟨hleads, straight_append.2 ⟨h.directory, straight_cons.2 ⟨hpiece, by simp [Straight]⟩⟩,
    hrest⟩

/-- Pieces that are headed inside go along the way to the inside, or inside. -/
theorem Headed.prefix_or (h : Headed root k l) : (k <+: root ∧ k ≠ root) ∨ root <+: k := by
  rcases List.prefix_or_prefix_of_prefix (List.prefix_append k _) h.leads with hk | hk
  · by_cases heq : k = root
    · exact .inr (heq ▸ List.prefix_rfl)
    · exact .inl ⟨hk, heq⟩
  · exact .inr hk

theorem Headed.append_singleton {a : String} (h : Headed root k l) (ha : Straight [a]) :
    Headed root k (l ++ [a]) := by
  refine ⟨?_, h.directory, straight_append.2 ⟨h.pieces, ha⟩⟩
  rw [List.filter_append, ← List.append_assoc]
  exact h.leads.trans (List.prefix_append _ _)

theorem Headed.of_link (h : Headed root k rest) (htarget : Inward root target) (directory : Key) :
    Headed root (if Path.isAbsolute target then [] else directory)
      (Path.pieces target ++ rest) := by
  obtain ⟨habsolute, hbegin, hstraight⟩ := htarget
  rw [if_pos habsolute]
  refine ⟨?_, by simp [Straight], straight_append.2 ⟨hstraight, h.pieces⟩⟩
  rw [List.nil_append, List.filter_append]
  exact hbegin.trans (List.prefix_append _ _)

/-- Names below the key lead inside. -/
theorem headed_of_names (hl : ∀ a ∈ l, Path.IsName a) (hbegin : root <+: l) :
    Headed root [] l := by
  have hfilter : l.filter (· ≠ "") = l :=
    List.filter_eq_self.2 fun a ha => by simpa using (hl a ha).ne_empty
  exact ⟨by rwa [List.nil_append, hfilter], by simp [Straight], straight_of_names hl⟩

/-- The text of a key inside leads inside. -/
theorem Inward.of_names (hl : ∀ a ∈ l, Path.IsName a) (hbegin : root <+: l) :
    Inward root (Key.toString l) := by
  refine ⟨Path.isAbsolute_toString l, ?_, ?_⟩
  · rwa [Path.filter_pieces_toString fun a ha => (hl a ha).plain]
  · rw [Path.pieces_toString fun a ha => (hl a ha).no_slash]
    refine straight_cons.2 ⟨by decide, ?_⟩
    split
    · simp [Straight]
    · exact straight_of_names hl

/-! ## Walks -/

namespace SameInside

variable (h : SameInside root t t')
include h

theorem get?_eq (hk : root <+: k) : t.get? k = t'.get? k :=
  Tree.get?_eq_of_inside_eq h.inside (within_eq_true_iff.2 hk)

theorem children_eq (hk : Key.within root k = true) : t'.children k = t.children k := by
  rw [← Tree.children_inside hk, ← h.inside, Tree.children_inside hk]

/-- A leg that is headed inside is the same on both trees, and stays inside. -/
theorem leg_eq (hl : Headed root k l) :
    leg m t' k l = leg m t k l ∧ (leg m t k l).Stays root := by
  induction l generalizing k with
  | nil =>
    have hk : root <+: k := by simpa using hl.leads
    rw [leg, leg, h.get?_eq hk]
    cases t'.get? k with
    | none => exact ⟨rfl, trivial⟩
    | some node => exact ⟨rfl, within_eq_true_iff.2 hk, hl.directory⟩
  | cons piece rest ih =>
    by_cases hempty : piece = ""
    · rw [leg, leg, if_pos (.inl hempty), if_pos (.inl hempty)]
      exact ih (hempty ▸ hl).of_empty
    have hskip : ¬(piece = "" ∨ piece = ".") := by
      rintro (rfl | rfl)
      · exact hempty rfl
      · exact hl.pieces.1 List.mem_cons_self
    have hup : piece ≠ ".." := by
      rintro rfl
      exact hl.pieces.2 List.mem_cons_self
    have hnext := hl.next hempty
    rw [leg, leg, if_neg hskip, if_neg hskip, if_neg hup, if_neg hup]
    by_cases hslash : m.forFile = true ∧ rest ≠ [] ∧ onlySlashes rest = true
    · rw [if_pos hslash, if_pos hslash]
      exact ⟨rfl, trivial⟩
    rw [if_neg hslash, if_neg hslash]
    by_cases hlong : maxName < piece.utf8ByteSize
    · rw [if_pos hlong, if_pos hlong]
      exact ⟨rfl, trivial⟩
    rw [if_neg hlong, if_neg hlong]
    rcases hnext.prefix_or with ⟨hk, hne⟩ | hk
    · obtain ⟨perm, hget⟩ := h.way _ hk hne
      obtain ⟨perm', hget'⟩ := h.way' _ hk hne
      rw [hget, hget']
      exact ih hnext
    · have hget := h.get?_eq hk
      rw [← hget]
      cases hnode : t.get? (k ++ [piece]) with
      | none =>
        dsimp only
        split
        · exact ⟨rfl, within_eq_true_iff.2 hk, hnext.directory⟩
        · exact ⟨rfl, trivial⟩
      | some node =>
        cases node with
        | directory perm => exact ih hnext
        | file number =>
          dsimp only
          split
          · exact ⟨rfl, within_eq_true_iff.2 hk, hnext.directory⟩
          · exact ⟨rfl, trivial⟩
        | link target =>
          dsimp only
          split
          · exact ⟨rfl, within_eq_true_iff.2 hk, hnext.directory⟩
          · have htarget := h.inward _ target (Tree.mem_entries_of_get? hnode)
              (within_eq_true_iff.2 hk)
            exact ⟨rfl, hnext.of_link htarget k⟩

theorem walkFrom_eq (n : Nat) (hl : Headed root k l) :
    walkFrom m t' n k l = walkFrom m t n k l ∧
      ∀ found, walkFrom m t n k l = .ok found →
        Key.within root found.place = true ∧ Straight found.place := by
  fun_induction walkFrom m t n k l with
  | case1 n k l found hresult =>
    obtain ⟨hleg, hstays⟩ := h.leg_eq (m := m) hl
    rw [hresult] at hleg hstays
    rw [walkFrom, hleg]
    exact ⟨rfl, fun found' heq => Except.ok.inj heq ▸ hstays⟩
  | case2 n k l why hresult =>
    obtain ⟨hleg, -⟩ := h.leg_eq (m := m) hl
    rw [hresult] at hleg
    rw [walkFrom, hleg]
    exact ⟨rfl, by simp⟩
  | case3 k l k' l' hresult =>
    obtain ⟨hleg, -⟩ := h.leg_eq (m := m) hl
    rw [hresult] at hleg
    rw [walkFrom, hleg]
    exact ⟨rfl, by simp⟩
  | case4 k l k' l' hresult n ih =>
    obtain ⟨hleg, hstays⟩ := h.leg_eq (m := m) hl
    rw [hresult] at hleg hstays
    rw [walkFrom, hleg]
    exact ih hstays

/-- A walk that is headed inside is the same on both trees. -/
theorem walk_eq (hl : Headed root [] l) : walk m t' l = walk m t l := by
  rw [walk, walk, (h.walkFrom_eq maxLinks hl).1]

/-- A walk that is headed inside ends inside. -/
theorem within_place {found : Found} (hl : Headed root [] l) (hwalk : walk m t l = .ok found) :
    Key.within root found.place = true ∧ Straight found.place := by
  rw [walk] at hwalk
  split at hwalk
  · cases hwalk
  · exact (h.walkFrom_eq maxLinks hl).2 found hwalk

theorem lookup_eq (hl : Headed root [] l) : lookup m t' l = lookup m t l := by
  rw [lookup, lookup, h.walk_eq hl]

/-- What is looked up by pieces that are headed inside is inside. -/
theorem within_of_lookup {node : Node} (hl : Headed root [] l)
    (hlookup : lookup m t l = .ok (k, node)) : Key.within root k = true ∧ Straight k := by
  rw [lookup] at hlookup
  cases hwalk : walk m t l with
  | error why =>
    rw [hwalk] at hlookup
    cases hlookup
  | ok found =>
    rw [hwalk] at hlookup
    cases found with
    | entry k' node' =>
      cases hlookup
      exact h.within_place hl hwalk
    | absent k' name asDirectory => cases hlookup

/-- A leg along the way to the inside ends at a directory on both trees, or fails on both. -/
theorem leg_way (hway : k ++ l <+: root) (hne : k ++ l ≠ root) :
    (∃ why, leg m t k l = .failed why ∧ leg m t' k l = .failed why) ∨
      ∃ perm perm', leg m t k l = .done (.entry (k ++ l) (.directory perm)) ∧
        leg m t' k l = .done (.entry (k ++ l) (.directory perm')) := by
  induction l generalizing k with
  | nil =>
    rw [List.append_nil] at hway hne ⊢
    obtain ⟨perm, hget⟩ := h.way k hway hne
    obtain ⟨perm', hget'⟩ := h.way' k hway hne
    exact .inr ⟨perm, perm', by rw [leg, hget], by rw [leg, hget']⟩
  | cons a l ih =>
    have hnames : ∀ b ∈ a :: l, Path.IsName b := fun b hb =>
      h.names b (hway.subset (List.mem_append_right k hb))
    have ha := hnames a List.mem_cons_self
    have hl : ∀ b ∈ l, Path.IsName b := fun b hb => hnames b (List.mem_cons_of_mem a hb)
    rw [List.append_cons] at hway hne ⊢
    by_cases hlong : maxName < a.utf8ByteSize
    · have hslash : ¬(m.forFile = true ∧ l ≠ [] ∧ onlySlashes l = true) := by
        rintro ⟨-, hnil, honly⟩
        rw [onlySlashes_eq_false hl hnil] at honly
        cases honly
      have hfail : ∀ t, leg m t k (a :: l) = .failed .nameTooLong := fun t => by
        rw [leg, if_neg (not_or.2 ⟨ha.ne_empty, ha.ne_dot⟩), if_neg ha.ne_dots, if_neg hslash,
          if_pos hlong]
      exact .inl ⟨_, hfail t, hfail t'⟩
    · have hstep : k ++ [a] <+: root := (List.prefix_append _ l).trans hway
      have hstepNe : k ++ [a] ≠ root := by
        rintro heq
        rw [heq] at hway hne
        exact hne (List.IsPrefix.eq_of_length_le hway (by simp))
      obtain ⟨perm, hget⟩ := h.way _ hstep hstepNe
      obtain ⟨perm', hget'⟩ := h.way' _ hstep hstepNe
      rw [leg_name ha (Nat.not_lt.1 hlong) hl, leg_name ha (Nat.not_lt.1 hlong) hl, hget, hget']
      exact ih hway hne

/-- A walk to a directory on the way to the inside ends there on both trees, or on neither. -/
theorem walk_way (hk : k <+: root) (hne : k ≠ root) :
    (∃ why, walk m t k = .error why ∧ walk m t' k = .error why) ∨
      ∃ perm perm', walk m t k = .ok (.entry k (.directory perm)) ∧
        walk m t' k = .ok (.entry k (.directory perm')) := by
  rw [walk, walk]
  split
  · exact .inl ⟨_, rfl, rfl⟩
  · rw [walkFrom, walkFrom]
    rcases h.leg_way (m := m) (k := []) (l := k) hk hne with
      ⟨why, hleg, hleg'⟩ | ⟨perm, perm', hleg, hleg'⟩
    · rw [hleg, hleg']
      exact .inl ⟨why, rfl, rfl⟩
    · rw [hleg, hleg']
      exact .inr ⟨perm, perm', rfl, rfl⟩

end SameInside

end Host

end RootedFS
