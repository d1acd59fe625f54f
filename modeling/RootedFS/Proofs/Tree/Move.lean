import Mathlib.Data.List.Nodup
import RootedFS.Tree

/-!
# Keys of a tree and moved entries

The keys of a tree are those at which its view finds an entry. Moving the entries at and below a
key is told through the view: what is found at and below the destination was found at and below
the source, and nothing is left there.

## Main results

* `Tree.mem_keys`: a key is there when an entry is found at it
* `Tree.get?_move`: the entries after a move to a place with nothing below it
* `Tree.nodup_keys_insert`, `Tree.nodup_keys_erase`: keys stay distinct
* `Tree.children_eq_nil_iff`: a key has no children when nothing is found below it
-/

namespace RootedFS

namespace Key

theorem below?_eq_none_iff {base k : Key} : below? base k = none ↔ ∀ rest, k ≠ base ++ rest := by
  rw [Option.eq_none_iff_forall_not_mem]
  exact forall_congr' fun rest => not_congr below?_eq_some_iff

theorem within_iff {base k : Key} : within base k = true ↔ ∃ rest, k = base ++ rest := by
  rw [within, Option.isSome_iff_exists]
  exact exists_congr fun rest => below?_eq_some_iff

@[simp] theorem within_append (base rest : Key) : within base (base ++ rest) = true :=
  within_iff.2 ⟨rest, rfl⟩

@[simp] theorem within_self (k : Key) : within k k = true :=
  within_iff.2 ⟨[], by simp⟩

theorem ne_of_within_eq_false {base k : Key} (h : within base k = false) : base ≠ k := by
  rintro rfl
  rw [within_self] at h
  cases h

theorem within_eq_false_iff {base k : Key} : within base k = false ↔ below? base k = none := by
  simp [within]

/-- What is below a key is what goes on from it, and a base goes on into both. -/
theorem below?_append_append {base k l : Key} : below? (base ++ k) (base ++ l) = below? k l := by
  apply Option.ext
  intro rest
  rw [below?_eq_some_iff, below?_eq_some_iff, List.append_assoc, List.append_right_inj]

theorem within_append_append {base k l : Key} : within (base ++ k) (base ++ l) = within k l := by
  rw [within, within, below?_append_append]

/-- The top is below nothing but itself. -/
theorem within_nil {base : Key} (h : base ≠ []) : within base [] = false := by
  obtain ⟨a, base, rfl⟩ := List.exists_cons_of_ne_nil h
  rfl

/-- What leads to a key outside another is outside it too. -/
theorem within_of_append {base k rest : Key} (h : within base (k ++ rest) = false) :
    within base k = false := by
  rw [within_eq_false_iff, below?_eq_none_iff] at h ⊢
  rintro below rfl
  exact h (below ++ rest) (List.append_assoc base below rest)

/-- What is below something below a key is below the key. -/
theorem within_append_of_within {base k : Key} (h : within base k = true) (rest : Key) :
    within base (k ++ rest) = true := by
  obtain ⟨below, rfl⟩ := within_iff.1 h
  rw [List.append_assoc]
  exact within_append base _

/-- A key is not below what is below it. -/
theorem not_within_of_append {k rest : Key} (h : rest ≠ []) : within (k ++ rest) k = false := by
  rw [within_eq_false_iff, below?_eq_none_iff]
  intro more hmore
  rw [List.append_assoc, List.self_eq_append_right, List.append_eq_nil_iff] at hmore
  exact h hmore.1

/-- What is at and below one child is not below another. -/
theorem within_child_of_ne {a b : String} (h : a ≠ b) (k rest : Key) :
    within (k ++ [a]) (k ++ b :: rest) = false := by
  rw [within_eq_false_iff, below?_eq_none_iff]
  intro rest' hrest
  simp [h.symm] at hrest

/-- Keys below two keys differ if neither of the two is below the other. -/
theorem append_ne_append {a b : Key} (hab : within a b = false) (hba : within b a = false)
    (x y : Key) : a ++ x ≠ b ++ y := by
  intro heq
  rcases List.append_eq_append_iff.1 heq with ⟨z, hz, -⟩ | ⟨z, hz, -⟩
  · rw [hz, within_append] at hab
    cases hab
  · rw [hz, within_append] at hba
    cases hba

theorem within_append_of_not_within {a b : Key} (hab : within a b = false)
    (hba : within b a = false) (x : Key) : within b (a ++ x) = false := by
  rw [within_eq_false_iff, below?_eq_none_iff]
  exact append_ne_append hab hba x

end Key

namespace Tree

variable {α : Type}

theorem mem_keys {t : Tree α} {k : Key} : k ∈ t.keys ↔ (t.get? k).isSome = true := by
  obtain ⟨l⟩ := t
  rw [keys, get?]
  induction l with
  | nil => simp
  | cons e l ih =>
    obtain ⟨i, a⟩ := e
    rw [lookup_cons_eq_ite]
    by_cases h : k = i
    · simp [h]
    · simp [h, ← ih]

/-- Keys under which nothing is found have no entries. -/
theorem not_mem_keys {t : Tree α} {k : Key} : k ∉ t.keys ↔ t.get? k = none := by
  rw [mem_keys, Bool.not_eq_true, Option.isSome_eq_false_iff, Option.isNone_iff_eq_none]

theorem nodup_keys_erase {t : Tree α} (h : t.keys.Nodup) (k : Key) : (t.erase k).keys.Nodup :=
  h.sublist (List.filter_sublist.map _)

theorem nodup_keys_insert {t : Tree α} (h : t.keys.Nodup) (k : Key) (a : α) :
    (t.insert k a).keys.Nodup := by
  have hk : k ∉ (t.erase k).keys := by
    rw [not_mem_keys]
    simp
  exact List.nodup_cons.2 ⟨hk, nodup_keys_erase h k⟩

/-! ## Children -/

theorem children_eq_nil_iff {t : Tree α} {k : Key} :
    t.children k = [] ↔ ∀ rest, rest ≠ [] → t.get? (k ++ rest) = none := by
  rw [List.eq_nil_iff_forall_not_mem]
  constructor
  · intro h rest hrest
    obtain ⟨name, rest, rfl⟩ := List.exists_cons_of_ne_nil hrest
    have hname := h name
    rw [mem_children, not_exists] at hname
    exact not_mem_keys.1 (hname rest)
  · intro h name hname
    obtain ⟨rest, hrest⟩ := mem_children.1 hname
    exact not_mem_keys.2 (h (name :: rest) (by simp)) hrest

/-! ## Moves -/

theorem rebase_append (src dst rest : Key) : rebase src dst (src ++ rest) = dst ++ rest := by
  simp [rebase]

theorem rebase_of_below?_eq_none {src dst k : Key} (h : Key.below? src k = none) :
    rebase src dst k = k := by
  rw [rebase, h]

/-- What is found in a list of entries none of which is at or below the destination, once their
keys are moved. -/
theorem lookup_map_rebase (src : Key) {dst : Key} {l : List (Key × α)}
    (h : ∀ e ∈ l, Key.below? dst e.1 = none) (j : Key) :
    (l.map fun e => (rebase src dst e.1, e.2)).lookup j =
      match Key.below? dst j with
      | some rest => l.lookup (src ++ rest)
      | none => if Key.within src j then none else l.lookup j := by
  -- by induction on the list: the first entry is either moved or left in its place
  induction l with
  | nil =>
    cases Key.below? dst j <;> simp
  | cons e l ih =>
    obtain ⟨i, a⟩ := e
    have hi : Key.below? dst i = none := h (i, a) List.mem_cons_self
    have hl := ih fun e he => h e (List.mem_cons_of_mem _ he)
    rw [List.map_cons, lookup_cons_eq_ite, hl]
    cases hdj : Key.below? dst j with
    | some rest =>
      obtain rfl := Key.below?_eq_some_iff.1 hdj
      -- the moved key is below the destination only if the key was below the source
      have hiff : dst ++ rest = rebase src dst i ↔ src ++ rest = i := by
        constructor
        · intro heq
          cases hsi : Key.below? src i with
          | none =>
            rw [rebase_of_below?_eq_none hsi] at heq
            exact absurd heq.symm (Key.below?_eq_none_iff.1 hi rest)
          | some rest' =>
            obtain rfl := Key.below?_eq_some_iff.1 hsi
            rw [rebase_append, List.append_cancel_left_eq] at heq
            rw [heq]
        · rintro rfl
          rw [rebase_append]
      exact (if_congr hiff rfl rfl).trans (lookup_cons_eq_ite i (src ++ rest) a l).symm
    | none =>
      rw [Key.below?_eq_none_iff] at hdj
      cases hsi : Key.below? src i with
      | none =>
        rw [rebase_of_below?_eq_none hsi, lookup_cons_eq_ite]
        by_cases hji : j = i
        · have hw : Key.within src j = false := by rw [hji, Key.within_eq_false_iff, hsi]
          rw [if_pos hji, if_pos hji, hw]
          rfl
        · rw [if_neg hji, if_neg hji]
      | some rest' =>
        obtain rfl := Key.below?_eq_some_iff.1 hsi
        rw [rebase_append, if_neg (hdj rest'), lookup_cons_eq_ite]
        by_cases hw : Key.within src j = true
        · rw [if_pos hw, if_pos hw]
        · have hji : j ≠ src ++ rest' := fun heq => hw (Key.within_iff.2 ⟨rest', heq⟩)
          rw [if_neg hw, if_neg hw, if_neg hji]

theorem below?_eq_none_of_mem_erase {t : Tree α} {dst : Key}
    (h : ∀ rest, rest ≠ [] → t.get? (dst ++ rest) = none) {k : Key} (hk : k ∈ (t.erase dst).keys) :
    Key.below? dst k = none := by
  rw [Key.below?_eq_none_iff]
  rintro rest rfl
  rw [mem_keys, get?_erase] at hk
  cases rest with
  | nil => simp at hk
  | cons a rest =>
    rw [h (a :: rest) (by simp)] at hk
    simp at hk

/-- The entries after a move to a place with nothing below it: those at and below the source are
at and below the destination, and nothing is left behind. -/
theorem get?_move {t : Tree α} {src dst : Key} (hsrc : Key.within src dst = false)
    (hdst : ∀ rest, rest ≠ [] → t.get? (dst ++ rest) = none) (j : Key) :
    (t.move src dst).get? j =
      match Key.below? dst j with
      | some rest => t.get? (src ++ rest)
      | none => if Key.within src j then none else t.get? j := by
  have hmem : ∀ e ∈ (t.erase dst).entries, Key.below? dst e.1 = none := by
    intro e he
    exact below?_eq_none_of_mem_erase hdst (List.mem_map.2 ⟨e, he, rfl⟩)
  have hlookup := lookup_map_rebase src hmem j
  rw [get?, move, hlookup]
  -- erasing the destination beforehand does not touch the entries that are looked up
  cases hdj : Key.below? dst j with
  | some rest =>
    have hne : src ++ rest ≠ dst := by
      intro heq
      rw [← heq, Key.within_append] at hsrc
      cases hsrc
    have herase := get?_erase t dst (src ++ rest)
    rw [if_neg hne] at herase
    exact herase
  | none =>
    have hne : j ≠ dst := fun heq => Key.below?_eq_none_iff.1 hdj [] (by simp [heq])
    have herase := get?_erase t dst j
    rw [if_neg hne] at herase
    exact if_congr Iff.rfl rfl herase

end Tree

end RootedFS
