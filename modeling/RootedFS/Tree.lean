import RootedFS.Path.Key

/-!
# Trees of entries

A tree keeps an entry under each of its keys. A directory's children are not stored: they are the
names by which the keys below it begin. A tree is seen through `Tree.get?`; every operation is
determined by what it does to that view.

## Main definitions

* `Tree α`: entries of type `α` under keys
* `Tree.get?`, `Tree.insert`, `Tree.erase`
* `Tree.children t k`: the names of the entries directly below `k`, in order of code points
* `Tree.move src dst t`: the entries at and below `src` moved to `dst`

## Main results

* `Tree.get?_insert`, `Tree.get?_erase`: the entries after a change
* `Tree.mem_children`, `Tree.pairwise_children`: the children of a key, in strict order
-/

namespace RootedFS

/-- Entries under keys. -/
structure Tree (α : Type) where
  /-- The entries with their keys, the latest first. -/
  entries : List (Key × α)

namespace Tree

variable {α : Type}

/-- The tree with one entry, at the top. -/
def singleton (a : α) : Tree α :=
  ⟨[([], a)]⟩

/-- The entry at a key. -/
def get? (t : Tree α) (k : Key) : Option α :=
  t.entries.lookup k

/-- The tree without the entry at a key; entries below it stay. -/
def erase (t : Tree α) (k : Key) : Tree α :=
  ⟨t.entries.filter (·.1 != k)⟩

/-- The tree with an entry at a key, in place of an earlier one. -/
def insert (t : Tree α) (k : Key) (a : α) : Tree α :=
  ⟨(k, a) :: (t.erase k).entries⟩

/-- The keys with an entry. -/
def keys (t : Tree α) : List Key :=
  t.entries.map (·.1)

/-- The first name on the way from a key down to each entry below it. -/
def namesBelow (t : Tree α) (k : Key) : List String :=
  t.keys.filterMap fun l => (Key.below? k l).bind List.head?

/-- A list of names in order with one more name in its place; a name that is there is not put in
again. -/
def insertName (a : String) : List String → List String
  | [] => [a]
  | b :: l => if a = b then b :: l else if a < b then a :: b :: l else b :: insertName a l

/-- The names of the entries directly below a key, in order of code points. -/
def children (t : Tree α) (k : Key) : List String :=
  (t.namesBelow k).foldr insertName []

/-- A key's place after the entries at and below `src` have moved to `dst`. -/
def rebase (src dst k : Key) : Key :=
  match Key.below? src k with
  | some rest => dst ++ rest
  | none => k

/-- The tree in which the entries at and below `src` have moved to `dst`, where they take the
place of the entry at `dst` itself. -/
def move (t : Tree α) (src dst : Key) : Tree α :=
  ⟨(t.erase dst).entries.map fun e => (rebase src dst e.1, e.2)⟩

/-- The number of entries. -/
def size (t : Tree α) : Nat :=
  t.entries.length

/-! ## Names in order -/

@[simp] theorem mem_insertName {a x : String} {l : List String} :
    x ∈ insertName a l ↔ x = a ∨ x ∈ l := by
  fun_induction insertName a l with
  | case1 => simp
  | case2 l => simp
  | case3 b l => simp
  | case4 b l _ _ ih => simp [ih, or_left_comm]

theorem pairwise_insertName (a : String) {l : List String} (h : l.Pairwise (· < ·)) :
    (insertName a l).Pairwise (· < ·) := by
  fun_induction insertName a l with
  | case1 => simp
  | case2 l => exact h
  | case3 b l _ hab =>
    rw [List.pairwise_cons] at h
    refine List.pairwise_cons.2 ⟨fun x hx => ?_, List.pairwise_cons.2 h⟩
    rcases List.mem_cons.1 hx with rfl | hx
    · exact hab
    · exact String.lt_trans hab (h.1 x hx)
  | case4 b l hne hnlt ih =>
    rw [List.pairwise_cons] at h
    refine List.pairwise_cons.2 ⟨fun x hx => ?_, ih h.2⟩
    rcases mem_insertName.1 hx with rfl | hx
    · exact Std.lt_of_le_of_ne (String.not_lt.1 hnlt) (Ne.symm hne)
    · exact h.1 x hx

theorem mem_foldr_insertName {x : String} {l : List String} :
    x ∈ l.foldr insertName [] ↔ x ∈ l := by
  induction l with
  | nil => simp
  | cons a l ih => simp [ih]

theorem pairwise_foldr_insertName (l : List String) :
    (l.foldr insertName []).Pairwise (· < ·) := by
  induction l with
  | nil => simp
  | cons a l ih => exact pairwise_insertName a ih

/-- The names of children are in order, and each is there once. -/
theorem pairwise_children (t : Tree α) (k : Key) : (t.children k).Pairwise (· < ·) :=
  pairwise_foldr_insertName _

/-- A name below a key is one by which some key goes on from it. -/
theorem mem_namesBelow {t : Tree α} {k : Key} {name : String} :
    name ∈ t.namesBelow k ↔ ∃ rest, k ++ name :: rest ∈ t.keys := by
  rw [namesBelow, List.mem_filterMap]
  constructor
  · rintro ⟨l, hl, h⟩
    obtain ⟨rest, hrest, hname⟩ := Option.bind_eq_some_iff.1 h
    obtain ⟨tail, rfl⟩ := List.head?_eq_some_iff.1 hname
    exact ⟨tail, Key.below?_eq_some_iff.1 hrest ▸ hl⟩
  · rintro ⟨rest, h⟩
    exact ⟨_, h, by simp⟩

/-- A child is a name by which some key goes on from the key of the directory. -/
theorem mem_children {t : Tree α} {k : Key} {name : String} :
    name ∈ t.children k ↔ ∃ rest, k ++ name :: rest ∈ t.keys := by
  rw [children, mem_foldr_insertName, mem_namesBelow]

/-! ## What the operations do to the entries -/

theorem lookup_cons_eq_ite (i j : Key) (a : α) (l : List (Key × α)) :
    ((i, a) :: l).lookup j = if j = i then some a else l.lookup j := by
  rw [List.lookup_cons]
  by_cases h : j = i
  · simp [h]
  · rw [beq_false_of_ne h, if_neg h]

@[simp] theorem get?_singleton (a : α) (k : Key) :
    (singleton a).get? k = if k = [] then some a else none :=
  lookup_cons_eq_ite [] k a []

/-- The entries that are kept are found as before when the others are left out. -/
theorem lookup_filter (l : List (Key × α)) (keep : Key → Bool) (j : Key) :
    (l.filter fun e => keep e.1).lookup j = if keep j then l.lookup j else none := by
  induction l with
  | nil => simp
  | cons e l ih =>
    obtain ⟨i, a⟩ := e
    rw [lookup_cons_eq_ite]
    by_cases hi : keep i = true
    · rw [List.filter_cons_of_pos (by simpa using hi), lookup_cons_eq_ite, ih]
      by_cases hj : j = i
      · simp [hj, hi]
      · simp [hj]
    · rw [List.filter_cons_of_neg (by simpa using hi), ih]
      by_cases hj : j = i
      · simp [hj, hi]
      · simp [hj]

@[simp] theorem get?_erase (t : Tree α) (k j : Key) :
    (t.erase k).get? j = if j = k then none else t.get? j := by
  rw [get?, erase, lookup_filter t.entries (· != k) j]
  by_cases hj : j = k
  · simp [hj]
  · simp [hj, get?]

@[simp] theorem get?_insert (t : Tree α) (k j : Key) (a : α) :
    (t.insert k a).get? j = if j = k then some a else t.get? j := by
  have h := get?_erase t k j
  rw [get?] at h
  rw [insert, get?, lookup_cons_eq_ite, h]
  by_cases hj : j = k
  · simp [hj]
  · simp [hj]

end Tree

end RootedFS
