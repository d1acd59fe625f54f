import RootedFS.Proofs.Path.Strip
import RootedFS.Proofs.Tree.Move

/-!
# Ways from one key to another

The way from a base to a key leads up to what the two share and then down. It begins with `..` when
the key is neither the base nor below it. As an absolute text such a way loses its steps up when it
is read again: at the top there is nothing to take back.

## Main results

* `Path.filter_pieces_toString`: the pieces of an absolute text are read back from it
* `Key.resolve_toString_route`: a way that is read as an absolute path leads down only
* `Key.route_append`: from a base down to what is below it, the way is the rest of the key
* `Key.head?_route_eq_some_iff`: the ways that begin with `..`
* `Key.foldl_step_route`: read on from the base, the way from it leads to the key
* `Key.route_append_of_not_within`: to a key outside a base, the way from further down leads up
  further
-/

namespace RootedFS

namespace Path

/-! ## Absolute texts -/

/-- The pieces of an absolute text follow an empty one; the top has another empty one. -/
theorem pieces_toString {l : List String} (h : ∀ a ∈ l, '/' ∉ a.toList) :
    pieces (Key.toString l) = "" :: if l = [] then [""] else l := by
  rw [Key.toString, pieces_slash, String.ofList_toList]
  split
  · rename_i hnil
    rw [hnil]
    rfl
  · rename_i hne
    rw [pieces_glue l hne h]

/-- Glued names do not begin with a slash. -/
theorem exists_toList_glue {a : String} (h : IsName a) (l : List String) :
    ∃ c front, (glue (a :: l)).toList = c :: front ∧ c ≠ '/' := by
  obtain ⟨c, tail, hc⟩ := List.exists_cons_of_ne_nil (show a.toList ≠ [] by simpa using h.ne_empty)
  have hslash : c ≠ '/' := by
    rintro rfl
    exact h.no_slash (by simp [hc])
  cases l with
  | nil => exact ⟨c, tail, by simp [hc], hslash⟩
  | cons b l => exact ⟨c, _, by rw [glue_cons_cons, String.toList_ofList, hc]; rfl, hslash⟩

theorem toList_glue_append {l l' : List String} (h : l ≠ []) (h' : l' ≠ []) :
    (glue (l ++ l')).toList = (glue l).toList ++ '/' :: (glue l').toList := by
  induction l with
  | nil => exact absurd rfl h
  | cons a l ih =>
    cases l with
    | nil =>
      obtain ⟨b, l', rfl⟩ := List.exists_cons_of_ne_nil h'
      simp [glue_cons_cons]
    | cons b l =>
      have htail := ih (by simp)
      rw [List.cons_append] at htail
      rw [List.cons_append, List.cons_append, glue_cons_cons, glue_cons_cons,
        String.toList_ofList, String.toList_ofList, htail]
      simp

/-- Below a key other than the top, the text of a key goes on after a slash. -/
theorem toList_toString_append {l l' : List String} (h : l ≠ []) (h' : l' ≠ []) :
    (Key.toString (l ++ l')).toList = (Key.toString l).toList ++ (Key.toString l').toList := by
  simp [Key.toString, toList_glue_append h h']

/-- Pieces are read back from their absolute text. -/
theorem filter_pieces_toString {l : List String} (h : ∀ a ∈ l, a ≠ "" ∧ '/' ∉ a.toList) :
    (pieces (Key.toString l)).filter (· ≠ "") = l := by
  rw [pieces_toString fun a ha => (h a ha).2, List.filter_cons_of_neg (by simp)]
  split
  · rename_i hnil
    rw [hnil]
    rfl
  · exact List.filter_eq_self.2 fun a ha => by simpa using (h a ha).1

/-- Reading an absolute text does what reading its pieces does. -/
theorem resolve_toString_pieces {l : List String} (h : ∀ a ∈ l, '/' ∉ a.toList) :
    Key.resolve (Key.toString l) = normalize true l := by
  rw [Key.resolve, pieces_toString h]
  split
  · rename_i hnil
    rw [hnil]
    rfl
  · rfl

/-- Steps up take back that many names, as far as there are any. -/
theorem foldl_step_up {stack : List String} (h : ∀ a ∈ stack, IsName a) (n : Nat) :
    (List.replicate n "..").foldl (step true) stack = stack.drop n := by
  induction n generalizing stack with
  | zero => rfl
  | succ n ih =>
    rw [List.replicate_succ, List.foldl_cons]
    cases stack with
    | nil =>
      have htop : step true [] ".." = [] := rfl
      rw [htop, ih h, List.drop_nil, List.drop_nil]
    | cons a stack =>
      rw [step_up_cons (h a List.mem_cons_self).ne_dots, List.drop_succ_cons]
      exact ih fun b hb => h b (List.mem_cons_of_mem a hb)

/-- At the top there is nothing to take back. -/
theorem normalize_replicate_append (n : Nat) {names : List String} (h : ∀ a ∈ names, IsName a) :
    normalize true (List.replicate n ".." ++ names) = names := by
  rw [normalize, List.foldl_append, foldl_step_up (by simp), List.drop_nil, foldl_step_names h]
  simp

end Path

namespace Key

variable {base k l rest : Key}

/-! ## What two keys share -/

theorem common_append_append (base k l : Key) :
    common (base ++ k) (base ++ l) = base ++ common k l := by
  induction base with
  | nil => rfl
  | cons a base ih => simp [common, ih]

theorem common_isPrefix (k l : Key) : common k l <+: k ∧ common k l <+: l := by
  fun_induction common k l with
  | case1 k a l ih => simpa using ih
  | case2 a k b l hne => simp
  | case3 => simp

/-- What a key shares with a base is all of the base exactly for the keys at and below the base. -/
theorem common_eq_left_iff : common base k = base ↔ within base k = true := by
  rw [within_iff]
  constructor
  · intro h
    have hpre := (common_isPrefix base k).2
    rw [h] at hpre
    obtain ⟨rest, hrest⟩ := hpre
    exact ⟨rest, hrest.symm⟩
  · rintro ⟨rest, rfl⟩
    have h := common_append_append base [] rest
    rwa [List.append_nil, show common [] rest = [] from rfl, List.append_nil] at h

/-- What lies outside a base shares no more with what is below the base. -/
theorem common_append_of_not_within (h : within base k = false) (rest : Key) :
    common (base ++ rest) k = common base k := by
  induction base generalizing k with
  | nil => simp [within, below?] at h
  | cons a base ih =>
    cases k with
    | nil => rfl
    | cons b k =>
      rw [List.cons_append, common, common]
      split
      · rename_i hab
        rw [ih]
        simpa [within, below?, hab] using h
      · rfl

theorem length_common_lt (h : within base k = false) : (common base k).length < base.length := by
  have hpre := (common_isPrefix base k).1
  refine Nat.lt_of_le_of_ne hpre.length_le fun hlen => ?_
  rw [common_eq_left_iff.1 (hpre.eq_of_length hlen)] at h
  cases h

/-! ## Ways -/

/-- From a base down to what is below it, the way is the rest of the key. -/
@[simp] theorem route_append (base rest : Key) : route base (base ++ rest) = rest := by
  have h : common base (base ++ rest) = base := common_eq_left_iff.2 (within_append base rest)
  simp [route, h]

/-- What two keys begin with alike does not matter to the way between them. -/
theorem route_append_append (base k l : Key) : route (base ++ k) (base ++ l) = route k l := by
  rw [route, route, common_append_append, List.length_append, List.length_append,
    Nat.add_sub_add_left, List.drop_append, List.drop_eq_nil_of_le (Nat.le_add_right _ _),
    Nat.add_sub_cancel_left, List.nil_append]

/-- The part of the way to a key that leads down. -/
def descent (base k : Key) : Key :=
  k.drop (common base k).length

/-- The way to what lies outside a base begins with a step up. -/
theorem exists_route_eq_cons (h : within base k = false) : ∃ l, route base k = ".." :: l := by
  have hlt := length_common_lt h
  obtain ⟨n, hn⟩ := Nat.exists_eq_add_one_of_ne_zero (Nat.sub_ne_zero_of_lt hlt)
  refine ⟨List.replicate n ".." ++ descent base k, ?_⟩
  rw [route, hn]
  rfl

/-- A way begins with a step up exactly if it leads outside the base. -/
theorem head?_route_eq_some_iff (hk : ∀ a ∈ k, Path.IsName a) :
    (route base k).head? = some ".." ↔ within base k = false := by
  constructor
  · intro h
    by_contra hin
    rw [Bool.not_eq_false, within_iff] at hin
    obtain ⟨rest, rfl⟩ := hin
    rw [route_append] at h
    exact (hk ".." (List.mem_append_right base (List.mem_of_mem_head? h))).ne_dots rfl
  · intro h
    obtain ⟨l, hl⟩ := exists_route_eq_cons h
    rw [hl]
    rfl

/-- From further down, the way to a key outside a base leads up further. -/
theorem route_append_of_not_within (h : within base k = false) (rest : Key) :
    route (base ++ rest) k = List.replicate rest.length ".." ++ route base k := by
  have hlt := length_common_lt h
  rw [route, route, common_append_of_not_within h, List.length_append,
    ← List.append_assoc, List.replicate_append_replicate]
  congr 2
  omega

theorem length_route (base k : Key) :
    (route base k).length = base.length - (common base k).length + (descent base k).length := by
  simp [route, descent]

theorem length_descent_le (base k : Key) : (descent base k).length ≤ k.length := by
  simp [descent]

/-- To what is below a base, all of the way leads down. -/
theorem descent_append (base rest : Key) : descent base (base ++ rest) = rest := by
  have h : common base (base ++ rest) = base := common_eq_left_iff.2 (within_append base rest)
  simp [descent, h]

theorem mem_descent {a : String} (h : a ∈ descent base k) : a ∈ k :=
  List.mem_of_mem_drop h

/-- A step up or a name of the key. -/
theorem eq_or_mem_of_mem_route {a : String} (h : a ∈ route base k) : a = ".." ∨ a ∈ k := by
  rcases List.mem_append.1 h with h | h
  · exact .inl (List.eq_of_mem_replicate h)
  · exact .inr (List.mem_of_mem_drop h)

/-- The pieces of a way are no empty ones, and have no slashes. -/
theorem plain_of_mem_route (hk : ∀ a ∈ k, Path.IsName a) :
    ∀ a ∈ route base k, a ≠ "" ∧ '/' ∉ a.toList := by
  intro a ha
  rcases eq_or_mem_of_mem_route ha with rfl | ha
  · decide
  · exact (hk a ha).plain

/-- A way that is read as an absolute path leads down only. -/
theorem resolve_toString_route (hk : ∀ a ∈ k, Path.IsName a) :
    resolve (Key.toString (route base k)) = descent base k := by
  rw [Path.resolve_toString_pieces fun a ha => (plain_of_mem_route hk a ha).2]
  exact Path.normalize_replicate_append _ fun a ha => hk a (mem_descent ha)

/-- Read on from the base, the way from it leads to the key. -/
theorem foldl_step_route (hbase : ∀ a ∈ base, Path.IsName a) (hk : ∀ a ∈ k, Path.IsName a) :
    (route base k).foldl (Path.step true) base.reverse = k.reverse := by
  obtain ⟨hpre, hpre'⟩ := common_isPrefix base k
  -- the steps up leave what the two share, and the steps down are the rest of the key
  have hup : base.reverse.drop (base.length - (common base k).length) =
      (k.take (common base k).length).reverse := by
    rw [List.drop_reverse, Nat.sub_sub_self hpre.length_le, ← List.prefix_iff_eq_take.1 hpre,
      ← List.prefix_iff_eq_take.1 hpre']
  rw [route, List.foldl_append, Path.foldl_step_up (by simpa using hbase), hup,
    Path.foldl_step_names fun a ha => hk a (List.mem_of_mem_drop ha), ← List.reverse_append,
    List.take_append_drop]

/-- There is nothing to go exactly between a key and itself. -/
theorem route_eq_nil_iff (hbase : ∀ a ∈ base, Path.IsName a) (hk : ∀ a ∈ k, Path.IsName a) :
    route base k = [] ↔ k = base := by
  constructor
  · intro hnil
    have hread := foldl_step_route hbase hk
    rw [hnil, List.foldl_nil, List.reverse_inj] at hread
    exact hread.symm
  · rintro rfl
    simpa using route_append k []

/-- Ways are told apart by their absolute texts. -/
theorem toString_route_injective {base' k' : Key} (hk : ∀ a ∈ k, Path.IsName a)
    (hk' : ∀ a ∈ k', Path.IsName a)
    (h : Key.toString (route base k) = Key.toString (route base' k')) :
    route base k = route base' k' := by
  rw [← Path.filter_pieces_toString (plain_of_mem_route hk), h,
    Path.filter_pieces_toString (plain_of_mem_route hk')]

end Key

end RootedFS
