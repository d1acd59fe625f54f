import RootedFS.Proofs.Path.Normalize

/-!
# Joined paths and their keys

A path that does not climb stays below the place that it is taken from: joined to any base, it
names the key of the base followed by its own key. The keys of texts, and their absolute texts,
determine one another.

## Main definitions

* `Path.climbs`: whether a path leads above the place that it is taken from
* `Path.Canonical`: the absolute texts of keys, told by their pieces

## Main results

* `Path.resolve_join`: the key of a join is read off the pieces of its elements
* `Path.resolve_join_of_not_climbs`: a path that does not climb goes on from the key of its base
* `Path.join_eq_toString`, `Path.join_top`: a join that begins with an absolute path, or with the
  top, is the text of a key
-/

namespace RootedFS.Path

/-- Whether a path leads above the place that it is taken from: once its leading slashes are
dropped, its normal form begins with the piece `..`. -/
def climbs (s : String) : Bool :=
  (pieces (clean (String.ofList (s.toList.dropWhile (· == '/'))))).head? == some ".."

/-- An absolute text without empty pieces, `.` or `..`, and without a slash at its end; the text of
the top is a slash alone. -/
def Canonical (s : String) : Prop :=
  s = "/" ∨ ∃ names, names ≠ [] ∧ (∀ a ∈ names, IsName a) ∧ pieces s = "" :: names

/-! ## Pieces of joined texts -/

/-- A slash cuts a text into two. -/
theorem splitSlash_append_slash (x y : List Char) :
    splitSlash (x ++ '/' :: y) = splitSlash x ++ splitSlash y := by
  induction x with
  | nil => simp [splitSlash]
  | cons c x ih =>
    rw [List.cons_append, splitSlash, splitSlash, ih]
    by_cases hc : c = '/'
    · simp [hc]
    · obtain ⟨run, runs, h⟩ := List.exists_cons_of_ne_nil (splitSlash_ne_nil x)
      simp [hc, h]

@[simp] theorem pieces_empty : pieces "" = [""] := rfl

/-- A slash in front adds an empty piece. -/
theorem pieces_slash (l : List Char) :
    pieces (String.ofList ('/' :: l)) = "" :: pieces (String.ofList l) := by
  simp [pieces, splitSlash]

@[simp] theorem glue_singleton (s : String) : glue [s] = s := by
  simp [glue, joinSlash]

theorem glue_cons_cons (s t : String) (l : List String) :
    glue (s :: t :: l) = String.ofList (s.toList ++ '/' :: (glue (t :: l)).toList) := by
  simp [glue]

/-- One more name is glued on after a slash. -/
theorem glue_concat {l : List String} (h : l ≠ []) (a : String) :
    glue (l ++ [a]) = glue l ++ "/" ++ a := by
  apply String.toList_injective
  induction l with
  | nil => exact absurd rfl h
  | cons b l ih =>
    cases l with
    | nil => simp [glue_cons_cons]
    | cons c l =>
      have htail := ih (by simp)
      rw [List.cons_append] at htail
      rw [List.cons_append, List.cons_append, glue_cons_cons, String.toList_ofList, htail,
        glue_cons_cons]
      simp

/-- The pieces of a glued text are those of its parts. -/
theorem pieces_glue_eq_flatMap {l : List String} (h : l ≠ []) :
    pieces (glue l) = l.flatMap pieces := by
  induction l with
  | nil => exact absurd rfl h
  | cons s l ih =>
    cases l with
    | nil => simp
    | cons t l =>
      rw [glue_cons_cons, List.flatMap_cons, ← ih (by simp)]
      simp [pieces, splitSlash_append_slash]

/-- Names are the pieces of their glued text, unless there are none. -/
theorem pieces_glue_names {l : List String} (h : l ≠ []) (hl : ∀ a ∈ l, IsName a) :
    pieces (glue l) = l :=
  pieces_glue l h fun a ha => (hl a ha).no_slash

/-- Empty elements say nothing. -/
theorem foldl_step_flatMap_filter (absolute : Bool) (l stack : List String) :
    ((l.filter (· ≠ "")).flatMap pieces).foldl (step absolute) stack =
      (l.flatMap pieces).foldl (step absolute) stack := by
  induction l generalizing stack with
  | nil => rfl
  | cons s l ih =>
    by_cases hs : s = ""
    · subst hs
      rw [List.filter_cons_of_neg (by simp), ih, List.flatMap_cons, List.foldl_append]
      rfl
    · rw [List.filter_cons_of_pos (by simpa using hs), List.flatMap_cons, List.flatMap_cons,
        List.foldl_append, List.foldl_append, ih]

/-! ## Keys and their texts -/

/-- Keys of names are read back from their texts. -/
theorem resolve_toString {k : Key} (h : ∀ a ∈ k, IsName a) : Key.resolve (Key.toString k) = k := by
  have hskip : normalize true ("" :: k) = k := normalize_names h
  rw [Key.resolve, Key.toString, pieces_slash, String.ofList_toList]
  cases k with
  | nil => rfl
  | cons a k => rw [pieces_glue_names (by simp) h, hskip]

theorem toString_injective {k l : Key} (hk : ∀ a ∈ k, IsName a) (hl : ∀ a ∈ l, IsName a)
    (h : Key.toString k = Key.toString l) : k = l := by
  rw [← resolve_toString hk, h, resolve_toString hl]

/-- The texts of keys are canonical. -/
theorem canonical_toString {k : Key} (h : ∀ a ∈ k, IsName a) : Canonical (Key.toString k) := by
  cases k with
  | nil => exact .inl rfl
  | cons a k =>
    refine .inr ⟨a :: k, by simp, h, ?_⟩
    rw [Key.toString, pieces_slash, String.ofList_toList, pieces_glue_names (by simp) h]

/-- An absolute text is normalised to the text of its key. -/
theorem clean_of_absolute {s : String} (h : isAbsolute s = true) :
    clean s = Key.toString (Key.resolve s) := by
  simp [clean, ofString, Path.toString, h, Key.toString, Key.resolve]

/-- The normal form names the same key. -/
theorem resolve_clean (s : String) : Key.resolve (clean s) = Key.resolve s := by
  by_cases h : isAbsolute s = true
  · rw [clean_of_absolute h]
    exact resolve_toString (isName_resolve s)
  · have hrel : (normalize false (pieces s)).foldl (step true) [] =
        (pieces s).foldl (step true) [] := foldl_step_normalize true (pieces s) []
    rw [Bool.not_eq_true] at h
    rw [Key.resolve, Key.resolve, normalize, normalize, ← hrel]
    simp only [clean, ofString, Path.toString, h, Bool.false_eq_true, if_false]
    split
    · rename_i hnil
      rw [hnil]
      rfl
    · rename_i hne
      rw [pieces_glue _ hne fun a ha => no_slash_of_mem_pieces (mem_of_mem_normalize ha).1]

/-- The key of a join is what the pieces of its elements lead to, one after another. -/
theorem resolve_join (l : List String) :
    Key.resolve (join l) = normalize true (l.flatMap pieces) := by
  rw [normalize, ← foldl_step_flatMap_filter, join]
  split
  · rename_i hnil
    rw [hnil]
    rfl
  · rename_i parts hne
    rw [resolve_clean, Key.resolve, pieces_glue_eq_flatMap hne]
    rfl

/-- The second of two joined texts is read on from the key of the first. -/
theorem resolve_join_pair (s t : String) :
    Key.resolve (join [s, t]) =
      ((pieces t).foldl (step true) (Key.resolve s).reverse).reverse := by
  rw [resolve_join, List.flatMap_cons, List.flatMap_singleton, normalize, List.foldl_append,
    Key.resolve, normalize, List.reverse_reverse]

/-! ## Paths that do not climb -/

/-- Leading slashes say nothing. -/
theorem foldl_step_dropWhile (absolute : Bool) (l : List Char) (stack : List String) :
    (pieces (String.ofList (l.dropWhile (· == '/')))).foldl (step absolute) stack =
      (pieces (String.ofList l)).foldl (step absolute) stack := by
  induction l with
  | nil => rfl
  | cons c l ih =>
    by_cases hc : c = '/'
    · subst hc
      rw [List.dropWhile_cons_of_pos (by simp), ih, pieces_slash]
      rfl
    · rw [List.dropWhile_cons_of_neg (by simpa using hc)]

/-- Without its leading slashes a text is relative. -/
theorem isAbsolute_dropWhile (s : String) :
    isAbsolute (String.ofList (s.toList.dropWhile (· == '/'))) = false := by
  rw [isAbsolute, String.toList_ofList]
  cases hd : s.toList.dropWhile (· == '/') with
  | nil => rfl
  | cons c l =>
    have hc := List.head_dropWhile_not (p := (· == '/')) (l := s.toList) (by rw [hd]; simp)
    simp only [hd, List.head_cons] at hc
    simpa using hc

/-- A path climbs when the first piece that is left of it is `..`. -/
theorem climbs_eq (s : String) :
    climbs s = ((normalize false (pieces s)).head? == some "..") := by
  have hdrop : normalize false (pieces (String.ofList (s.toList.dropWhile (· == '/')))) =
      normalize false (pieces s) := by
    rw [normalize, foldl_step_dropWhile, String.ofList_toList]
    rfl
  rw [climbs, clean, ofString, isAbsolute_dropWhile, hdrop]
  by_cases hnil : normalize false (pieces s) = []
  · rw [hnil]
    rfl
  · have hpieces : pieces (glue (normalize false (pieces s))) = normalize false (pieces s) :=
      pieces_glue _ hnil fun a ha => no_slash_of_mem_pieces (mem_of_mem_normalize ha).1
    simp [Path.toString, hnil, hpieces]

/-- The pieces that are left of a path that does not climb are names. -/
theorem isName_of_not_climbs {s a : String} (h : climbs s = false)
    (ha : a ∈ normalize false (pieces s)) : IsName a := by
  apply isName_of_mem_normalize (fun _ => no_slash_of_mem_pieces) ha
  rintro rfl
  rw [climbs_eq] at h
  obtain ⟨n, names, hn, hnames⟩ := normalize_eq_replicate_append (pieces s)
  cases n with
  | zero => exact hnames (by simpa [hn] using ha)
  | succ n => simp [hn, List.replicate_succ] at h

/-- The absolute text of a key does not climb. -/
theorem climbs_toString {k : Key} (h : ∀ a ∈ k, IsName a) : climbs (Key.toString k) = false := by
  have hskip : normalize false ("" :: k) = k := normalize_names h
  rw [climbs_eq, Key.toString, pieces_slash, String.ofList_toList]
  cases k with
  | nil => rfl
  | cons a k =>
    rw [pieces_glue_names (by simp) h, hskip]
    simpa using (h a List.mem_cons_self).ne_dots

/-- Taken from any place, a path that does not climb leads down by the names of its key. -/
theorem foldl_step_of_not_climbs {s : String} (h : climbs s = false) (absolute : Bool)
    (stack : List String) :
    (pieces s).foldl (step absolute) stack = (Key.resolve s).reverse ++ stack := by
  have hnames : ∀ a ∈ normalize false (pieces s), IsName a := fun a ha => isName_of_not_climbs h ha
  have hkey : Key.resolve s = normalize false (pieces s) := by
    rw [Key.resolve, normalize, ← foldl_step_normalize, foldl_step_names hnames]
    simp
  rw [← foldl_step_normalize, foldl_step_names hnames, hkey]

/-- A path that does not climb goes on from the key of the base that it is joined to. -/
theorem resolve_join_of_not_climbs (base : String) {path : String} (h : climbs path = false) :
    Key.resolve (join [base, path]) = Key.resolve base ++ Key.resolve path := by
  rw [resolve_join_pair, foldl_step_of_not_climbs h, List.reverse_append, List.reverse_reverse,
    List.reverse_reverse]

/-- A name goes on from the key of the base that it is joined to. -/
theorem resolve_join_name (base : String) {a : String} (h : IsName a) :
    Key.resolve (join [base, a]) = Key.resolve base ++ [a] := by
  have hpieces : pieces a = [a] := by
    have := pieces_glue_names (l := [a]) (by simp) (by simpa using h)
    rwa [glue_singleton] at this
  rw [resolve_join_pair, hpieces, List.foldl_cons, List.foldl_nil, h.step, List.reverse_cons,
    List.reverse_reverse]

/-! ## Names with numbers -/

theorem toList_toString_int (n : Int) :
    ∃ sign m, (sign = [] ∨ sign = ['-']) ∧
      (toString n).toList = sign ++ Nat.toDigits 10 m := by
  rw [Int.toString_eq_repr, Int.repr_eq_if]
  split
  · exact ⟨[], n.toNat, .inl rfl, Nat.toList_repr⟩
  · exact ⟨['-'], (-n).toNat, .inr rfl, by rw [String.toList_append, Nat.toList_repr]; rfl⟩

/-- A text without slashes and a number make a name. -/
theorem isName_append_number {lead : String} (h : '/' ∉ lead.toList) (n : Int) :
    IsName (lead ++ toString n) := by
  obtain ⟨sign, m, hsign, htext⟩ := toList_toString_int n
  have hlist : (lead ++ toString n).toList = lead.toList ++ (sign ++ Nat.toDigits 10 m) := by
    rw [String.toList_append, htext]
  have hdigits : ∀ c ∈ Nat.toDigits 10 m, c.isDigit = true := by
    intro c hc
    exact Nat.isDigit_of_mem_toDigits (by decide) (by decide) hc
  obtain ⟨c, l, hc⟩ := List.exists_cons_of_ne_nil (@Nat.toDigits_ne_nil m 10)
  have hdigit : c ∈ (lead ++ toString n).toList ∧ c.isDigit = true := by
    refine ⟨?_, hdigits c (by simp [hc])⟩
    rw [hlist, hc]
    simp
  have hother : ∀ s : String, (∀ a ∈ s.toList, a.isDigit = false) → lead ++ toString n ≠ s := by
    rintro s hs heq
    rw [hs c (heq ▸ hdigit.1)] at hdigit
    cases hdigit.2
  refine ⟨hother _ (by simp), hother _ (by simp), hother _ (by simp), ?_⟩
  rw [hlist, List.mem_append, List.mem_append, not_or, not_or]
  refine ⟨h, ?_, fun hmem => absurd (hdigits _ hmem) (by decide)⟩
  rcases hsign with rfl | rfl <;> simp

/-! ## Absolute joins -/

/-- Glued pieces are absolute when the first of them is. -/
theorem isAbsolute_glue {s : String} (hs : s ≠ "") (l : List String) :
    isAbsolute (glue (s :: l)) = isAbsolute s := by
  cases l with
  | nil => rw [glue_singleton]
  | cons t l =>
    obtain ⟨c, cs, hc⟩ := List.exists_cons_of_ne_nil (by simpa using hs : s.toList ≠ [])
    simp [isAbsolute, glue_cons_cons, hc]

/-- A join that begins with an absolute path is the text of its key. -/
theorem join_eq_toString {s : String} (h : isAbsolute s = true) (l : List String) :
    join (s :: l) = Key.toString (Key.resolve (join (s :: l))) := by
  have hs : s ≠ "" := by
    rintro rfl
    cases h
  have hjoin : join (s :: l) = clean (glue (s :: l.filter (· ≠ ""))) := by
    simp [join, hs]
  rw [hjoin, resolve_clean]
  exact clean_of_absolute ((isAbsolute_glue hs _).trans h)

@[simp] theorem isAbsolute_toString (k : Key) : isAbsolute (Key.toString k) = true := by
  simp [isAbsolute, Key.toString]

theorem isAbsolute_join {s : String} (h : isAbsolute s = true) (l : List String) :
    isAbsolute (join (s :: l)) = true := by
  rw [join_eq_toString h]
  exact isAbsolute_toString _

/-- A join that begins with an absolute path does not climb. -/
theorem climbs_join {s : String} (h : isAbsolute s = true) (l : List String) :
    climbs (join (s :: l)) = false := by
  rw [join_eq_toString h]
  exact climbs_toString (isName_resolve _)

/-- A path that is joined to the top is the text of its key. -/
theorem join_top (s : String) : join ["/", s] = Key.toString (Key.resolve s) := by
  rw [join_eq_toString rfl, resolve_join_pair]
  rfl

/-! ## Texts after a slash -/

theorem isAbsolute_slash (s : String) : isAbsolute ("/" ++ s) = true := by
  simp [isAbsolute]

theorem resolve_slash (s : String) : Key.resolve ("/" ++ s) = Key.resolve s := by
  have htext : "/" ++ s = String.ofList ('/' :: s.toList) := by
    apply String.toList_injective
    simp
  rw [Key.resolve, htext, pieces_slash, String.ofList_toList]
  rfl

/-- After a slash, the normal form is the text of the key. -/
theorem clean_slash (s : String) : clean ("/" ++ s) = Key.toString (Key.resolve s) := by
  rw [clean_of_absolute (isAbsolute_slash s), resolve_slash]

/-! ## Last names -/

/-- The text of a key ends with its last name, after a slash. -/
theorem exists_toList_toString (k : Key) (a : String) :
    ∃ front, (Key.toString (k ++ [a])).toList = front ++ '/' :: a.toList := by
  by_cases hk : k = []
  · exact ⟨[], by simp [hk, Key.toString]⟩
  · exact ⟨'/' :: (glue k).toList, by simp [Key.toString, glue_concat hk]⟩

/-- The last piece of a text is the name that it ends with, if that stands after a slash or
alone. -/
theorem baseName_of_append {s a : String} {front : List Char} (h : IsName a)
    (hs : s.toList = front ++ a.toList) (hfront : front = [] ∨ front.getLast? = some '/') :
    baseName s = a := by
  have hne : s ≠ "" := by
    rintro rfl
    have hnil := (List.append_eq_nil_iff.1 hs.symm).2
    exact h.ne_empty (by simpa using hnil)
  have hlist : a.toList.reverse ≠ [] := by simpa using h.ne_empty
  obtain ⟨c, l, hc⟩ := List.exists_cons_of_ne_nil hlist
  have hslash : ∀ d ∈ a.toList.reverse, (d != '/') = true := by
    intro d hd
    rw [List.mem_reverse] at hd
    rw [bne_iff_ne]
    rintro rfl
    exact h.no_slash hd
  -- read from its end, the text begins with the name, which has no slash
  have hdrop : (a.toList.reverse ++ front.reverse).dropWhile (· == '/') =
      a.toList.reverse ++ front.reverse := by
    rw [hc, List.cons_append, List.dropWhile_cons_of_neg]
    simpa using hslash c (by simp [hc])
  have htake : (a.toList.reverse ++ front.reverse).takeWhile (· != '/') = a.toList.reverse := by
    rw [List.takeWhile_append_of_pos hslash]
    rcases hfront with rfl | hfront
    · simp
    · obtain ⟨lead, rfl⟩ := List.getLast?_eq_some_iff.1 hfront
      simp
  rw [baseName, if_neg hne, hs, List.reverse_append, hdrop]
  split
  · rename_i hnil
    exact absurd (List.append_eq_nil_iff.1 hnil).1 hlist
  · rw [htake]
    simp

/-- The last piece of the text of a key is its last name. -/
theorem baseName_toString (k : Key) {a : String} (h : IsName a) :
    baseName (Key.toString (k ++ [a])) = a := by
  obtain ⟨front, hfront⟩ := exists_toList_toString k a
  exact baseName_of_append h (by rw [hfront, List.append_cons]) (.inr (by simp))

/-- A name is its own last piece. -/
theorem baseName_name {a : String} (h : IsName a) : baseName a = a :=
  baseName_of_append h rfl (.inl rfl)

end RootedFS.Path
