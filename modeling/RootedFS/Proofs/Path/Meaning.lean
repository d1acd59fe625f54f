import RootedFS.Proofs.Path.Route

/-!
# Normal forms and the meaning of paths

The rules by which the pieces of a text are read from left to right, said one by one, give every
text exactly one meaning. Its normal form is the one text that is written without anything to spare
and has the same meaning: nothing is lost by normalising, texts of one meaning are normalised
alike, and a text that is in normal form stays as it is.

## Main definitions

* `Path.Leaves`: the names that are left of pieces
* `Path.Means`: the meaning of a text
* `Path.Normal`: nothing in a text is to spare

## Main results

* `Path.means_iff`: every text has one meaning, and that is how it is read
* `Path.normal_iff`: a text is in normal form just when normalising leaves it as it is
* `Path.clean_complete`: the normal form is the only text in normal form of the same meaning
-/

namespace RootedFS.Path

/-- The names that are left of pieces when they are read from left to right. -/
inductive Leaves (absolute : Bool) : (pieces names : List String) → Prop
  | start : Leaves absolute [] []
  /-- An empty piece says nothing. -/
  | empty {l names} (h : Leaves absolute l names) : Leaves absolute (l ++ [""]) names
  /-- Neither does a dot. -/
  | dot {l names} (h : Leaves absolute l names) : Leaves absolute (l ++ ["."]) names
  /-- Two dots take back the name before them. -/
  | back {l names a} (h : Leaves absolute l (names ++ [a])) (ha : a ≠ "..") :
    Leaves absolute (l ++ [".."]) names
  /-- At the top of an absolute path they are dropped. -/
  | top {l} (habs : absolute = true) (h : Leaves absolute l []) : Leaves absolute (l ++ [".."]) []
  /-- At the start of a relative path they are kept, behind others of their kind. -/
  | up {l n} (hrel : absolute = false) (h : Leaves absolute l (List.replicate n "..")) :
    Leaves absolute (l ++ [".."]) (List.replicate (n + 1) "..")
  /-- Any other piece is a name. -/
  | name {l names a} (h : Leaves absolute l names) (ha : a ≠ "" ∧ a ≠ "." ∧ a ≠ "..") :
    Leaves absolute (l ++ [a]) (names ++ [a])

/-- The meaning of a text: whether it begins with a slash, and what its pieces leave. -/
structure Means (s : String) (p : Path) : Prop where
  absolute : p.absolute = true ↔ ∃ l, s.toList = '/' :: l
  segments : Leaves p.absolute (pieces s) p.segments

/-- Two texts have the same meaning. -/
def SameMeaning (s t : String) : Prop :=
  ∀ p, Means s p ↔ Means t p

/-- Nothing in a text is to spare. -/
structure Normal (s : String) : Prop where
  nonempty : s ≠ ""
  /-- No slash stands next to another. -/
  single : ∀ front back, s.toList ≠ front ++ '/' :: '/' :: back
  /-- No slash stands at the end, but for the top. -/
  openEnd : s.toList.getLast? = some '/' → s = "/"
  /-- No piece is a dot, but where it is all there is. -/
  dot : "." ∈ pieces s → s = "."
  /-- Two dots are the first pieces, or come behind others of their kind; so there are none in a
  text that begins with a slash. -/
  dots : ∃ n rest, pieces s = List.replicate n ".." ++ rest ∧ ".." ∉ rest

variable {s t : String} {absolute : Bool} {l names : List String}

/-! ## Reading by rules -/

theorem Leaves.normalize_eq (h : Leaves absolute l names) : normalize absolute l = names := by
  induction h with
  | start => rfl
  | empty h ih => rw [normalize_append_singleton, ih, step_skip (.inl rfl), List.reverse_reverse]
  | dot h ih => rw [normalize_append_singleton, ih, step_skip (.inr rfl), List.reverse_reverse]
  | back h ha ih =>
    rw [normalize_append_singleton, ih, List.reverse_append, List.reverse_singleton,
      List.singleton_append, step_up_cons ha, List.reverse_reverse]
  | top habs h ih =>
    rw [normalize_append_singleton, ih, habs]
    rfl
  | up hrel h ih =>
    rw [normalize_append_singleton, ih, hrel, List.reverse_replicate, step_up_replicate,
      List.reverse_replicate]
  | name h ha ih =>
    rw [normalize_append_singleton, ih, step_of_ne (not_or.2 ⟨ha.1, ha.2.1⟩) ha.2.2,
      List.reverse_cons, List.reverse_reverse]

/-- What is left ends with a name, or there are only steps up, and these only in a relative path. -/
theorem normalize_cases (absolute : Bool) (l : List String) :
    (∃ names a, normalize absolute l = names ++ [a] ∧ a ≠ "..") ∨ normalize absolute l = [] ∨
      absolute = false ∧ ∃ n, normalize absolute l = List.replicate n ".." := by
  rcases List.eq_nil_or_concat (normalize absolute l) with hnil | ⟨names, a, hlast⟩
  · exact .inr (.inl hnil)
  rw [List.concat_eq_append] at hlast
  by_cases ha : a = ".."
  · subst ha
    have hmem : ".." ∈ normalize absolute l := by simp [hlast]
    cases absolute with
    | true => exact absurd (List.mem_reverse.1 hmem) (not_mem_foldl_step List.not_mem_nil)
    | false =>
      obtain ⟨n, rest, hn, hrest⟩ := normalize_eq_replicate_append l
      rcases List.eq_nil_or_concat rest with rfl | ⟨rest, b, rfl⟩
      · exact .inr (.inr ⟨rfl, n, by rw [hn, List.append_nil]⟩)
      · rw [hn, List.concat_eq_append, ← List.append_assoc] at hlast
        have hb := (List.append_inj' hlast rfl).2
        rw [List.concat_eq_append] at hrest
        exact absurd (List.mem_append_right rest (hb ▸ List.mem_singleton_self _)) hrest
  · exact .inl ⟨names, a, hlast, ha⟩

theorem leaves_normalize (absolute : Bool) (l : List String) :
    Leaves absolute l (normalize absolute l) := by
  -- from the right: the rule for the last piece is told by what the pieces before it leave
  induction l using List.reverseRecOn with
  | nil => exact .start
  | append_singleton l a ih =>
    rw [normalize_append_singleton]
    by_cases hempty : a = ""
    · rw [step_skip (.inl hempty), List.reverse_reverse, hempty]
      exact .empty ih
    by_cases hdot : a = "."
    · rw [step_skip (.inr hdot), List.reverse_reverse, hdot]
      exact .dot ih
    by_cases hup : a = ".."
    · subst hup
      rcases normalize_cases absolute l with ⟨names, b, hlast, hb⟩ | hnil | ⟨rfl, n, hn⟩
      · rw [hlast] at ih ⊢
        rw [List.reverse_append, List.reverse_singleton, List.singleton_append, step_up_cons hb,
          List.reverse_reverse]
        exact .back ih hb
      · rw [hnil] at ih ⊢
        cases absolute with
        | true => exact .top rfl ih
        | false => exact .up (n := 0) rfl ih
      · rw [hn] at ih ⊢
        rw [List.reverse_replicate, step_up_replicate, List.reverse_replicate]
        exact .up rfl ih
    · rw [step_of_ne (not_or.2 ⟨hempty, hdot⟩) hup, List.reverse_cons, List.reverse_reverse]
      exact .name ih ⟨hempty, hdot, hup⟩

/-- Pieces leave what they are read to. -/
theorem leaves_iff : Leaves absolute l names ↔ normalize absolute l = names :=
  ⟨Leaves.normalize_eq, fun h => h ▸ leaves_normalize absolute l⟩

theorem isAbsolute_iff : isAbsolute s = true ↔ ∃ l, s.toList = '/' :: l := by
  rw [isAbsolute, beq_iff_eq, List.head?_eq_some_iff]

/-- A text has one meaning, and that is how it is read. -/
theorem means_iff {p : Path} : Means s p ↔ ofString s = p := by
  constructor
  · rintro ⟨habs, hleaves⟩
    have habs' : isAbsolute s = p.absolute := by
      rw [Bool.eq_iff_iff, isAbsolute_iff, habs]
    rw [ofString, habs', leaves_iff.1 hleaves]
  · rintro rfl
    exact ⟨isAbsolute_iff, leaves_normalize _ _⟩

theorem sameMeaning_iff : SameMeaning s t ↔ ofString s = ofString t := by
  simp only [SameMeaning, means_iff]
  exact ⟨fun h => (h _).2 rfl |>.symm ▸ rfl, fun h p => h ▸ Iff.rfl⟩

/-! ## Slashes to spare -/

/-- A slash cuts the pieces of a text into two. -/
theorem pieces_of_toList_eq {front back : List Char} (h : s.toList = front ++ '/' :: back) :
    pieces s = pieces (String.ofList front) ++ pieces (String.ofList back) := by
  simp [pieces, h, splitSlash_append_slash]

theorem mem_tail_pieces_append (front : List Char) {l : List String} (h : "" ∈ l) :
    "" ∈ (pieces (String.ofList front) ++ l).tail := by
  have hne : pieces (String.ofList front) ≠ [] := by simp [pieces, splitSlash_ne_nil]
  rw [List.tail_append_of_ne_nil hne]
  exact List.mem_append_right _ h

/-- An empty piece after the first one comes from a slash at the end, or from two slashes side by
side. -/
theorem mem_tail_pieces_iff : "" ∈ (pieces s).tail ↔
    s.toList.getLast? = some '/' ∨ ∃ front back, s.toList = front ++ '/' :: '/' :: back := by
  constructor
  · intro hmem
    obtain ⟨first, rest, hpieces⟩ := List.exists_cons_of_ne_nil (l := pieces s)
      (by simp [pieces, splitSlash_ne_nil])
    rw [hpieces, List.tail_cons] at hmem
    obtain ⟨front, back, rfl⟩ := List.append_of_mem hmem
    have htext : s = glue ((first :: front) ++ "" :: back) := by
      rw [List.cons_append, ← hpieces, glue_pieces]
    cases back with
    | nil =>
      rw [glue_concat (by simp)] at htext
      exact .inl (by simp [htext])
    | cons b back =>
      refine .inr ⟨(glue (first :: front)).toList, (glue (b :: back)).toList, ?_⟩
      rw [htext, toList_glue_append (by simp) (by simp), glue_cons_cons]
      simp
  · rintro (hlast | ⟨front, back, h⟩)
    · obtain ⟨front, hfront⟩ := List.getLast?_eq_some_iff.1 hlast
      rw [pieces_of_toList_eq hfront]
      exact mem_tail_pieces_append front List.mem_cons_self
    · rw [pieces_of_toList_eq h, pieces_slash]
      exact mem_tail_pieces_append front List.mem_cons_self

/-- Apart from the top, a normal form has no empty pieces after the first one. -/
theorem Normal.not_mem_tail (h : Normal s) (htop : s ≠ "/") : "" ∉ (pieces s).tail := by
  intro hmem
  rcases mem_tail_pieces_iff.1 hmem with hlast | ⟨front, back, hdouble⟩
  · exact htop (h.openEnd hlast)
  · exact h.single front back hdouble

/-! ## Normal forms -/

theorem normal_top : Normal "/" where
  nonempty := by decide
  single := by
    intro front back h
    have hlen := congrArg List.length h
    simp at hlen
    omega
  openEnd _ := rfl
  dot h := absurd h (by decide)
  dots := ⟨0, pieces "/", rfl, by decide⟩

/-- A text other than the top is in normal form if nothing of its pieces is to spare. -/
theorem normal_of_pieces (hne : s ≠ "") (htail : "" ∉ (pieces s).tail)
    (hdot : "." ∈ pieces s → s = ".")
    (hdots : ∃ n rest, pieces s = List.replicate n ".." ++ rest ∧ ".." ∉ rest) : Normal s where
  nonempty := hne
  single front back h := htail (mem_tail_pieces_iff.2 (.inr ⟨front, back, h⟩))
  openEnd hlast := absurd (mem_tail_pieces_iff.2 (.inl hlast)) htail
  dot := hdot
  dots := hdots

/-- The text of a key is in normal form. -/
theorem normal_toString {k : Key} (hk : ∀ a ∈ k, IsName a) : Normal (Key.toString k) := by
  by_cases hnil : k = []
  · rw [hnil]
    exact normal_top
  have hpieces := pieces_toString fun a ha => (hk a ha).no_slash
  rw [if_neg hnil] at hpieces
  refine normal_of_pieces ?_ ?_ ?_ ⟨0, "" :: k, by rw [hpieces]; rfl, ?_⟩
  · intro hempty
    have habs := isAbsolute_toString k
    rw [hempty] at habs
    cases habs
  · rw [hpieces]
    exact fun hmem => (hk _ hmem).ne_empty rfl
  · rw [hpieces]
    exact fun hmem => absurd rfl (hk "." (List.mem_of_ne_of_mem (by decide) hmem)).ne_dot
  · exact fun hmem => absurd rfl (hk ".." (List.mem_of_ne_of_mem (by decide) hmem)).ne_dots

/-- What is left of a relative text is in normal form when it is written out. -/
theorem normal_glue_normalize {l : List String} (hne : normalize false l ≠ [])
    (hl : ∀ a ∈ l, '/' ∉ a.toList) : Normal (glue (normalize false l)) := by
  have hpieces : pieces (glue (normalize false l)) = normalize false l :=
    pieces_glue _ hne fun a ha => hl a (mem_of_mem_normalize ha).1
  have hkept : ∀ a ∈ pieces (glue (normalize false l)), ¬(a = "" ∨ a = ".") := by
    rw [hpieces]
    exact fun a ha => (mem_of_mem_normalize ha).2
  refine normal_of_pieces ?_ ?_ ?_ ?_
  · intro hempty
    rw [hempty] at hkept
    exact hkept "" List.mem_cons_self (.inl rfl)
  · exact fun hmem => hkept "" (List.mem_of_mem_tail hmem) (.inl rfl)
  · exact fun hmem => absurd (.inr rfl) (hkept "." hmem)
  · rw [hpieces]
    exact normalize_eq_replicate_append l

theorem clean_of_relative (h : isAbsolute s = false) :
    clean s =
      if normalize false (pieces s) = [] then "." else glue (normalize false (pieces s)) := by
  simp [clean, ofString, Path.toString, h]

theorem normal_clean (s : String) : Normal (clean s) := by
  cases habs : isAbsolute s with
  | true =>
    rw [clean_of_absolute habs]
    exact normal_toString (isName_resolve s)
  | false =>
    rw [clean_of_relative habs]
    split
    · exact normal_of_pieces (by decide) (by decide) (fun _ => rfl) ⟨0, ["."], rfl, by decide⟩
    · rename_i hne
      exact normal_glue_normalize hne fun a ha => no_slash_of_mem_pieces ha

theorem foldl_step_replicate_up (n m : Nat) :
    (List.replicate n "..").foldl (step false) (List.replicate m "..") =
      List.replicate (m + n) ".." := by
  induction n generalizing m with
  | zero => rfl
  | succ n ih =>
    rw [List.replicate_succ, List.foldl_cons, step_up_replicate, ih]
    congr 1
    omega

/-- Steps up in front of names stay as they are in a relative path. -/
theorem normalize_replicate_append_names (n : Nat) (h : ∀ a ∈ names, IsName a) :
    normalize false (List.replicate n ".." ++ names) = List.replicate n ".." ++ names := by
  have hup := foldl_step_replicate_up n 0
  rw [normalize, List.foldl_append, ← List.replicate_zero, hup, Nat.zero_add, foldl_step_names h]
  simp

/-- A text whose first piece is empty begins with a slash, unless it is empty itself. -/
theorem isAbsolute_of_pieces_eq (hne : s ≠ "") (h : pieces s = "" :: l) : isAbsolute s = true := by
  rw [← glue_pieces s, h] at hne ⊢
  cases l with
  | nil => exact absurd (glue_singleton "") hne
  | cons a l => simp [isAbsolute, glue_cons_cons]

/-- Apart from empty ones and from steps up, the pieces of a normal form are names, unless it is a
single dot. -/
theorem Normal.isName_of_mem {a : String} (h : Normal s) (hdot : s ≠ ".") (ha : a ∈ pieces s)
    (hempty : a ≠ "") (hup : a ≠ "..") : IsName a where
  ne_empty := hempty
  ne_dot heq := hdot (h.dot (heq ▸ ha))
  ne_dots := hup
  no_slash := no_slash_of_mem_pieces ha

section

variable (h : Normal s) (htop : s ≠ "/") (hdot : s ≠ ".")
include h htop hdot

theorem Normal.clean_eq_of_absolute (habs : isAbsolute s = true) : clean s = s := by
  obtain ⟨n, rest, hpieces, hrest⟩ := h.dots
  obtain ⟨l, hl⟩ := isAbsolute_iff.1 habs
  have hfirst : pieces s = "" :: pieces (String.ofList l) := by
    rw [← pieces_slash, ← hl, String.ofList_toList]
  -- the first piece is empty, so that none is a step up and the others are names
  have hn : n = 0 := by
    cases n with
    | zero => rfl
    | succ n =>
      rw [hfirst, List.replicate_succ, List.cons_append, List.cons_eq_cons] at hpieces
      exact absurd hpieces.1 (by decide)
  rw [hn, List.replicate_zero, List.nil_append] at hpieces
  have hnames : ∀ a ∈ pieces (String.ofList l), IsName a := by
    intro a ha
    have hmem : a ∈ pieces s := hfirst ▸ List.mem_cons_of_mem _ ha
    refine h.isName_of_mem hdot hmem ?_ ?_
    · rintro rfl
      exact h.not_mem_tail htop (by rwa [hfirst])
    · rintro rfl
      exact hrest (hpieces ▸ hmem)
  have hskip : normalize true ("" :: pieces (String.ofList l)) = pieces (String.ofList l) :=
    normalize_names hnames
  apply String.toList_injective
  rw [clean_of_absolute habs, Key.resolve, Key.toString, hfirst, hskip, glue_pieces, hl]
  simp

theorem Normal.clean_eq_of_relative (habs : isAbsolute s = false) : clean s = s := by
  obtain ⟨n, rest, hpieces, hrest⟩ := h.dots
  have hnone : "" ∉ pieces s := by
    intro hmem
    obtain ⟨first, l, hfirst⟩ := List.exists_cons_of_ne_nil (List.ne_nil_of_mem hmem)
    have htail := h.not_mem_tail htop
    rw [hfirst] at hmem htail
    obtain rfl : first = "" := ((List.mem_cons.1 hmem).resolve_right htail).symm
    rw [isAbsolute_of_pieces_eq h.nonempty hfirst] at habs
    cases habs
  have hnames : ∀ a ∈ rest, IsName a := by
    intro a ha
    have hmem : a ∈ pieces s := hpieces ▸ List.mem_append_right _ ha
    exact h.isName_of_mem hdot hmem (fun heq => hnone (heq ▸ hmem)) fun heq => hrest (heq ▸ ha)
  have hfixed : normalize false (pieces s) = pieces s := by
    rw [hpieces, normalize_replicate_append_names n hnames]
  rw [clean_of_relative habs, hfixed, if_neg (by simp [pieces, splitSlash_ne_nil]), glue_pieces]

end

/-- A text is in normal form just when normalising leaves it as it is. -/
theorem normal_iff : Normal s ↔ clean s = s := by
  refine ⟨fun h => ?_, fun h => h ▸ normal_clean s⟩
  by_cases htop : s = "/"
  · rw [htop]
    decide
  by_cases hdot : s = "."
  · rw [hdot]
    decide
  cases habs : isAbsolute s with
  | true => exact h.clean_eq_of_absolute htop hdot habs
  | false => exact h.clean_eq_of_relative htop hdot habs

instance (s : String) : Decidable (Normal s) :=
  decidable_of_iff _ normal_iff.symm

/-! ## The normal form of a text -/

/-- A text is without anything to spare and has the meaning of another. -/
structure NormalFormOf (s t : String) : Prop where
  normal : Normal t
  meaning : SameMeaning t s

/-- Every text has one meaning, and one normal form, which is what normalising gives: a single dot
where a relative path is empty. Normalising it again changes nothing, and texts are normalised alike
just when they have the same meaning. -/
theorem clean_complete (s : String) :
    (∃! p, Means s p) ∧ (∀ t, NormalFormOf s t ↔ t = clean s) ∧
      (clean s = "." ↔ Means s ⟨false, []⟩) ∧ clean (clean s) = clean s ∧
      ∀ t, clean s = clean t ↔ SameMeaning s t := by
  have hmeaning : ∀ t, clean s = clean t ↔ ofString s = ofString t := by
    intro t
    constructor
    · intro heq
      rw [← ofString_clean s, heq, ofString_clean]
    · exact congrArg Path.toString
  refine ⟨⟨ofString s, means_iff.2 rfl, fun p hp => (means_iff.1 hp).symm⟩, ?_, ?_,
    clean_clean s, ?_⟩
  · intro t
    constructor
    · rintro ⟨hnormal, hsame⟩
      rw [← normal_iff.1 hnormal, (hmeaning t).2 (sameMeaning_iff.1 hsame).symm]
    · rintro rfl
      exact ⟨normal_clean s, sameMeaning_iff.2 (ofString_clean s)⟩
  · have hdot : ofString "." = ⟨false, []⟩ := by decide
    have hclean : clean "." = "." := by decide
    rw [means_iff, ← hdot, ← hmeaning, hclean]
  · intro t
    rw [hmeaning, sameMeaning_iff]

/-- A text and its normal form; with two slashes at the start it is not normal yet. -/
example : clean "//a/./../../b//" = "/b" ∧ Normal "/b" ∧ ¬Normal "//b" := by decide

end RootedFS.Path
