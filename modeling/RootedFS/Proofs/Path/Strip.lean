import RootedFS.Proofs.Path.Join

/-!
# Names under a directory's path

A directory's path and a name make a longer path, and taking the directory's path off that again
leaves the name. A bare name loses nothing, unless it is all of the text that is taken off it.

## Main definitions

* `Path.child`: the path that goes one name further down

## Main results

* `Path.ofString_clean`: the normal form has the same meaning
* `Path.join_name`: a name joined to a path goes one name further down
* `Path.stripLead_of_no_slash`: what is left of a bare name
* `Path.stripLead_join_name`: of a path joined with a name, the name is left
* `Path.baseName_join_name`: the last piece of a path joined with a name is the name
* `Path.join_join_name`: a path goes one name further down after a base as well as by itself
-/

namespace RootedFS.Path

variable {a s t : String}

/-! ## Normal forms -/

theorem normalize_normalize (l : List String) :
    normalize false (normalize false l) = normalize false l := by
  rw [normalize, foldl_step_normalize]
  rfl

/-- The first piece of an absolute text is empty. -/
theorem isAbsolute_of_pieces (h : "" ∉ pieces s) : isAbsolute s = false := by
  by_contra habs
  rw [Bool.not_eq_false, isAbsolute, beq_iff_eq] at habs
  obtain ⟨l, hl⟩ := List.head?_eq_some_iff.1 habs
  rw [← s.ofList_toList, hl, pieces_slash] at h
  exact h List.mem_cons_self

theorem IsName.pieces (h : IsName a) : pieces a = [a] := by
  have hglue := pieces_glue_names (l := [a]) (by simp) (by simpa using h)
  rwa [glue_singleton] at hglue

theorem IsName.resolve (h : IsName a) : Key.resolve a = [a] := by
  rw [Key.resolve, h.pieces, normalize_names (by simpa using h)]

theorem IsName.isAbsolute (h : IsName a) : isAbsolute a = false :=
  isAbsolute_of_pieces (by simpa [h.pieces] using h.ne_empty.symm)

/-- The normal form of a path's text has the same meaning. -/
theorem ofString_clean (s : String) : ofString (clean s) = ofString s := by
  by_cases habs : isAbsolute s = true
  · have hkey := resolve_clean s
    rw [Key.resolve, Key.resolve] at hkey
    have hclean : isAbsolute (clean s) = true := by
      rw [clean_of_absolute habs]
      exact isAbsolute_toString _
    rw [ofString, ofString, hclean, habs, hkey]
  · rw [Bool.not_eq_true] at habs
    have hclean : clean s =
        if normalize false (pieces s) = [] then "." else glue (normalize false (pieces s)) := by
      simp [clean, ofString, Path.toString, habs]
    by_cases hnil : normalize false (pieces s) = []
    · rw [hclean, if_pos hnil, ofString, ofString, habs, hnil]
      rfl
    · have hpieces : pieces (clean s) = normalize false (pieces s) := by
        rw [hclean, if_neg hnil]
        exact pieces_glue _ hnil fun a ha => no_slash_of_mem_pieces (mem_of_mem_normalize ha).1
      have hrel : isAbsolute (clean s) = false := by
        refine isAbsolute_of_pieces ?_
        rw [hpieces]
        exact fun hmem => (mem_of_mem_normalize hmem).2 (.inl rfl)
      rw [ofString, ofString, hrel, habs, hpieces, normalize_normalize]

theorem clean_clean (s : String) : clean (clean s) = clean s := by
  rw [clean, ofString_clean]
  rfl

theorem clean_ne_empty (s : String) : clean s ≠ "" := by
  intro h
  have hmeaning := ofString_clean s
  rw [h] at hmeaning
  rw [clean, ← hmeaning] at h
  exact absurd h (by decide)

/-- A join is a normal form, unless it is empty. -/
theorem clean_join (l : List String) : join l = "" ∨ clean (join l) = join l := by
  unfold join
  split
  · exact .inl rfl
  · exact .inr (clean_clean _)

/-- The normal form of a path that does not climb does not climb either. -/
theorem climbs_clean (h : climbs s = false) : climbs (clean s) = false := by
  by_cases habs : isAbsolute s = true
  · rw [clean_of_absolute habs]
    exact climbs_toString (isName_resolve s)
  · rw [Bool.not_eq_true] at habs
    have hmeaning := ofString_clean s
    rw [ofString, ofString, Path.mk.injEq, habs] at hmeaning
    rw [climbs_eq] at h ⊢
    rw [hmeaning.1] at hmeaning
    rwa [hmeaning.2]

/-! ## One name further down -/

/-- The path that goes one name further down. -/
def child (p : Path) (a : String) : Path :=
  { p with segments := p.segments ++ [a] }

theorem join_cons_eq_clean (hs : s ≠ "") (l : List String) :
    join (s :: l) = clean (glue (s :: l.filter (· ≠ ""))) := by
  simp [join, hs]

/-- Put after one another, elements are read from the first into the others. -/
theorem ofString_glue_cons (hs : s ≠ "") (l : List String) :
    ofString (glue (s :: l.filter (· ≠ ""))) =
      ⟨isAbsolute s, normalize (isAbsolute s) (pieces s ++ l.flatMap pieces)⟩ := by
  rw [ofString, isAbsolute_glue hs, pieces_glue_eq_flatMap (by simp), List.flatMap_cons, normalize,
    normalize, List.foldl_append, List.foldl_append, foldl_step_flatMap_filter]

/-- A join is read from its first element into the others. -/
theorem join_cons (hs : s ≠ "") (l : List String) :
    join (s :: l) =
      Path.toString ⟨isAbsolute s, normalize (isAbsolute s) (pieces s ++ l.flatMap pieces)⟩ := by
  rw [join_cons_eq_clean hs, clean, ofString_glue_cons hs]

theorem ofString_join_cons (hs : s ≠ "") (l : List String) :
    ofString (join (s :: l)) =
      ⟨isAbsolute s, normalize (isAbsolute s) (pieces s ++ l.flatMap pieces)⟩ := by
  rw [join_cons_eq_clean hs, ofString_clean, ofString_glue_cons hs]

theorem join_cons_ne_empty (hs : s ≠ "") (l : List String) : join (s :: l) ≠ "" := by
  rw [join_cons_eq_clean hs]
  exact clean_ne_empty _

/-- The join of two texts is read from the first into the second. -/
theorem join_pair (hs : s ≠ "") (t : String) :
    join [s, t] =
      Path.toString ⟨isAbsolute s, normalize (isAbsolute s) (pieces s ++ pieces t)⟩ := by
  rw [join_cons hs, List.flatMap_singleton]

/-- A name joined to a path goes one name further down. -/
theorem join_name (s : String) (h : IsName a) : join [s, a] = ((ofString s).child a).toString := by
  by_cases hs : s = ""
  · subst hs
    have hjoin : join ["", a] = clean a := by simp [join, h.ne_empty]
    rw [hjoin, clean, ofString, h.isAbsolute, h.pieces, normalize_names (by simpa using h)]
    rfl
  · rw [join_pair hs, h.pieces, normalize_append_singleton, h.step, List.reverse_cons,
      List.reverse_reverse]
    rfl

theorem join_empty_name (h : IsName a) : join ["", a] = a := by
  have hempty : ofString "" = ⟨false, []⟩ := by decide
  rw [join_name "" h, hempty]
  simp [child, Path.toString]

/-- Two names are joined by a slash. -/
theorem toList_join_names {b : String} (hb : IsName b) (h : IsName a) :
    (join [b, a]).toList = b.toList ++ '/' :: a.toList := by
  have hname : ofString b = ⟨false, [b]⟩ := by
    rw [ofString, hb.isAbsolute, hb.pieces, normalize_names (by simpa using hb)]
  rw [join_name b h, hname]
  simp [child, Path.toString, glue_cons_cons]

/-- A name joined to a relative path stands after what is left of the path. -/
theorem join_name_of_relative (hs : isAbsolute s = false) (h : IsName a) :
    join [s, a] = glue (normalize false (pieces s) ++ [a]) := by
  rw [join_name s h]
  simp [child, ofString, hs, Path.toString]

/-- A path that does not climb, joined with a name, does not climb. -/
theorem climbs_join_name (hs : climbs s = false) (h : IsName a) :
    climbs (join [s, a]) = false := by
  by_cases habs : isAbsolute s = true
  · exact climbs_join habs _
  · rw [Bool.not_eq_true] at habs
    have hnames : ∀ b ∈ normalize false (pieces s) ++ [a], IsName b :=
      isName_concat (fun b hb => isName_of_not_climbs hs hb) h
    rw [climbs_eq, join_name_of_relative habs h, pieces_glue_names (by simp) hnames,
      normalize_names hnames]
    simp only [beq_eq_false_iff_ne]
    intro hhead
    exact (hnames _ (List.mem_of_mem_head? hhead)).ne_dots rfl

theorem join_empty (hs : s ≠ "") : join [s, ""] = clean s := by
  simp [join, hs]

/-- A path that does not climb, joined with nothing, does not climb. -/
theorem climbs_join_empty (h : climbs s = false) : climbs (join [s, ""]) = false := by
  by_cases hs : s = ""
  · have hjoin : join [s, ""] = s := by simp [join, hs]
    exact (congrArg climbs hjoin).trans h
  · rw [join_empty hs]
    exact climbs_clean h

/-- A path that does not climb may be replaced by its normal form where it is joined to a base. -/
theorem join_join_empty (base : String) (h : climbs s = false) :
    join [base, join [s, ""]] = join [base, s] := by
  by_cases hs : s = ""
  · rw [hs]
    rfl
  rw [join_empty hs]
  by_cases hb : base = ""
  · subst hb
    simp [join, hs, clean_ne_empty, clean_clean]
  · rw [join_pair hb, join_pair hb, normalize, normalize, List.foldl_append,
      List.foldl_append, foldl_step_of_not_climbs (climbs_clean h), foldl_step_of_not_climbs h,
      resolve_clean]

/-! ## Taking a directory's path off -/

theorem dropLead?_eq_some_iff {lead l rest : List Char} :
    dropLead? lead l = some rest ↔ l = lead ++ rest := by
  induction lead generalizing l with
  | nil => simp [dropLead?]
  | cons c lead ih =>
    cases l with
    | nil => simp [dropLead?]
    | cons d l =>
      by_cases h : c = d
      · simp [dropLead?, h, ih]
      · simp [dropLead?, h, Ne.symm h]

/-- A text without slashes is left as it is, unless it is all that is taken off. -/
theorem stripLead_of_no_slash (h : '/' ∉ s.toList) (lead : String) :
    stripLead s lead = if s = lead then "" else s := by
  by_cases hempty : lead = ""
  · rw [stripLead, if_pos hempty, hempty]
    split
    · assumption
    · rfl
  rw [stripLead, if_neg hempty]
  by_cases heq : s = lead
  · rw [if_pos heq, if_pos heq]
  rw [if_neg heq, if_neg heq]
  -- whatever is taken off ends with a slash
  have hdrop : ∀ head, '/' ∈ head → dropLead? head s.toList = none := by
    intro head hhead
    rw [Option.eq_none_iff_forall_ne_some]
    intro rest hrest
    exact h (dropLead?_eq_some_iff.1 hrest ▸ List.mem_append_left rest hhead)
  split
  · rename_i hlast
    simp only [hdrop _ (List.mem_of_getLast? hlast)]
  · simp only [hdrop (lead.toList ++ ['/']) (by simp)]

/-- Nothing is taken off a bare name by an absolute path. -/
theorem stripLead_of_absolute {name lead : String} (hname : '/' ∉ name.toList)
    (hlead : isAbsolute lead = true) : stripLead name lead = name := by
  rw [stripLead_of_no_slash hname, if_neg]
  rintro rfl
  rw [isAbsolute, beq_iff_eq] at hlead
  exact hname (List.mem_of_mem_head? hlead)

/-- What follows a slash is left of a text when all before it is taken off. -/
theorem stripLead_append {lead rest : String} (hlead : lead ≠ "")
    (hlast : lead.toList.getLast? ≠ some '/') : stripLead (lead ++ "/" ++ rest) lead = rest := by
  have hlength : lead ++ "/" ++ rest ≠ lead := by
    intro h
    have hlen := congrArg String.length h
    have hslash : "/".length = 1 := rfl
    rw [String.length_append, String.length_append, hslash] at hlen
    omega
  have hdrop : dropLead? (lead.toList ++ ['/']) (lead ++ "/" ++ rest).toList =
      some rest.toList := by
    rw [dropLead?_eq_some_iff]
    simp
  rw [stripLead, if_neg hlead, if_neg hlength, if_neg hlast]
  simp only [hdrop, String.ofList_toList]

/-- The text of a path that has names does not end with a slash. -/
theorem getLast?_toString {p : Path} (hne : p.segments ≠ [])
    (hsegments : ∀ b ∈ p.segments, b ≠ "" ∧ '/' ∉ b.toList) :
    p.toString.toList.getLast? ≠ some '/' := by
  obtain ⟨l, b, hl⟩ := (List.eq_nil_or_concat p.segments).resolve_left hne
  rw [List.concat_eq_append] at hl
  obtain ⟨hb, hslash⟩ := hsegments b (by simp [hl])
  have hend : ∃ front, p.toString.toList = front ++ b.toList := by
    have hglue : ∃ front, (glue (l ++ [b])).toList = front ++ b.toList := by
      by_cases hnil : l = []
      · exact ⟨[], by simp [hnil]⟩
      · exact ⟨(glue l).toList ++ ['/'], by simp [glue_concat hnil]⟩
    obtain ⟨front, hfront⟩ := hglue
    unfold Path.toString
    rw [hl]
    split
    · exact ⟨'/' :: front, by simp [hfront]⟩
    · exact ⟨front, by simpa using hfront⟩
  obtain ⟨front, hfront⟩ := hend
  have hchars : b.toList.getLast? = some (b.toList.getLast (by simpa using hb)) :=
    List.getLast?_eq_some_getLast _
  rw [hfront, List.getLast?_append, hchars, Option.some_or, ← hchars]
  exact fun hlast => hslash (List.mem_of_getLast? hlast)

/-- The text of a path that goes one name further down than one with names. -/
theorem toString_child {p : Path} (hne : p.segments ≠ []) (a : String) :
    (p.child a).toString = p.toString ++ "/" ++ a := by
  apply String.toList_injective
  simp only [child, Path.toString, glue_concat hne]
  split <;> simp [hne]

/-- Of a normal form joined with a name, the name is left when the normal form is taken off. -/
theorem stripLead_join_name (hs : s = "" ∨ clean s = s) (h : IsName a) :
    stripLead (join [s, a]) s = a := by
  have hslash : '/' ∉ a.toList := h.no_slash
  rcases hs with rfl | hs
  · have hjoin : join ["", a] = a := by
      rw [join_name "" h]
      simp [child, ofString, Path.toString, isAbsolute, normalize, step]
    rw [hjoin]
    rfl
  have htext : s = (ofString s).toString := hs.symm
  have hsegments : ∀ b ∈ (ofString s).segments, b ≠ "" ∧ '/' ∉ b.toList := fun b hb =>
    ⟨fun hempty => (mem_of_mem_normalize hb).2 (.inl hempty),
      no_slash_of_mem_pieces (mem_of_mem_normalize hb).1⟩
  rw [join_name s h]
  by_cases hnil : (ofString s).segments = []
  · cases habs : (ofString s).absolute with
    | true =>
      have htop : s = "/" := by
        rw [htext, Path.toString, if_pos habs, hnil]
        rfl
      have hchild : ((ofString s).child a).toString = String.ofList ('/' :: a.toList) := by
        simp [child, Path.toString, habs, hnil]
      have hne : String.ofList ('/' :: a.toList) ≠ "/" := by
        intro heq
        have hlist := congrArg String.toList heq
        simp [h.ne_empty] at hlist
      rw [hchild, htop, stripLead, if_neg (by simp), if_neg hne]
      simp [dropLead?]
    | false =>
      have hdot : s = "." := by
        rw [htext, Path.toString, habs, hnil]
        rfl
      have hchild : ((ofString s).child a).toString = a := by
        simp [child, Path.toString, habs, hnil]
      rw [hchild, stripLead_of_no_slash hslash, if_neg (hdot ▸ h.ne_dot)]
  · have hlast := getLast?_toString hnil hsegments
    rw [← htext] at hlast
    rw [toString_child hnil, ← htext]
    exact stripLead_append (fun hempty => clean_ne_empty s (hs.trans hempty)) hlast

/-! ## Names joined to paths -/

/-- The last piece of a path joined with a name is the name. -/
theorem baseName_join_name (s : String) (h : IsName a) : baseName (join [s, a]) = a := by
  rw [join_name s h]
  by_cases hnil : (ofString s).segments = []
  · cases habs : (ofString s).absolute with
    | true =>
      have hchild : ((ofString s).child a).toString = Key.toString ([] ++ [a]) := by
        simp [child, Path.toString, Key.toString, habs, hnil]
      rw [hchild, baseName_toString [] h]
    | false =>
      have hchild : ((ofString s).child a).toString = a := by
        simp [child, Path.toString, habs, hnil]
      rw [hchild, baseName_name h]
  · have hlist : ((ofString s).toString ++ "/" ++ a).toList =
        ((ofString s).toString.toList ++ ['/']) ++ a.toList := by simp
    rw [toString_child hnil]
    exact baseName_of_append h hlist (.inr (by simp))

theorem join_name_ne_empty (s : String) (h : IsName a) : join [s, a] ≠ "" := by
  intro hempty
  have hlast := baseName_join_name s h
  rw [hempty] at hlast
  exact h.ne_dot hlast.symm

/-- A path joined with a name is read as the path is, and then the name, unless the path is absolute
and climbs: in its normal form such a path no longer leads up. -/
theorem foldl_step_join_name (hs : isAbsolute s = true → climbs s = false) (h : IsName a)
    (absolute : Bool) (stack : List String) :
    (pieces (join [s, a])).foldl (step absolute) stack =
      a :: (pieces s).foldl (step absolute) stack := by
  cases habs : isAbsolute s with
  | true =>
    rw [foldl_step_of_not_climbs (climbs_join habs _), resolve_join_name s h,
      foldl_step_of_not_climbs (hs habs), List.reverse_append]
    rfl
  | false =>
    have hslash : ∀ b ∈ normalize false (pieces s) ++ [a], '/' ∉ b.toList := by
      intro b hb
      rcases List.mem_append.1 hb with hb | hb
      · exact no_slash_of_mem_pieces (mem_of_mem_normalize hb).1
      · exact List.mem_singleton.1 hb ▸ h.no_slash
    rw [join_name_of_relative habs h, pieces_glue _ (by simp) hslash, List.foldl_append,
      foldl_step_normalize, List.foldl_cons, List.foldl_nil, h.step]

/-- Put after a base, a path is read on from the base. -/
theorem ofString_join_pair {base : String} (hb : base ≠ "") (s : String) :
    ofString (join [base, s]) =
      ⟨isAbsolute base, normalize (isAbsolute base) (pieces base ++ pieces s)⟩ := by
  rw [ofString_join_cons hb, List.flatMap_singleton]

/-- After a base as well as by itself, a path goes one name further down with a name, unless it is
absolute and climbs. -/
theorem join_join_name (base : String) (hs : isAbsolute s = true → climbs s = false)
    (h : IsName a) : join [base, join [s, a]] = join [join [base, s], a] := by
  have hne := join_name_ne_empty s h
  by_cases hb : base = ""
  · subst hb
    have hjoin : ∀ t : String, t ≠ "" → join ["", t] = clean t := fun t ht => by simp [join, ht]
    rw [hjoin _ hne, (clean_join [s, a]).resolve_left hne]
    by_cases hempty : s = ""
    · rw [hempty]
      rfl
    · rw [hjoin s hempty, join_name s h, join_name (clean s) h, ofString_clean]
  · rw [join_pair hb, join_name (join [base, s]) h, ofString_join_pair hb, child, normalize,
      normalize, List.foldl_append, foldl_step_join_name hs h, List.reverse_cons,
      List.foldl_append]

/-- A join that is absolute does not climb. -/
theorem climbs_of_isAbsolute_join {l : List String} (h : isAbsolute (join l) = true) :
    climbs (join l) = false := by
  rcases clean_join l with hempty | hclean
  · rw [hempty]
    rfl
  · rw [← hclean, clean_of_absolute h]
    exact climbs_toString (isName_resolve _)

end RootedFS.Path
