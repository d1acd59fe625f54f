import RootedFS.Proofs.Path.Meaning

/-!
# Relative paths

The relative path from one absolute path to another leads up from the base to what the two share, in
whole names, and then down. Put after the base it leads to the target again, whatever the spelling
of the two; and from a base to what a path leads to below it, it is that path in its normal form.

## Main definitions

* `Path.AtOrBelow`: whether a path is another or goes on from it by whole segments

## Main results

* `Path.pieces_relativeTo`: the pieces of a relative path are the way between the keys
* `Path.resolve_join_relativeTo`: put after its base, a relative path leads to the target
* `Path.relativeTo_inverts_join`: relative paths and joins undo one another
-/

namespace RootedFS.Path

variable {base target s t p : String}

/-! ## Absolute texts by their keys -/

/-- Whether a path is another or lies below it: its normal form goes on from the other's by whole
segments. -/
def AtOrBelow (base target : String) : Prop :=
  (ofString (clean base)).segments <+: (ofString (clean target)).segments

instance (base target : String) : Decidable (AtOrBelow base target) :=
  inferInstanceAs (Decidable (_ <+: _))

theorem segments_clean (h : isAbsolute s = true) :
    (ofString (clean s)).segments = Key.resolve s := by
  rw [ofString_clean, ofString, h]
  rfl

theorem atOrBelow_iff (hs : isAbsolute s = true) (ht : isAbsolute t = true) :
    AtOrBelow s t ↔ Key.within (Key.resolve s) (Key.resolve t) = true := by
  rw [AtOrBelow, segments_clean hs, segments_clean ht, Key.within_iff]
  exact exists_congr fun rest => eq_comm

/-- Absolute texts have the same normal form exactly if they have the same key. -/
theorem clean_eq_clean_iff (hs : isAbsolute s = true) (ht : isAbsolute t = true) :
    clean s = clean t ↔ Key.resolve s = Key.resolve t := by
  rw [clean_of_absolute hs, clean_of_absolute ht]
  exact ⟨toString_injective (isName_resolve s) (isName_resolve t), congrArg Key.toString⟩

/-! ## The pieces of a relative path -/

/-- The text of names in a relative path: a dot if there are none. -/
theorem toString_relative (l : List String) :
    Path.toString ⟨false, l⟩ = if l = [] then "." else glue l := rfl

/-- A relative path is the text of the way between the keys. -/
theorem relativeTo_eq_toString (base target : String) :
    relativeTo base target =
      Path.toString ⟨false, Key.route (Key.resolve base) (Key.resolve target)⟩ := by
  rw [relativeTo, toString_relative]
  split
  · rename_i hnil
    rw [if_pos hnil]
  · rename_i hne
    rw [if_neg hne]

/-- The pieces of a relative path are the way between the keys, or a dot if there is nothing to
go. -/
theorem pieces_relativeTo (base target : String) :
    pieces (relativeTo base target) =
      if Key.route (Key.resolve base) (Key.resolve target) = [] then ["."]
      else Key.route (Key.resolve base) (Key.resolve target) := by
  rw [relativeTo_eq_toString, toString_relative]
  split
  · rfl
  · rename_i hne
    exact pieces_glue _ hne fun a ha => (Key.plain_of_mem_route (isName_resolve target) a ha).2

/-- There is nothing to go exactly if the relative path is a dot. -/
theorem relativeTo_eq_dot_iff :
    relativeTo base target = "." ↔ Key.route (Key.resolve base) (Key.resolve target) = [] := by
  constructor
  · intro hdot
    by_contra hne
    have hpieces := pieces_relativeTo base target
    rw [hdot, if_neg hne] at hpieces
    have hmem : "." ∈ Key.route (Key.resolve base) (Key.resolve target) :=
      hpieces ▸ List.mem_singleton_self "."
    rcases Key.eq_or_mem_of_mem_route hmem with hup | hname
    · exact absurd hup (by decide)
    · exact (isName_resolve target "." hname).ne_dot rfl
  · intro hnil
    rw [relativeTo_eq_toString, hnil]
    rfl

/-- A relative path begins with a step up exactly if the way between the keys does. -/
theorem head?_pieces_relativeTo_iff :
    (pieces (relativeTo base target)).head? = some ".." ↔
      (Key.route (Key.resolve base) (Key.resolve target)).head? = some ".." := by
  rw [pieces_relativeTo]
  split
  · rename_i hnil
    rw [hnil]
    decide
  · exact Iff.rfl

/-- A relative path is read as the way between the keys. -/
theorem foldl_step_relativeTo (base target : String) (stack : List String) :
    (pieces (relativeTo base target)).foldl (step true) stack =
      (Key.route (Key.resolve base) (Key.resolve target)).foldl (step true) stack := by
  rw [pieces_relativeTo]
  split
  · rename_i hnil
    rw [hnil]
    rfl
  · rfl

/-! ## Relative paths and joins -/

/-- Put after its base, a relative path leads to the target. -/
theorem resolve_join_relativeTo (base target : String) :
    Key.resolve (join [base, relativeTo base target]) = Key.resolve target := by
  rw [resolve_join_pair, foldl_step_relativeTo,
    Key.foldl_step_route (isName_resolve base) (isName_resolve target), List.reverse_reverse]

/-- What is left of a path that does not climb are the names of its key. -/
theorem normalize_of_not_climbs (h : climbs s = false) (absolute : Bool) :
    normalize absolute (pieces s) = Key.resolve s := by
  rw [normalize, foldl_step_of_not_climbs h, List.append_nil, List.reverse_reverse]

/-- From a base to what a path that does not climb leads to behind it, the relative path is made of
the names of that path. -/
theorem relativeTo_join (base : String) (h : climbs p = false) :
    relativeTo base (join [base, p]) = Path.toString ⟨false, Key.resolve p⟩ := by
  rw [relativeTo_eq_toString, resolve_join_of_not_climbs base h, Key.route_append]

/-- Put after its base, the relative path to a target is the target in its normal form. It is a dot
exactly if the two are the same, and begins with `..` exactly if the target is neither the base nor
below it. From a base to what a relative path that does not climb leads to behind it, it is that
path in its normal form. -/
theorem relativeTo_inverts_join (hbase : isAbsolute base = true) :
    (∀ target, isAbsolute target = true →
        join [base, relativeTo base target] = clean target ∧
        (relativeTo base target = "." ↔ clean base = clean target) ∧
        ((pieces (relativeTo base target)).head? = some ".." ↔ ¬AtOrBelow base target)) ∧
      ∀ p, isAbsolute p = false → climbs p = false →
        relativeTo base (join [base, p]) = clean p := by
  -- an absolute path enters only by its key, so that its spelling does not matter
  refine ⟨fun target htarget => ⟨?_, ?_, ?_⟩, fun p hrel hclimbs => ?_⟩
  · rw [join_eq_toString hbase, resolve_join_relativeTo, clean_of_absolute htarget]
  · rw [relativeTo_eq_dot_iff, Key.route_eq_nil_iff (isName_resolve base) (isName_resolve target),
      clean_eq_clean_iff hbase htarget, eq_comm]
  · rw [head?_pieces_relativeTo_iff, Key.head?_route_eq_some_iff (isName_resolve target),
      atOrBelow_iff hbase htarget, Bool.not_eq_true]
  · rw [relativeTo_join base hclimbs, clean, ofString, hrel, normalize_of_not_climbs hclimbs]

/-- A base that is not clean, a target whose name begins with all of a name of the base, and a path
down to a name that begins with dots. -/
theorem relativeTo_inverts_join_beside :
    (isAbsolute "//srv/a/./b" = true ∧ isAbsolute "/srv/ab/x/.." = true ∧
        isAbsolute "y/../..c/" = false ∧ climbs "y/../..c/" = false) ∧
      relativeTo "//srv/a/./b" "/srv/ab/x/.." = "../../ab" ∧
      join ["//srv/a/./b", "../../ab"] = clean "/srv/ab/x/.." ∧
      ¬AtOrBelow "//srv/a/./b" "/srv/ab/x/.." ∧
      relativeTo "//srv/a/./b" (join ["//srv/a/./b", "y/../..c/"]) = "..c" := by
  have hbase : isAbsolute "//srv/a/./b" = true := by decide
  have htarget : isAbsolute "/srv/ab/x/.." = true := by decide
  have hway : relativeTo "//srv/a/./b" "/srv/ab/x/.." = "../../ab" := by decide
  have hclean : clean "y/../..c/" = "..c" := by decide
  obtain ⟨hto, hdown⟩ := relativeTo_inverts_join hbase
  obtain ⟨hjoin, -, hup⟩ := hto "/srv/ab/x/.." htarget
  rw [hway] at hjoin hup
  exact ⟨⟨hbase, htarget, by decide, by decide⟩, hway, hjoin, hup.1 (by decide),
    (hdown "y/../..c/" (by decide) (by decide)).trans hclean⟩

end RootedFS.Path
