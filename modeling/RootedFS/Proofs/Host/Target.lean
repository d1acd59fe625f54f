import RootedFS.Proofs.View.Links

/-!
# Targets of links on the host

The filesystem of a root tells an absolute target by its text. Where the text of the root and a
slash stand in front, what follows is taken as a path of the root; where they do not, the target is
told as it is, and noted as one outside the root. The text decides rightly unless what follows the
root leads above it, and unless the target leads below the root by another spelling of it.

## Main definitions

* `Host.Rooted.after?`: what follows the text of a root in a target
* `Host.Rooted.Plain`: the targets whose text shows on which side of the root they lie
* `Host.Rooted.Tells`: what is to be answered, and noted, for the target of a link

## Main results

* `Path.resolve_ne_of_climbs`: a path that climbs does not go on from the key before it
* `FileSystem.readlink_host`: the answer for a link, and the targets for which it is what it is to
  be
-/

namespace RootedFS

namespace Path

variable {k : Key} {rest : String}

/-! ## Paths that climb -/

/-- A path that climbs leads up some number of times and then down by the names of its key. -/
theorem exists_normalize_of_climbs (h : climbs rest = true) :
    ∃ n, normalize false (pieces rest) = List.replicate (n + 1) ".." ++ Key.resolve rest ∧
      ∀ a ∈ Key.resolve rest, IsName a := by
  obtain ⟨n, names, hn, hdots⟩ := normalize_eq_replicate_append (pieces rest)
  have hnames : ∀ a ∈ names, IsName a := by
    intro a ha
    have hmem : a ∈ normalize false (pieces rest) := by
      rw [hn]
      exact List.mem_append_right _ ha
    refine isName_of_mem_normalize (fun _ => no_slash_of_mem_pieces) hmem ?_
    rintro rfl
    exact hdots ha
  have hkey : Key.resolve rest = names := by
    rw [Key.resolve, normalize, ← foldl_step_normalize, hn, ← normalize,
      normalize_replicate_append n hnames]
  cases n with
  | zero =>
    rw [climbs_eq, hn, beq_iff_eq] at h
    exact absurd (List.mem_of_mem_head? h) hdots
  | succ n => exact ⟨n, by rw [hkey, hn], hkey ▸ hnames⟩

/-- A text that goes on from the text of a key is read on from the key. -/
theorem resolve_toString_append (hk : ∀ a ∈ k, IsName a) (rest : String) :
    Key.resolve (String.ofList ((Key.toString k).toList ++ '/' :: rest.toList)) =
      ((pieces rest).foldl (step true) k.reverse).reverse := by
  have hread : (pieces (Key.toString k)).foldl (step true) [] = k.reverse := by
    rw [← resolve_toString hk, Key.resolve, normalize, List.reverse_reverse, ← normalize,
      ← Key.resolve, resolve_toString hk]
  rw [Key.resolve, normalize, pieces, String.toList_ofList, splitSlash_append_slash,
    List.map_append, List.foldl_append]
  exact congrArg (fun stack => ((pieces rest).foldl (step true) stack).reverse) hread

/-- A path that climbs does not go on from the key whose text stands before it. -/
theorem resolve_ne_of_climbs (hk : ∀ a ∈ k, IsName a) (hne : k ≠ []) (h : climbs rest = true) :
    Key.resolve (String.ofList ((Key.toString k).toList ++ '/' :: rest.toList)) ≠
      k ++ Key.resolve rest := by
  obtain ⟨n, hn, hnames⟩ := exists_normalize_of_climbs h
  have hstack : (pieces rest).foldl (step true) k.reverse =
      (Key.resolve rest).reverse ++ k.reverse.drop (n + 1) := by
    rw [← foldl_step_normalize, hn, List.foldl_append, foldl_step_up (by simpa using hk),
      foldl_step_names hnames]
  rw [resolve_toString_append hk, hstack]
  intro heq
  have hlength := congrArg List.length heq
  have hpos := List.length_pos_iff.2 hne
  simp only [List.length_reverse, List.length_append, List.length_drop] at hlength
  omega

end Path

namespace Host.Rooted

variable {root : Key} {link target rest : String}

/-! ## Targets by their texts -/

/-- What follows the text of a root and a slash in a target that begins with them. -/
def after? (root : Key) (target : String) : Option String :=
  (Path.dropLead? ((Key.toString root).toList ++ ['/']) target.toList).map String.ofList

/-- The targets whose text shows on which side of a root they lie: it is the root's own text, or it
goes on from there by a path that does not climb, or it is that of a target outside the root. -/
def Plain (root : Key) (target : String) : Prop :=
  match after? root target with
  | some rest => Path.climbs rest = false
  | none => target = Key.toString root ∨ Key.within root (Key.resolve target) = false

/-- What is to be answered, and noted, for the target of a link: a relative one is told as it is, an
absolute one at or below the root as a path of the root that leads there, and any other as it is,
with a notice. -/
structure Tells (root : Key) (link target answer : String) (notices : List Notice) : Prop where
  relative : Path.isAbsolute target = false → answer = target ∧ notices = []
  inside : Path.isAbsolute target = true → Key.within root (Key.resolve target) = true →
    Path.isAbsolute answer = true ∧ Key.toString (route root answer) = Path.clean target
  outside : Path.isAbsolute target = true → Key.within root (Key.resolve target) = false →
    answer = target ∧ notices = [.outsideRoot link (Key.toString root) target]

theorem Tells.of_inside {answer : String} {notices : List Notice}
    (habs : Path.isAbsolute target = true) (hin : Key.within root (Key.resolve target) = true)
    (hanswer : Path.isAbsolute answer = true)
    (hplace : Key.toString (route root answer) = Path.clean target) :
    Tells root link target answer notices where
  relative hrel := by simp [habs] at hrel
  inside _ _ := ⟨hanswer, hplace⟩
  outside _ hout := by simp [hin] at hout

theorem after?_eq_some_iff : after? root target = some rest ↔
    target = String.ofList ((Key.toString root).toList ++ '/' :: rest.toList) := by
  rw [after?, Option.map_eq_some_iff]
  constructor
  · rintro ⟨l, hl, rfl⟩
    rw [← target.ofList_toList, Path.dropLead?_eq_some_iff.1 hl]
    simp
  · rintro rfl
    exact ⟨rest.toList, Path.dropLead?_eq_some_iff.2 (by simp), rest.ofList_toList⟩

/-- What goes on from the text of a root is told from the top, whether it climbs or not. -/
theorem inside?_of_after? (hrest : after? root target = some rest) :
    inside? root target = some (Key.toString (Key.resolve rest)) := by
  have hne : target.toList ≠ (Key.toString root).toList := by
    rw [after?_eq_some_iff.1 hrest]
    simp
  have hslash : String.ofList ('/' :: rest.toList) = "/" ++ rest := by
    apply String.toList_injective
    simp
  have hjoin : Path.join ["/", String.ofList ('/' :: rest.toList)] =
      Key.toString (Key.resolve rest) := by
    rw [Path.join_top, hslash, Path.resolve_slash]
  rw [after?, Option.map_eq_some_iff] at hrest
  obtain ⟨l, hl, rfl⟩ := hrest
  rw [inside?, if_neg hne, hl, Option.map_some, ← hjoin, String.toList_ofList]

theorem inside?_toString (root : Key) : inside? root (Key.toString root) = some "/" :=
  if_pos rfl

/-- A text that does not begin with that of the root is not told as a path of the root. -/
theorem inside?_of_after?_eq_none (hnone : after? root target = none)
    (hne : target ≠ Key.toString root) : inside? root target = none := by
  rw [after?, Option.map_eq_none_iff] at hnone
  rw [inside?, if_neg fun h => hne (String.toList_injective h), hnone]
  rfl

theorem isAbsolute_of_after? (hrest : after? root target = some rest) :
    Path.isAbsolute target = true := by
  rw [after?_eq_some_iff.1 hrest]
  simp [Path.isAbsolute, Key.toString]

/-- The path of a root that leads to a key below it. -/
theorem toString_route_toString {k : Key} (hk : ∀ a ∈ k, Path.IsName a) :
    Key.toString (route root (Key.toString k)) = Key.toString (root ++ k) := by
  rw [route, Path.resolve_toString hk]

section

variable (hroot : ∀ a ∈ root, Path.IsName a)
include hroot

theorem isName_of_mem_append_resolve (rest : String) :
    ∀ a ∈ root ++ Key.resolve rest, Path.IsName a :=
  Path.isName_append hroot (Path.isName_resolve rest)

/-- What goes on from the text of a root is told as it is to be if it does not climb and, unless the
root is the top, only then. -/
theorem tells_iff_of_after? (hrest : after? root target = some rest) :
    Tells root link target (reported root target) (noted root link target) ↔
      root = [] ∨ Path.climbs rest = false := by
  have habs := isAbsolute_of_after? hrest
  have hin := inside?_of_after? hrest
  have hread : reported root target = Key.toString (Key.resolve rest) := by
    rw [reported, if_pos habs, hin, Option.getD_some]
  have hplace : Key.toString (route root (reported root target)) =
      Key.toString (root ++ Key.resolve rest) := by
    rw [hread, toString_route_toString (Path.isName_resolve rest)]
  have htext := after?_eq_some_iff.1 hrest
  constructor
  · intro htells
    by_contra hnot
    rw [not_or, Bool.not_eq_false] at hnot
    have hmiss := Path.resolve_ne_of_climbs hroot hnot.1 hnot.2
    rw [← htext] at hmiss
    cases hwithin : Key.within root (Key.resolve target) with
    | true =>
      have hsame := (htells.inside habs hwithin).2
      rw [hplace, Path.clean_of_absolute habs] at hsame
      have hkey : root ++ Key.resolve rest = Key.resolve target :=
        Path.toString_injective (isName_of_mem_append_resolve hroot rest)
          (Path.isName_resolve target) hsame
      exact hmiss hkey.symm
    | false =>
      have hnote := (htells.outside habs hwithin).2
      rw [noted, if_neg (by simp [hin])] at hnote
      cases hnote
  · intro hplain
    have hkey : Key.resolve target = root ++ Key.resolve rest := by
      rw [htext, Path.resolve_toString_append hroot]
      rcases hplain with rfl | hclimbs
      · exact (List.nil_append _).symm
      · rw [Path.foldl_step_of_not_climbs hclimbs]
        simp
    refine .of_inside habs (hkey ▸ Key.within_append _ _) ?_ ?_
    · rw [hread]
      exact Path.isAbsolute_toString _
    · rw [hplace, Path.clean_of_absolute habs, hkey]

/-- Any other text is told as it is to be if it is that of the root, or that of a target outside the
root, and, unless the root is the top, only then. -/
theorem tells_iff_of_after?_eq_none (habs : Path.isAbsolute target = true)
    (hnone : after? root target = none) :
    Tells root link target (reported root target) (noted root link target) ↔
      root = [] ∨ target = Key.toString root ∨ Key.within root (Key.resolve target) = false := by
  have hclean := Path.clean_of_absolute habs
  by_cases hself : target = Key.toString root
  · have hread : reported root target = "/" := by
      rw [reported, if_pos habs, hself, inside?_toString, Option.getD_some]
    have hkey : Key.resolve target = root := by rw [hself, Path.resolve_toString hroot]
    have htop : Key.resolve "/" = [] := rfl
    refine iff_of_true (.of_inside habs (hkey ▸ Key.within_self root) ?_ ?_) (.inr (.inl hself))
    · rw [hread]
      rfl
    · rw [hread, route, htop, List.append_nil, hclean, hkey]
  · have hin := inside?_of_after?_eq_none hnone hself
    have hread : reported root target = target := by
      rw [reported, if_pos habs, hin, Option.getD_none]
    have hnote : noted root link target = [.outsideRoot link (Key.toString root) target] :=
      if_pos ⟨habs, hin⟩
    cases hwithin : Key.within root (Key.resolve target) with
    | false =>
      exact iff_of_true ⟨by simp [habs], by simp [hwithin], fun _ _ => ⟨hread, hnote⟩⟩ (by simp)
    | true =>
      -- as a path of the root, the target's own text leads further down than the target
      have hplace : Key.toString (route root (reported root target)) = Path.clean target ↔
          root = [] := by
        rw [hread, hclean, route]
        constructor
        · intro hsame
          have hkey : root ++ Key.resolve target = Key.resolve target :=
            Path.toString_injective (isName_of_mem_append_resolve hroot target)
              (Path.isName_resolve target) hsame
          simpa using hkey
        · rintro rfl
          rfl
      constructor
      · exact fun htells => .inl (hplace.1 (htells.inside habs hwithin).2)
      · exact fun h => .of_inside habs hwithin (by rw [hread, habs])
          (hplace.2 (by simpa [hself] using h))

/-- A target of a link is told as it is to be if its text shows on which side of the root it lies
and, unless the root is the top, only then. -/
theorem tells_iff : Tells root link target (reported root target) (noted root link target) ↔
    (Path.isAbsolute target = true → root = [] ∨ Plain root target) := by
  cases habs : Path.isAbsolute target with
  | false =>
    have hread : reported root target = target := if_neg (by simp [habs])
    have hnote : noted root link target = [] := if_neg (by simp [habs])
    exact iff_of_true ⟨fun _ => ⟨hread, hnote⟩, by simp [habs], by simp [habs]⟩ (by simp)
  | true =>
    rw [Plain]
    cases hrest : after? root target with
    | some rest => simpa using tells_iff_of_after? hroot hrest
    | none => simpa using tells_iff_of_after?_eq_none hroot habs hrest

end

end Host.Rooted

open Memory in
/-- The target of a link is read without a change. -/
theorem Host.run_readlink {h : Host} {route : List String} {k : Key} {target : String}
    (hlink : lookup .upTo h.tree route = .ok (k, .link target)) :
    (Host.readlink route).run h = .ok target h := by
  rw [Host.readlink, run_bind_ok (EStateM.run_get h), hlink]
  rfl

namespace FileSystem

open Host Memory World

variable {root k : Key} {link target : String} {w : World}

/-- A link is answered with its target as the filesystem of the root reports it. -/
theorem run_readlink_host
    (hlink : lookup .upTo w.host.tree (Rooted.route root link) = .ok (k, .link target)) :
    ((host root).readlink link).run w = .ok (Rooted.reported root target)
      { w with notices := w.notices ++ Rooted.noted root link target } :=
  run_readlink_host_of_read (run_onHost_of_read (run_readlink hlink))

/-- The answer for a link is what it is to be exactly if the target is relative, or its text shows
on which side of the root it lies, or the root is the top. What goes on from the text of the root is
told as a path of the root even if it climbs out of it. -/
theorem readlink_host (hroot : ∀ a ∈ root, Path.IsName a)
    (hlink : lookup .upTo w.host.tree (Rooted.route root link) = .ok (k, .link target)) :
    ∃ answer notices, ((host root).readlink link).run w =
        .ok answer { w with notices := w.notices ++ notices } ∧
      (Rooted.Tells root link target answer notices ↔
        (Path.isAbsolute target = true → root = [] ∨ Rooted.Plain root target)) ∧
      ∀ rest, Rooted.after? root target = some rest →
        answer = Key.toString (Key.resolve rest) ∧ notices = [] := by
  refine ⟨_, _, run_readlink_host hlink, Rooted.tells_iff hroot, fun rest hrest => ?_⟩
  have hin := Rooted.inside?_of_after? hrest
  constructor
  · rw [Rooted.reported, if_pos (Rooted.isAbsolute_of_after? hrest), hin, Option.getD_some]
  · exact if_neg (by simp [hin])

/-- A target below `/a/x` that is not clean is told as it is to be. -/
theorem readlink_host_below :
    (∀ a ∈ ["a", "x"], Path.IsName a) ∧
      lookup .upTo (linkedWorld "/a/x/d/..//y").host.tree (Rooted.route ["a", "x"] "l") =
        .ok (["a", "x", "l"], .link "/a/x/d/..//y") ∧
      answer ((host ["a", "x"]).readlink "l") (linkedWorld "/a/x/d/..//y") = .ok "/y" ∧
      Rooted.Tells ["a", "x"] "l" "/a/x/d/..//y" "/y" [] := by
  have hroot : ∀ a ∈ ["a", "x"], Path.IsName a := by decide
  have hlink : lookup .upTo (linkedWorld "/a/x/d/..//y").host.tree (Rooted.route ["a", "x"] "l") =
      .ok (["a", "x", "l"], .link "/a/x/d/..//y") := by decide +kernel
  have hrest : Rooted.after? ["a", "x"] "/a/x/d/..//y" = some "d/..//y" := by decide +kernel
  have hplain : Rooted.Plain ["a", "x"] "/a/x/d/..//y" := by
    rw [Rooted.Plain, hrest]
    decide +kernel
  obtain ⟨told, notices, hrun, hiff, hgoes⟩ := readlink_host hroot hlink
  have hanswer : Key.toString (Key.resolve "d/..//y") = "/y" := by decide +kernel
  rw [(hgoes _ hrest).1, (hgoes _ hrest).2, hanswer] at hrun hiff
  exact ⟨hroot, hlink, by rw [answer, hrun], hiff.2 fun _ => .inr hplain⟩

/-- A target that climbs out of `/a/x` is told as a path inside, and one inside `/a/x` that begins
with another spelling of it is told as one outside. -/
theorem readlink_host_misled :
    (answer ((host ["a", "x"]).readlink "l") (linkedWorld "/a/x/../y") = .ok "/y" ∧
        ∀ notices, ¬Rooted.Tells ["a", "x"] "l" "/a/x/../y" "/y" notices) ∧
      answer ((host ["a", "x"]).readlink "l") (linkedWorld "/a/./x/y") = .ok "/a/./x/y" ∧
        ∀ notices, ¬Rooted.Tells ["a", "x"] "l" "/a/./x/y" "/a/./x/y" notices := by
  refine ⟨⟨by decide +kernel, fun notices htells => ?_⟩, by decide +kernel,
    fun notices htells => ?_⟩
  · exact absurd (htells.outside (by decide) (by decide)).1 (by decide)
  · exact absurd (htells.inside (by decide) (by decide)).2 (by decide +kernel)

end FileSystem

end RootedFS
