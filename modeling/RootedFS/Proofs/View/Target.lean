import RootedFS.Proofs.Path.Relative
import RootedFS.Proofs.View.Links

/-!
# Targets of links, told from the base of a view

A view tells an absolute target of a link by the way that leads to it from the base. Put after the
base again, that way is the target, wherever the target lies; it begins with a step up exactly if
the target is neither the base nor below it, and then the target is noted.

## Main results

* `FileSystem.resolve_join_rerooted`: joined to the base, the way from it names the target
* `FileSystem.readlink_view`: what a view answers, and notes, for a link that can be read under it
-/

namespace RootedFS

open Memory World

namespace Path

theorem toString_eq_slash_iff {l : List String} (h : ∀ a ∈ l, a ≠ "" ∧ '/' ∉ a.toList) :
    Key.toString l = "/" ↔ l = [] := by
  constructor
  · intro heq
    rw [← filter_pieces_toString h, heq]
    rfl
  · rintro rfl
    rfl

end Path

namespace FileSystem

variable {u : FileSystem} {base link path target : String} {w w₁ : World}

/-! ## Filesystems whose links can be read -/

/-- Where a link has been read, the paths are joined by normalising, and a view finds links. -/
theorem offers_of_readlink (h : (u.readlink path).run w = .ok target w₁) :
    u.offersSymlinks = true ∧ u.join = Path.join := by
  -- by induction on the views: a view reads what is read under it
  induction u generalizing path target w₁ with
  | memory store variant =>
    by_cases hv : variant = .linkTable
    · subst hv
      exact ⟨rfl, rfl⟩
    · rw [readlink, if_neg hv] at h
      cases h
  | host root => exact ⟨rfl, rfl⟩
  | view u base ih =>
    refine ⟨rfl, ?_⟩
    cases hoffers : u.offersSymlinks with
    | false =>
      rw [readlink, requireSymlinks, hoffers] at h
      cases h
    | true =>
      rw [readlink, requireSymlinks_eq hoffers, pure_bind] at h
      cases hread : (u.readlink (u.translate base path)).run w with
      | ok t w₂ => exact (ih hread).2
      | error f w₂ =>
        rw [run_bind_error hread] at h
        cases h

/-! ## Ways from the base -/

theorem plain_wayFrom (base target : String) :
    ∀ a ∈ wayFrom base target, a ≠ "" ∧ '/' ∉ a.toList :=
  Key.plain_of_mem_route (Path.isName_resolve target)

/-- As an absolute text, a way is read on from the base as it is by itself. -/
theorem foldl_step_rerooted (base target : String) (stack : List String) :
    (Path.pieces (rerooted base target)).foldl (Path.step true) stack =
      (wayFrom base target).foldl (Path.step true) stack := by
  rw [rerooted, Path.pieces_toString fun a ha => (plain_wayFrom base target a ha).2]
  split
  · rename_i hnil
    rw [hnil]
    rfl
  · rfl

/-- Joined to the base, the way from it names the target. -/
theorem resolve_join_rerooted (base target : String) :
    Key.resolve (Path.join [base, rerooted base target]) = Key.resolve target := by
  have hbase := Path.isName_resolve base
  have htarget := Path.isName_resolve target
  rw [Path.resolve_join_pair, foldl_step_rerooted, wayFrom, Key.foldl_step_route hbase htarget,
    List.reverse_reverse]

/-- A way begins with a step up exactly if it is noted. -/
theorem exists_pieces_rerooted_iff (base target : String) :
    (∃ way, Path.pieces (rerooted base target) = "" :: ".." :: way) ↔
      escapes base target = true := by
  rw [rerooted, Path.pieces_toString fun a ha => (plain_wayFrom base target a ha).2, escapes,
    beq_iff_eq]
  cases wayFrom base target with
  | nil => simp
  | cons a l => simp

theorem escapes_iff (ht : Path.isAbsolute target = true) :
    escapes base target = true ↔ ¬Path.AtOrBelow ("/" ++ base) target := by
  rw [Path.atOrBelow_iff (Path.isAbsolute_slash base) ht, Path.resolve_slash, escapes, beq_iff_eq,
    wayFrom, Key.head?_route_eq_some_iff (Path.isName_resolve target), Bool.not_eq_true]

/-- The target is told as the top exactly if it is the base. -/
theorem rerooted_eq_slash_iff (ht : Path.isAbsolute target = true) :
    rerooted base target = "/" ↔ Path.clean target = Path.clean ("/" ++ base) := by
  have hbase := Path.isName_resolve base
  have htarget := Path.isName_resolve target
  rw [rerooted, Path.toString_eq_slash_iff (plain_wayFrom base target), wayFrom,
    Key.route_eq_nil_iff hbase htarget, Path.clean_eq_clean_iff ht (Path.isAbsolute_slash base),
    Path.resolve_slash]

/-! ## Links through a view -/

/-- A view tells what it has read under it from its base, and notes what leads up. -/
theorem run_readlink_view (hread : (u.readlink (u.translate base link)).run w = .ok target w₁)
    (ht : Path.isAbsolute target = true) :
    ((view u base).readlink link).run w = .ok (rerooted base target)
      { w₁ with notices := w₁.notices ++
          if escapes base target = true then [.outsideView link base target] else [] } := by
  rw [readlink, requireSymlinks_eq (offers_of_readlink hread).1, pure_bind, run_bind_ok hread, ht]
  cases escapes base target with
  | false =>
    simp only [Bool.false_eq_true, if_false, List.append_nil]
    rfl
  | true => rfl

/-- A view tells a relative target as it is. An absolute target that is read under it comes back as
an absolute path that leads to the target from the base of the view, whatever the base and the
target are. It begins with a step up, and is noted, exactly if the target is neither the base nor
below it, and it is the top exactly if the target is the base. -/
theorem readlink_view (hread : (u.readlink (u.translate base link)).run w = .ok target w₁) :
    (Path.isAbsolute target = false → ((view u base).readlink link).run w = .ok target w₁) ∧
      (Path.isAbsolute target = true → ∃ answer full,
        ((view u base).readlink link).run w = .ok answer
            { w₁ with notices := w₁.notices ++
                if Path.AtOrBelow ("/" ++ base) target then []
                else [.outsideView link base target] } ∧
          Path.isAbsolute answer = true ∧
          (view u base).underlyingPath answer = .ok full ∧
          Path.clean ("/" ++ full) = Path.clean target ∧
          ((∃ way, Path.pieces answer = "" :: ".." :: way) ↔
            ¬Path.AtOrBelow ("/" ++ base) target) ∧
          (answer = "/" ↔ Path.clean target = Path.clean ("/" ++ base))) := by
  obtain ⟨hoffers, hjoin⟩ := offers_of_readlink hread
  constructor
  · intro hrel
    rw [readlink, requireSymlinks_eq hoffers, pure_bind, run_bind_ok hread, hrel]
    rfl
  · intro ht
    refine ⟨rerooted base target, u.translate base (rerooted base target), ?_,
      Path.isAbsolute_toString _, rfl, ?_, ?_, rerooted_eq_slash_iff ht⟩
    · simp only [run_readlink_view hread ht, escapes_iff ht, ite_not]
    · rw [translate, hjoin, Path.clean_slash, resolve_join_rerooted, Path.clean_of_absolute ht]
    · rw [exists_pieces_rerooted_iff, escapes_iff ht]

/-- From the base `a/./x`, a link to `/a/x..y` is told by a way that leads up first. -/
theorem readlink_view_sibling : ∃ w₁ told full,
    ((host []).readlink ((host []).translate "a/./x" "l")).run (linkedWorld "/a/x..y") =
        .ok "/a/x..y" w₁ ∧
      ((view (host []) "a/./x").readlink "l").run (linkedWorld "/a/x..y") =
        .ok told { w₁ with notices := w₁.notices ++ [.outsideView "l" "a/./x" "/a/x..y"] } ∧
      (view (host []) "a/./x").underlyingPath told = .ok full ∧
      Path.clean ("/" ++ full) = "/a/x..y" ∧
      (∃ way, Path.pieces told = "" :: ".." :: way) ∧ told ≠ "/" := by
  obtain ⟨w₁, hread⟩ := exists_run_of_answer
    (show answer ((host []).readlink ((host []).translate "a/./x" "l")) (linkedWorld "/a/x..y") =
      .ok "/a/x..y" by decide +kernel)
  obtain ⟨told, full, hrun, -, hfull, hback, hup, htop⟩ := (readlink_view hread).2 (by decide)
  have hout : ¬Path.AtOrBelow ("/" ++ "a/./x") "/a/x..y" := by decide +kernel
  have hclean : Path.clean "/a/x..y" = "/a/x..y" := by decide +kernel
  rw [if_neg hout] at hrun
  refine ⟨w₁, told, full, hread, hrun, hfull, hback.trans hclean, hup.2 hout, fun heq => ?_⟩
  exact absurd (htop.1 heq) (by decide +kernel)

end FileSystem

end RootedFS
