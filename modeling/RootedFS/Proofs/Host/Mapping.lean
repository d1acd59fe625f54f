import RootedFS.Proofs.Host.Plain
import RootedFS.Proofs.Host.Target

/-!
# Paths of the host under a root

The filesystem of a root puts the text of the root before every path, and the path is taken from the
top first, so that it leads nowhere but to the root and below it. The host paths are told apart as
the paths are when they are taken from the top, whatever their spellings; and what lies one name
further down on one side does so on the other.

A root that was resolved is a key of names, whatever links are on its way, and whether or not they
lead anywhere.

## Main definitions

* `Path.beneath`: a path's text with another after it
* `Host.Rooted.placed`: a path's text with another, taken from the top, after it
* `Host.Rooted.Faithful`: a mapping of paths onto the host that never leaves a directory and keeps
  what the paths mean

## Main results

* `FileSystem.isName_of_openHost`: the root of a filesystem on the host consists of names
* `Host.Rooted.faithful_toString_route`: the host paths under a root
-/

namespace RootedFS

namespace Path

variable {k l : Key}

/-! ## A text beneath another -/

/-- The text of a path with another after it: a slash stands between the two, unless the first ends
with one. -/
def beneath (s t : String) : String :=
  if s.toList.getLast? = some '/' then s ++ t else s ++ "/" ++ t

/-- Names that are glued together and put beneath a key go on from the key. -/
theorem beneath_glue (hk : ∀ a ∈ k, IsName a) (hl : l ≠ []) :
    beneath (Key.toString k) (glue l) = Key.toString (k ++ l) := by
  apply String.toList_injective
  by_cases hnil : k = []
  · rw [hnil, beneath, if_pos (by decide)]
    simp [Key.toString, glue, joinSlash]
  · have hlast : (⟨true, k⟩ : Path).toString.toList.getLast? ≠ some '/' :=
      getLast?_toString hnil fun b hb => (hk b hb).plain
    have htext : (⟨true, k⟩ : Path).toString = Key.toString k := rfl
    rw [htext] at hlast
    rw [beneath, if_neg hlast, toList_toString_append hnil hl]
    simp [Key.toString]

theorem beneath_name (hk : ∀ a ∈ k, IsName a) (a : String) :
    beneath (Key.toString k) a = Key.toString (k ++ [a]) := by
  have hglue := beneath_glue hk (l := [a]) (by simp)
  rwa [glue_singleton] at hglue

/-- Names that are put beneath a key one after the other go on from the key. -/
theorem foldl_beneath (hk : ∀ a ∈ k, IsName a) (hl : ∀ a ∈ l, IsName a) :
    l.foldl beneath (Key.toString k) = Key.toString (k ++ l) := by
  induction l generalizing k with
  | nil => rw [List.append_nil, List.foldl_nil]
  | cons a l ih =>
    rw [List.foldl_cons, beneath_name hk,
      ih (isName_concat hk (hl a List.mem_cons_self)) fun b hb => hl b (List.mem_cons_of_mem a hb),
      List.append_assoc, List.singleton_append]

/-! ## Texts without their leading slashes -/

/-- Without its leading slashes, the text of a key is that of its glued names. -/
theorem dropWhile_toString (hk : ∀ a ∈ k, IsName a) :
    (Key.toString k).toList.dropWhile (· == '/') = (glue k).toList := by
  rw [Key.toString, String.toList_ofList, List.dropWhile_cons_of_pos (by simp)]
  cases k with
  | nil => rfl
  | cons a k =>
    obtain ⟨c, front, hc, hslash⟩ := exists_toList_glue (hk a List.mem_cons_self) k
    rw [hc, List.dropWhile_cons_of_neg (by simpa using hslash)]

end Path

namespace Host.Rooted

variable {t : Tree Node} {root k : Key} {pieces : List String}

/-! ## Resolved roots -/

/-- Where pieces lead is a key of names; where they cannot be resolved, what is left of them has no
slashes. -/
def Tidy : Except (List String) Key → Prop
  | .ok k => ∀ a ∈ k, Path.IsName a
  | .error stuck => ∀ a ∈ stuck, '/' ∉ a.toList

theorem mem_of_mem_putAfter {base l : List String} {a : String} (h : a ∈ putAfter base l) :
    a ∈ base ∨ a ∈ l := by
  unfold putAfter at h
  split at h
  · exact .inr (List.mem_cons_of_mem _ h)
  · exact List.mem_append.1 h

/-- Names stay names on the way along pieces, if they do wherever links lead. -/
theorem tidy_resolvePieces {follow : Key → String → Except (List String) Key}
    (hfollow : ∀ link target, (∀ a ∈ link, Path.IsName a) → Tidy (follow link target))
    (hk : ∀ a ∈ k, Path.IsName a) (hpieces : ∀ a ∈ pieces, '/' ∉ a.toList) :
    Tidy (resolvePieces follow t k pieces) := by
  -- induction on the pieces, from any key: each is skipped, goes up, is a link, or is a name
  induction pieces generalizing k with
  | nil => exact hk
  | cons piece rest ih =>
    have hrest : ∀ a ∈ rest, '/' ∉ a.toList := fun a ha => hpieces a (List.mem_cons_of_mem _ ha)
    rw [resolvePieces]
    split
    · exact ih hk hrest
    rename_i hskip
    split
    · exact ih (Path.isName_parent hk) hrest
    rename_i hup
    rw [not_or] at hskip
    have hpiece : Path.IsName piece := ⟨hskip.1, hskip.2, hup, hpieces piece List.mem_cons_self⟩
    have hnames : ∀ a ∈ k ++ [piece], Path.IsName a := Path.isName_concat hk hpiece
    split
    · rename_i target _
      have htidy := hfollow (k ++ [piece]) target hnames
      split
      · rename_i l hl
        rw [hl] at htidy
        exact ih htidy hrest
      · rename_i stuck hstuck
        rw [hstuck] at htidy
        exact fun a ha => (mem_of_mem_putAfter ha).elim (htidy a) (hrest a)
    · exact ih hnames hrest

theorem tidy_followLink (n : Nat) (active : List Key) (link : Key) (target : String)
    (hlink : ∀ a ∈ link, Path.IsName a) : Tidy (followLink t n active link target) := by
  -- induction on the depth to which links are resolved inside one another
  induction n generalizing active link target with
  | zero => exact fun a ha => (hlink a ha).no_slash
  | succ n ih =>
    rw [followLink]
    split
    · exact fun a ha => (hlink a ha).no_slash
    · refine tidy_resolvePieces (fun link' target' => ih _ link' target') ?_
        fun a ha => Path.no_slash_of_mem_pieces ha
      split
      · simp
      · exact Path.isName_parent hlink

/-- The key that a path leads to consists of names. -/
theorem isName_resolveKey (t : Tree Node) (path : String) :
    ∀ a ∈ resolveKey t path, Path.IsName a := by
  have htidy : Tidy (resolvePieces (followLink t (t.size + 1) []) t []
      ((Path.pieces path).filter fun piece => piece ≠ "" ∧ piece ≠ ".")) :=
    tidy_resolvePieces (tidy_followLink _ _) (by simp) fun a ha =>
      Path.no_slash_of_mem_pieces (List.mem_of_mem_filter ha)
  rw [resolveKey]
  split
  · rename_i l hl
    rwa [hl] at htidy
  · rename_i stuck hstuck
    rw [hstuck] at htidy
    exact Path.isName_normalize htidy

open Memory in
/-- A root that is resolved consists of names. -/
theorem isName_of_resolveRoot {text : String} {h h' : Host}
    (hrun : (resolveRoot text).run h = .ok root h') : ∀ a ∈ root, Path.IsName a := by
  rw [resolveRoot] at hrun
  split at hrun
  · split at hrun
    · cases hrun
    obtain ⟨h₁, h₂, -, hrun⟩ := exists_of_run_bind hrun
    have hroot : root = resolveKey h₁.tree text := by
      revert hrun
      dsimp only
      split
      · intro hrun
        cases hrun
      · intro hrun
        cases hrun
        rfl
    rw [hroot]
    exact isName_resolveKey _ _
  · cases hrun

end Host.Rooted

open Memory World Host in
/-- The root of a filesystem on the host consists of names. -/
theorem FileSystem.isName_of_openHost {text : String} {fs : FileSystem} {w w' : World}
    (hrun : (openHost text).run w = .ok fs w') :
    ∃ root, fs = host root ∧ ∀ a ∈ root, Path.IsName a := by
  rw [openHost] at hrun
  obtain ⟨root, w₁, hroot, hrun⟩ := exists_of_run_bind hrun
  obtain ⟨h', hresolved, -⟩ := run_onHost_eq_ok_iff.1 hroot
  refine ⟨root, ?_, Rooted.isName_of_resolveRoot hresolved⟩
  -- whatever is made and checked, it is the resolved root that is answered
  have hlast : ∀ v, (do
      unless ← onHost (Rooted.isPresent Node.isDirectory root) do
        throw (.rootNotDirectory text)
      return host root : WorldM FileSystem).run v = .ok fs w' → fs = host root := by
    intro v hv
    obtain ⟨b, v', -, hv⟩ := exists_of_run_bind hv
    split at hv
    · cases hv
      rfl
    · cases hv
  obtain ⟨b, w₂, -, hrun⟩ := exists_of_run_bind hrun
  split at hrun
  · exact hlast _ hrun
  · obtain ⟨_, w₃, -, hrun⟩ := exists_of_run_bind hrun
    obtain ⟨_, w₄, -, hrun⟩ := exists_of_run_bind hrun
    exact hlast _ hrun

namespace Host.Rooted

variable {root : Key}

/-! ## The mapping -/

/-- The text of a directory's path with a path, taken from the top, after it. -/
def placed (top path : String) : String :=
  let rest := String.ofList ((Path.join ["/", path]).toList.dropWhile (· == '/'))
  if rest = "" then top else Path.beneath top rest

/-- A mapping of paths onto the host that never leaves a directory and keeps what the paths mean. -/
structure Faithful (top : String) (place : String → String) : Prop where
  /-- A path leads to the directory itself, or down from it by names. -/
  inside : ∀ path, ∃ names : Key, (∀ a ∈ names, Path.IsName a) ∧
    place path = names.foldl Path.beneath top
  /-- A slash in front does not matter. -/
  slash : ∀ path, place ("/" ++ path) = place path
  /-- Neither does the spelling of a path. -/
  normal : ∀ path, place (Path.clean path) = place path
  /-- Paths lead to the same place just if they are the same when they are taken from the top. -/
  separates : ∀ path path',
    place path = place path' ↔ Path.join ["/", path] = Path.join ["/", path']
  /-- One name further down is one name further down on the host. -/
  child : ∀ path a, Path.IsName a → place (Path.join [path, a]) = Path.beneath (place path) a

section

variable (hroot : ∀ a ∈ root, Path.IsName a)
include hroot

/-- The text of the way to what a path names is put together from the texts of the root and of the
path. -/
theorem toString_route_eq_placed (path : String) :
    Key.toString (route root path) = placed (Key.toString root) path := by
  have hnames := Path.isName_resolve path
  have hrest : (Path.join ["/", path]).toList.dropWhile (· == '/') =
      (Path.glue (Key.resolve path)).toList := by
    rw [Path.join_top, Path.dropWhile_toString hnames]
  simp only [placed, hrest, String.ofList_toList]
  by_cases hnil : Key.resolve path = []
  · rw [route, hnil, List.append_nil]
    rfl
  · obtain ⟨a, l, hl⟩ := List.exists_cons_of_ne_nil hnil
    have hne : Path.glue (Key.resolve path) ≠ "" := by
      rw [hl] at hnames ⊢
      obtain ⟨c, front, hc, -⟩ := Path.exists_toList_glue (hnames a List.mem_cons_self) l
      intro hempty
      rw [hempty] at hc
      cases hc
    rw [if_neg hne, Path.beneath_glue hroot hnil, route]

theorem separates_route (path path' : String) :
    Key.toString (route root path) = Key.toString (route root path') ↔
      Path.join ["/", path] = Path.join ["/", path'] := by
  rw [Path.join_top, Path.join_top]
  constructor
  · intro h
    have hway : root ++ Key.resolve path = root ++ Key.resolve path' :=
      Path.toString_injective (isName_of_mem_append_resolve hroot path)
        (isName_of_mem_append_resolve hroot path') h
    rw [List.append_cancel_left hway]
  · intro h
    have hkey := Path.toString_injective (Path.isName_resolve path) (Path.isName_resolve path') h
    rw [route, hkey, route]

/-- The texts of the ways to what paths name map these onto the host and never leave the root. They
are put together from the text of the root and those of the paths, and the host walks along their
pieces. -/
theorem faithful_toString_route :
    Faithful (Key.toString root) (fun path => Key.toString (route root path)) ∧
      ∀ path, Key.toString (route root path) = placed (Key.toString root) path ∧
        (Path.pieces (Key.toString (route root path))).filter (· ≠ "") = route root path := by
  refine ⟨⟨fun path => ?_, fun path => ?_, fun path => ?_, separates_route hroot,
    fun path a ha => ?_⟩, fun path => ⟨toString_route_eq_placed hroot path, ?_⟩⟩
  · exact ⟨Key.resolve path, Path.isName_resolve path,
      (Path.foldl_beneath hroot (Path.isName_resolve path)).symm⟩
  · rw [route, Path.resolve_slash, route]
  · rw [route, Path.resolve_clean, route]
  · have hnames : ∀ b ∈ route root path, Path.IsName b := isName_of_mem_append_resolve hroot path
    rw [route_join_name root path ha, Path.beneath_name hnames]
  · exact Path.filter_pieces_toString fun a ha =>
      (isName_of_mem_append_resolve hroot path a ha).plain

end

open World FileSystem in
/-- A root that was found behind a link, and made: a path that climbs stays below it. -/
theorem faithful_toString_route_made :
    (answer (openHost "//a/x/l/../y/.") (linkedWorld "/a/x") = .ok (host ["a", "y"]) ∧
        ∀ a ∈ ["a", "y"], Path.IsName a) ∧
      Faithful "/a/y" (fun path => Key.toString (route ["a", "y"] path)) ∧
      Key.toString (route ["a", "y"] "../..//x") = placed "/a/y" "../..//x" := by
  have hopen : answer (openHost "//a/x/l/../y/.") (linkedWorld "/a/x") = .ok (host ["a", "y"]) := by
    decide +kernel
  obtain ⟨w', hrun⟩ := exists_run_of_answer hopen
  obtain ⟨root, hfs, hroot⟩ := isName_of_openHost hrun
  cases hfs
  obtain ⟨hfaithful, htexts⟩ := faithful_toString_route hroot
  exact ⟨⟨hopen, hroot⟩, hfaithful, (htexts "../..//x").1⟩

/-- Below the top, one slash stands before the path, and none is added to it. -/
example : placed "/" "/x//y/.." = "/x" ∧ placed "/" "../" = "/" ∧ placed "/a" "../" = "/a" := by
  decide

end Host.Rooted

end RootedFS
