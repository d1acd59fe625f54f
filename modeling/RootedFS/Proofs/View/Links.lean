import RootedFS.FileSystem.Symlink
import RootedFS.Proofs.Host.Walk
import RootedFS.Proofs.Path.Grouping
import RootedFS.Proofs.Path.Route
import RootedFS.Proofs.View.Stack

/-!
# Symbolic links through views

A symbolic link that is made through views of a directory of the host is made there, with its target
told down through one view after another; a link that is read through views has its target told up
again. An absolute target that does not climb comes back as its normal form. What lies outside the
base of the innermost view comes up as a path that leads above the top, and the next view, which
takes it from the top, no longer sees that it does.

## Main definitions

* `FileSystem.handed`, `FileSystem.told`: a target on its way down through all views, and up again
* `FileSystem.OverHost`: views put upon a directory of the host
* `Host.Rooted.reported`: the target of a link as the filesystem of a root reports it
* `World.answer`: what a computation answers, without the world that it leaves

## Main results

* `FileSystem.symlink_ground`, `FileSystem.answer_readlink`: links through views are links under
  them
* `FileSystem.readlink_symlink`: a link that has been made is read as it was made
* `FileSystem.readlink_viewFrom`: a link read through a view upon a view, and through the view that
  the two amount to
-/

namespace RootedFS

open Memory World Host

/-- What a computation answers. -/
def World.answer {α : Type} (x : WorldM α) (w : World) : Except Fault α :=
  match x.run w with
  | .ok a _ => .ok a
  | .error f _ => .error f

theorem World.exists_run_of_answer {α : Type} {x : WorldM α} {w : World} {a : α}
    (h : answer x w = .ok a) : ∃ w', x.run w = .ok a w' := by
  rw [answer] at h
  cases hr : x.run w with
  | error f w' =>
    rw [hr] at h
    cases h
  | ok b w' =>
    rw [hr] at h
    cases h
    exact ⟨w', rfl⟩

namespace Path

variable {s t : String}

/-! ## Texts from the top -/

theorem isAbsolute_fromTop (s : String) : isAbsolute (FileSystem.fromTop s) = true := by
  simp [isAbsolute, FileSystem.fromTop]

theorem resolve_fromTop (s : String) : Key.resolve (FileSystem.fromTop s) = Key.resolve s := by
  have hskip := foldl_step_dropWhile true s.toList []
  rw [s.ofList_toList] at hskip
  rw [Key.resolve, Key.resolve, FileSystem.fromTop, pieces_slash, normalize, normalize, ← hskip,
    List.foldl_cons, step_skip (.inl rfl)]

theorem climbs_fromTop (s : String) : climbs (FileSystem.fromTop s) = climbs s := by
  have hskip := foldl_step_dropWhile false s.toList []
  rw [s.ofList_toList] at hskip
  rw [climbs_eq, climbs_eq, FileSystem.fromTop, pieces_slash, normalize, normalize, ← hskip,
    List.foldl_cons, step_skip (.inl rfl)]

end Path

namespace FileSystem

variable {fs u : FileSystem} {root : Key} {base path target link : String} {w w' : World}

/-! ## Down and up through views -/

/-- A target as it reaches the filesystem under all views. -/
def handed : FileSystem → String → String
  | memory _ _, target | host _, target => target
  | view u base, target =>
    u.handed (if Path.isAbsolute target then fromTop (u.translate base target) else target)

/-- A target as a view tells it: an absolute one from its base. -/
def retold (base target : String) : String :=
  if Path.isAbsolute target then rerooted base target else target

/-- A target of the filesystem under all views as the outermost tells it. -/
def told : FileSystem → String → String
  | memory _ _, target | host _, target => target
  | view u base, target => retold base (u.told target)

/-- A filesystem of the host and all views of it offer symbolic links. -/
theorem offersSymlinks_of_ground (h : fs.ground = .host root) : fs.offersSymlinks = true := by
  cases fs with
  | memory store variant => cases h
  | host root => rfl
  | view u base => rfl

/-- A filesystem that offers symbolic links is not asked in vain. -/
theorem requireSymlinks_eq (h : u.offersSymlinks = true) : requireSymlinks u = pure () := by
  unfold requireSymlinks
  rw [h]
  rfl

/-- A link that is made through views is made under them. -/
theorem symlink_ground (h : fs.ground = .host root) (target link : String) :
    fs.symlink target link = (host root).symlink (fs.handed target) (fs.reach link) := by
  induction fs generalizing target link with
  | memory store variant => cases h
  | host root' => rw [← h]; rfl
  | view u base ih =>
    have hu : u.ground = .host root := h
    conv_lhs => rw [symlink, requireSymlinks_eq (offersSymlinks_of_ground hu)]
    exact ih hu _ _

/-- What a view answers is the underlying answer, told from its base. -/
theorem answer_readlink_view (h : u.offersSymlinks = true) (base link : String) (w : World) :
    answer ((view u base).readlink link) w =
      (answer (u.readlink (u.translate base link)) w).map (retold base) := by
  rw [answer, answer, readlink, requireSymlinks_eq h, pure_bind]
  cases hr : (u.readlink (u.translate base link)).run w with
  | error f w' =>
    rw [run_bind_error hr]
    rfl
  | ok target w' =>
    rw [run_bind_ok hr]
    dsimp only [Except.map]
    rw [retold]
    cases habs : Path.isAbsolute target with
    | false => rfl
    | true =>
      cases hout : escapes base target <;> rfl

/-- What views answer is the answer under them, told by one view after another. -/
theorem answer_readlink (h : fs.ground = .host root) (link : String) (w : World) :
    answer (fs.readlink link) w =
      (answer ((host root).readlink (fs.reach link)) w).map fs.told := by
  induction fs generalizing link with
  | memory store variant => cases h
  | host root' =>
    cases h
    cases hr : answer ((host root).readlink link) w <;> simp [reach, hr, told, Except.map]
  | view u base ih =>
    have hu : u.ground = .host root := h
    rw [answer_readlink_view (offersSymlinks_of_ground hu), ih hu, reach]
    cases answer ((host root).readlink (u.reach (u.translate base link))) w <;> rfl

/-- A relative target is told as it is. -/
theorem told_of_relative (ht : Path.isAbsolute target = false) : fs.told target = target := by
  induction fs with
  | memory store variant => rfl
  | host root => rfl
  | view u base ih => rw [told, ih, retold, if_neg (by simp [ht])]

/-- What goes on from the base of a view is told as going on from the top. -/
theorem retold_toString (base : String) {k : Key} (hk : ∀ a ∈ k, Path.IsName a) :
    retold base (Key.toString (Key.resolve base ++ k)) = Key.toString k := by
  have hnames : ∀ a ∈ Key.resolve base ++ k, Path.IsName a :=
    Path.isName_append (Path.isName_resolve base) hk
  rw [retold, if_pos (Path.isAbsolute_toString _), rerooted, wayFrom,
    Path.resolve_toString hnames, Key.route_append]

/-! ## Views upon a directory of the host -/

/-- Views put upon a directory of the host, of which those that are taken from a view have bases
that do not climb. -/
inductive OverHost (root : Key) : FileSystem → Prop where
  | single (base : String) : OverHost root (.view (.host root) base)
  | upon {fs : FileSystem} {base : String} (h : OverHost root fs)
    (hc : Path.climbs base = false) : OverHost root (.view fs base)

namespace OverHost

theorem ground_eq (h : OverHost root fs) : fs.ground = .host root := by
  induction h with
  | single base => rfl
  | upon h hc ih => exact ih

theorem join_eq (h : OverHost root fs) (l : List String) : fs.join l = Path.join l := by
  induction h with
  | single base => rfl
  | upon h hc ih => exact ih

theorem translate_eq (h : OverHost root fs) (base path : String) :
    fs.translate base path = Path.join [base, path] :=
  h.join_eq _

/-- A path that does not climb goes on from the place of the view. -/
theorem resolve_reach (h : OverHost root fs) (hpath : Path.climbs path = false) :
    Key.resolve (fs.reach path) = fs.place ++ Key.resolve path := by
  induction h generalizing path with
  | single base => exact Path.resolve_join_of_not_climbs base hpath
  | @upon fs base h hc ih =>
    rw [reach, h.translate_eq, ih (Path.climbs_join_of_not_climbs hc hpath), place,
      List.append_assoc, Path.resolve_join_of_not_climbs base hpath]

/-- A relative target is handed down as it is. -/
theorem handed_of_relative (h : OverHost root fs) (ht : Path.isAbsolute target = false) :
    fs.handed target = target := by
  induction h with
  | single base => rw [handed, ht]; rfl
  | upon h hc ih => rw [handed, ht]; exact ih

/-- An absolute target that does not climb is handed down to what the same path stands for. -/
theorem resolve_handed (h : OverHost root fs) (ht : Path.isAbsolute target = true)
    (hc : Path.climbs target = false) :
    Path.isAbsolute (fs.handed target) = true ∧
      Key.resolve (fs.handed target) = fs.place ++ Key.resolve target := by
  induction h generalizing target with
  | single base =>
    have hsent : (view (host root) base).handed target = fromTop (Path.join [base, target]) := by
      rw [handed, if_pos ht]
      rfl
    rw [hsent, Path.resolve_fromTop, Path.resolve_join_of_not_climbs base hc]
    exact ⟨Path.isAbsolute_fromTop _, by simp [place]⟩
  | @upon fs base h hb ih =>
    have hsent : (view fs base).handed target = fs.handed (fromTop (Path.join [base, target])) := by
      rw [handed, if_pos ht, h.translate_eq]
    have hclimbs : Path.climbs (fromTop (Path.join [base, target])) = false := by
      rw [Path.climbs_fromTop]
      exact Path.climbs_join_of_not_climbs hb hc
    obtain ⟨habs, hkey⟩ := ih (Path.isAbsolute_fromTop _) hclimbs
    rw [Path.resolve_fromTop, Path.resolve_join_of_not_climbs base hc] at hkey
    rw [hsent, place, List.append_assoc]
    exact ⟨habs, hkey⟩

/-- The path of the filesystem under all views that goes on from the place of the outermost is told
as going on from its top. -/
theorem told_toString (h : OverHost root fs) {k : Key} (hk : ∀ a ∈ k, Path.IsName a) :
    fs.told (Key.toString (fs.place ++ k)) = Key.toString k := by
  induction h generalizing k with
  | single base => simpa [told, place] using retold_toString base hk
  | @upon fs base h hc ih =>
    have hnames : ∀ a ∈ Key.resolve base ++ k, Path.IsName a :=
      Path.isName_append (Path.isName_resolve base) hk
    rw [told, place, List.append_assoc, ih hnames, retold_toString base hk]

end OverHost

end FileSystem

/-! ## Links on the host -/

/-- An absolute target below a root is told as a path of the root; below the top of the host it is
one as it stands. -/
theorem Host.Rooted.getD_inside?_toString (root : Key) {k : Key} (hk : ∀ a ∈ k, Path.IsName a) :
    (inside? root (Key.toString (root ++ k))).getD (Key.toString (root ++ k)) =
      Key.toString k := by
  cases k with
  | nil =>
    rw [List.append_nil, inside?, if_pos rfl]
    rfl
  | cons a l =>
    obtain ⟨c, front, hglue, hslash⟩ := Path.exists_toList_glue (hk a List.mem_cons_self) l
    have htext : (Key.toString (a :: l)).toList = '/' :: c :: front := by
      rw [Key.toString, String.toList_ofList, hglue]
    by_cases hroot : root = []
    · subst hroot
      have htop : (Key.toString []).toList = ['/'] := rfl
      have hdrop : Path.dropLead? ['/', '/'] ('/' :: c :: front) = none := by
        simp [Path.dropLead?, hslash.symm]
      rw [List.nil_append, inside?, htop, htext]
      simp [hdrop]
    · have htail : (Key.toString (root ++ a :: l)).toList =
          (Key.toString root).toList ++ ['/'] ++ (c :: front) := by
        rw [Path.toList_toString_append hroot (by simp), htext]
        simp
      have hdrop := Path.dropLead?_eq_some_iff.2 htail
      have hjoin : Path.join ["/", Key.toString (a :: l)] = Key.toString (a :: l) := by
        rw [Path.join_top, Path.resolve_toString hk]
      have hback : String.ofList ('/' :: c :: front) = Key.toString (a :: l) := by
        rw [← htext, String.ofList_toList]
      rw [inside?, if_neg (by simp [htail]), hdrop, Option.map_some, hback, hjoin]
      rfl

namespace Host.Rooted

variable {root : Key} {target link : String} {h h' : Host}

/-- The target of a link as the filesystem of a root reports it: an absolute one at or below the
root as a path of the root. -/
def reported (root : Key) (target : String) : String :=
  if Path.isAbsolute target then (inside? root target).getD target else target

/-- The notices that are given when a link with some target is read. -/
def noted (root : Key) (link target : String) : List Notice :=
  if Path.isAbsolute target ∧ inside? root target = none then
    [.outsideRoot link (Key.toString root) target]
  else []

/-- A link that has been made has the text of its target, an absolute one below the root. -/
theorem readlink_of_symlink (hmake : (symlink root target link).run h = .ok () h') :
    (Host.readlink (route root link)).run h' =
      .ok (if Path.isAbsolute target then Key.toString (route root target) else target) h' := by
  unfold symlink at hmake
  cases hparents : (makeParents (route root link)).run h with
  | error f h₁ =>
    rw [run_bind_error hparents] at hmake
    cases hmake
  | ok u h₁ =>
    rw [run_bind_ok hparents] at hmake
    exact Host.readlink_of_symlink hmake

/-- A path of a root is reported as its normal form. -/
theorem reported_route (root : Key) (target : String) :
    reported root (Key.toString (route root target)) = Key.toString (Key.resolve target) := by
  rw [reported, if_pos (Path.isAbsolute_toString _), route,
    getD_inside?_toString root fun a ha => Path.isName_resolve target a ha]

end Host.Rooted

namespace FileSystem

variable {fs : FileSystem} {root : Key} {target link : String} {w w' : World}

/-- The text of a link is answered as the filesystem of the root reports it, with its notice. -/
theorem run_readlink_host_of_read
    (hread : (onHost (Rooted.readlink root link)).run w = .ok target w') :
    ((host root).readlink link).run w = .ok (Rooted.reported root target)
      { w' with notices := w'.notices ++ Rooted.noted root link target } := by
  rw [readlink, run_bind_ok hread]
  cases habs : Path.isAbsolute target with
  | false =>
    have hreport : Rooted.reported root target = target := if_neg (by simp [habs])
    have hnote : Rooted.noted root link target = [] := if_neg (by simp [habs])
    rw [hreport, hnote, List.append_nil]
    rfl
  | true =>
    have hreport : Rooted.reported root target = (Rooted.inside? root target).getD target :=
      if_pos habs
    cases hin : Rooted.inside? root target with
    | some path =>
      have hnote : Rooted.noted root link target = [] := if_neg (by simp [hin])
      rw [hreport, hnote, List.append_nil, hin]
      rfl
    | none =>
      have hnote : Rooted.noted root link target =
          [.outsideRoot link (Key.toString root) target] := if_pos ⟨habs, hin⟩
      rw [hreport, hnote, hin]
      rfl

/-- What a filesystem of the host answers is the text of the link's target, as it reports it. -/
theorem answer_readlink_host (root : Key) (link : String) (w : World) :
    answer ((host root).readlink link) w =
      (answer (onHost (Host.readlink (Rooted.route root link))) w).map (Rooted.reported root) := by
  change _ = (answer (onHost (Rooted.readlink root link)) w).map (Rooted.reported root)
  rw [answer, answer]
  cases hread : (onHost (Rooted.readlink root link)).run w with
  | error f w' =>
    rw [readlink, run_bind_error hread]
    rfl
  | ok target w' =>
    rw [run_readlink_host_of_read hread]
    rfl

/-- A symbolic link that was made through views is read through them as it was made. A relative
target is kept as it is. An absolute one that does not climb becomes, on the host, the path that
the views lead to, and comes back as its normal form. -/
theorem readlink_symlink (h : OverHost root fs)
    (hmade : (fs.symlink target link).run w = .ok () w') :
    (Path.isAbsolute target = false →
      (Host.readlink (Rooted.route root (fs.reach link))).run w'.host = .ok target w'.host ∧
        answer (fs.readlink link) w' = .ok target) ∧
      (Path.isAbsolute target = true → Path.climbs target = false →
        (Host.readlink (Rooted.route root (fs.reach link))).run w'.host =
            .ok (Key.toString (Rooted.route root (fs.reach target))) w'.host ∧
          answer (fs.readlink link) w' = .ok (Path.clean target)) := by
  rw [symlink_ground h.ground_eq] at hmade
  obtain ⟨h', hhost, rfl⟩ := run_onHost_eq_ok_iff.1 hmade
  have hraw := Rooted.readlink_of_symlink hhost
  -- what is read is reported by the filesystem of the host, and told by the views
  have hanswer : ∀ text, (Host.readlink (Rooted.route root (fs.reach link))).run h' =
      .ok text h' → answer (fs.readlink link) { w with host := h' } =
        .ok (fs.told (Rooted.reported root text)) := by
    intro text htext
    have hrun : (onHost (Host.readlink (Rooted.route root (fs.reach link)))).run
        { w with host := h' } = .ok text { w with host := h' } :=
      run_onHost_eq_ok_iff.2 ⟨h', htext, rfl⟩
    have htold : answer (onHost (Host.readlink (Rooted.route root (fs.reach link))))
        { w with host := h' } = .ok text := by rw [answer, hrun]
    rw [answer_readlink h.ground_eq, answer_readlink_host, htold]
    rfl
  constructor
  · intro hrel
    rw [h.handed_of_relative hrel, if_neg (by simp [hrel])] at hraw
    refine ⟨hraw, ?_⟩
    rw [hanswer _ hraw, Rooted.reported, if_neg (by simp [hrel]), told_of_relative hrel]
  · intro habs hc
    obtain ⟨hhanded, hkey⟩ := h.resolve_handed habs hc
    rw [if_pos hhanded] at hraw
    constructor
    · rw [hraw, Rooted.route, Rooted.route, hkey, h.resolve_reach hc]
    · rw [hanswer _ hraw, Rooted.reported_route, hkey,
        h.told_toString fun a ha => Path.isName_resolve target a ha, Path.clean_of_absolute habs]

/-- Through a view from `/b` upon one from `a`, an absolute target that is not clean. -/
theorem readlink_symlink_pile :
    let w : World := { host := { tree := .singleton (.directory 0o755) } }
    let fs : FileSystem := .view (.view (.host ["r"]) "a") "/b"
    ∃ w', OverHost ["r"] fs ∧ (fs.symlink "/x//y/." "l").run w = .ok () w' ∧
      (Host.readlink ["r", "a", "b", "l"]).run w'.host = .ok "/r/a/b/x/y" w'.host ∧
      answer (fs.readlink "l") w' = .ok "/x/y" := by
  intro w fs
  have hover : OverHost ["r"] fs := .upon (.single "a") (by decide)
  obtain ⟨w', hmade⟩ := exists_run_of_answer
    (show answer (fs.symlink "/x//y/." "l") w = .ok () by decide +kernel)
  have hread := (readlink_symlink hover hmade).2 (by decide) (by decide)
  rw [show Rooted.route ["r"] (fs.reach "l") = ["r", "a", "b", "l"] by decide +kernel,
    show Key.toString (Rooted.route ["r"] (fs.reach "/x//y/.")) = "/r/a/b/x/y" by decide +kernel,
    show Path.clean "/x//y/." = "/x/y" by decide +kernel] at hread
  exact ⟨w', hover, hmade, hread⟩

/-! ## Links through a view upon a view -/

/-- Two views tell an absolute target from the second base to what of the way from the first leads
down: how far that way leads up is lost. -/
theorem retold_retold (b₁ b₂ : String) (ht : Path.isAbsolute target = true) :
    retold b₂ (retold b₁ target) =
      Key.toString (Key.route (Key.resolve b₂)
        (Key.descent (Key.resolve b₁) (Key.resolve target))) := by
  have hfirst : retold b₁ target =
      Key.toString (Key.route (Key.resolve b₁) (Key.resolve target)) := if_pos ht
  rw [hfirst, retold, if_pos (Path.isAbsolute_toString _), rerooted, wayFrom,
    Key.resolve_toString_route fun a ha => Path.isName_resolve target a ha]

/-- A view upon a view reaches what the view that the two amount to reaches. -/
theorem reach_view_view {b₁ b₂ path : String} (hb : Path.isAbsolute b₁ = true)
    (hc : Path.climbs b₂ = false) (hpath : Path.climbs path = false) :
    (view (view (host root) b₁) b₂).reach path =
      (((host root).view b₁).viewFrom b₂).reach path := by
  have hstack : (view (view (host root) b₁) b₂).reach path =
    Path.join [b₁, Path.join [b₂, path]] := rfl
  have hflat : (((host root).view b₁).viewFrom b₂).reach path =
    Path.join [Path.join [b₁, b₂], path] := rfl
  rw [hstack, hflat, Path.join_eq_toString hb, Path.join_eq_toString (Path.isAbsolute_join hb [b₂]),
    Path.resolve_join_of_not_climbs b₁ (Path.climbs_join_of_not_climbs hc hpath),
    Path.resolve_join_of_not_climbs b₂ hpath, Path.resolve_join_of_not_climbs _ hpath,
    Path.resolve_join_of_not_climbs b₁ hc, List.append_assoc]

/-- Between a view upon a view and the view that the two amount to, a link is read alike where it
cannot be read, where its target is relative, and where its target, as the filesystem of the host
reports it, is the first base or lies below it. One outside both bases is told by the flat view as a
way that leads up first. One outside the first base is told otherwise by the view upon the view: as
the way from the second base to the names by which the target leaves what it shares with the
first. -/
theorem readlink_viewFrom {b₁ b₂ link : String} (hb : Path.isAbsolute b₁ = true)
    (hc : Path.climbs b₂ = false) (hlink : Path.climbs link = false) (w : World) :
    let stack := view (view (host root) b₁) b₂
    let flat := ((host root).view b₁).viewFrom b₂
    (∀ f, answer ((host root).readlink (flat.reach link)) w = .error f →
      answer (stack.readlink link) w = .error f ∧ answer (flat.readlink link) w = .error f) ∧
    ∀ target, answer ((host root).readlink (flat.reach link)) w = .ok target →
      (Path.isAbsolute target = false →
        answer (stack.readlink link) w = .ok target ∧
          answer (flat.readlink link) w = .ok target) ∧
      (Path.isAbsolute target = true →
        (Key.within (Key.resolve b₁) (Key.resolve target) = true →
          answer (stack.readlink link) w = answer (flat.readlink link) w) ∧
        (Key.within (Key.resolve (Path.join [b₁, b₂])) (Key.resolve target) = false →
          ∃ way, answer (flat.readlink link) w = .ok (Key.toString (".." :: way))) ∧
        (Key.within (Key.resolve b₁) (Key.resolve target) = false →
          answer (stack.readlink link) w =
              .ok (Key.toString (Key.route (Key.resolve b₂)
                (Key.descent (Key.resolve b₁) (Key.resolve target)))) ∧
            answer (stack.readlink link) w ≠ answer (flat.readlink link) w)) := by
  intro stack flat
  have hstack := answer_readlink (show stack.ground = .host root from rfl) link w
  have hflat := answer_readlink (show flat.ground = .host root from rfl) link w
  rw [reach_view_view hb hc hlink] at hstack
  constructor
  · intro f hf
    rw [hf] at hstack hflat
    exact ⟨hstack, hflat⟩
  intro target htarget
  rw [htarget] at hstack hflat
  constructor
  · intro hrel
    rw [Except.map, told_of_relative hrel] at hstack hflat
    exact ⟨hstack, hflat⟩
  intro habs
  have hnames : ∀ a ∈ Key.resolve target, Path.IsName a := Path.isName_resolve target
  have hbases := Path.resolve_join_of_not_climbs b₁ hc
  have hstack : answer (stack.readlink link) w = .ok (Key.toString (Key.route (Key.resolve b₂)
      (Key.descent (Key.resolve b₁) (Key.resolve target)))) :=
    hstack.trans (congrArg Except.ok (retold_retold b₁ b₂ habs))
  have hflat : answer (flat.readlink link) w = .ok (Key.toString
      (Key.route (Key.resolve b₁ ++ Key.resolve b₂) (Key.resolve target))) := by
    rw [← hbases]
    exact hflat.trans (congrArg Except.ok (if_pos habs))
  refine ⟨fun hin => ?_, fun hout => ?_, fun hout => ⟨hstack, fun halike => ?_⟩⟩
  · obtain ⟨rest, hrest⟩ := Key.within_iff.1 hin
    rw [hstack, hflat, hrest, Key.descent_append, Key.route_append_append]
  · rw [hbases] at hout
    obtain ⟨way, hway⟩ := Key.exists_route_eq_cons hout
    exact ⟨way, by rw [hflat, hway]⟩
  · rw [hstack, hflat, Except.ok.injEq] at halike
    have hlength := congrArg List.length (Key.toString_route_injective
      (fun a ha => hnames a (Key.mem_descent ha)) hnames halike)
    rw [Key.route_append_of_not_within hout, List.length_append, List.length_replicate,
      Key.length_route, Key.length_route] at hlength
    have hup := Key.length_common_lt hout
    have hdown := Key.length_descent_le (Key.resolve b₂)
      (Key.descent (Key.resolve b₁) (Key.resolve target))
    omega

/-- A host with the directory `/a/x`, and in it the symbolic link `l`. -/
def linkedWorld (target : String) : World where
  host.tree := ⟨[(["a", "x", "l"], .link target), (["a", "x"], .directory 0o755),
    (["a"], .directory 0o755), ([], .directory 0o755)]⟩

/-- A target outside `/a/x` but below `/a` is told alike from `/x` upon `/a`, and leads up. -/
theorem readlink_viewFrom_sibling :
    let stack : FileSystem := .view (.view (.host []) "/a") "/x"
    let flat := (FileSystem.view (.host []) "/a").viewFrom "/x"
    Path.isAbsolute "/a" = true ∧ Path.climbs "/x" = false ∧ Path.climbs "l" = false ∧
      answer (stack.readlink "l") (linkedWorld "/a/y") =
        answer (flat.readlink "l") (linkedWorld "/a/y") ∧
      ∃ way, answer (flat.readlink "l") (linkedWorld "/a/y") =
        .ok (Key.toString (".." :: way)) := by
  intro stack flat
  have hread : answer ((host []).readlink (flat.reach "l")) (linkedWorld "/a/y") = .ok "/a/y" := by
    decide +kernel
  obtain ⟨hin, hout, -⟩ := ((@readlink_viewFrom [] "/a" "/x" "l" (by decide) (by decide)
    (by decide) (linkedWorld "/a/y")).2 "/a/y" hread).2 (by decide)
  exact ⟨by decide, by decide, by decide, hin (by decide), hout (by decide +kernel)⟩

/-- A target outside `/a` that begins like the rest of the way looks like one inside `/x` upon `/a`,
while the view from `/a/x` tells that it leads up. -/
theorem readlink_viewFrom_escaping :
    let stack : FileSystem := .view (.view (.host []) "/a") "/x"
    let flat := (FileSystem.view (.host []) "/a").viewFrom "/x"
    Path.isAbsolute "/a" = true ∧ Path.climbs "/a" = false ∧ Path.isAbsolute "/x" = true ∧
      Path.climbs "/x" = false ∧ Path.climbs "l" = false ∧
      answer ((host []).readlink (flat.reach "l")) (linkedWorld "/x") = .ok "/x" ∧
      Key.within (Key.resolve (Path.join ["/a", "/x"])) (Key.resolve "/x") = false ∧
      answer (flat.readlink "l") (linkedWorld "/x") = .ok "/../../x" ∧
      answer (stack.readlink "l") (linkedWorld "/x") = .ok "/" := by
  decide +kernel

end FileSystem

end RootedFS
