import RootedFS.Proofs.Host.Entries
import RootedFS.Proofs.Host.Twins

/-!
# Calls on a root keep two hosts twins

Every call on a root walks paths that lead along directories to the root and go on inside, as links
inside do. It therefore does the same on twins, changes them inside alone, and leaves twins.

## Main definitions

* `Host.Routed`: paths on the way to a root, or headed inside

## Main results

* `Rooted.together_openFile`, `Rooted.together_openTemp`, `Rooted.respects_rename`,
  `Rooted.respects_remove`, `Rooted.respects_makeDirectories`, `Rooted.respects_stat`,
  `Rooted.respects_list`, `Rooted.respects_symlink`, `Rooted.respects_readlink`: calls on a root
-/

namespace RootedFS.Host

open Memory (run_bind_ok run_bind_error run_tryCatch)

variable {root : Key} {b : Nat} {o o' h h' : Host} {path target l : List String} {perm : Int}
  {flags : OpenFlags} {t t' : Tree Node}

/-! ## Paths -/

/-- A path that ends at a directory on the way to a root, or is headed inside. -/
def Routed (root : Key) (path : List String) : Prop :=
  (path <+: root ∧ path ≠ root) ∨ Headed root [] path

theorem routed_of_names (hl : ∀ a ∈ l, Path.IsName a) (h : l <+: root ∨ root <+: l) :
    Routed root l := by
  by_cases heq : l = root
  · exact .inr (headed_of_names hl (heq ▸ List.prefix_rfl))
  · rcases h with h | h
    · exact .inl ⟨h, heq⟩
    · exact .inr (headed_of_names hl h)

namespace SameInside

variable (hs : SameInside root t t')
include hs

theorem leadsTo_eq {p : Node → Bool} (hroute : Routed root path)
    (hp : ∀ perm perm', p (.directory perm) = p (.directory perm')) :
    leadsTo t' p path = leadsTo t p path := by
  rcases hroute with ⟨hk, hne⟩ | hl
  · rw [leadsTo, leadsTo, lookup, lookup]
    rcases hs.walk_way (m := .through) hk hne with ⟨why, hw, hw'⟩ | ⟨perm, perm', hw, hw'⟩
    · rw [hw, hw']
    · rw [hw, hw']
      exact hp perm' perm
  · rw [leadsTo, leadsTo, hs.lookup_eq hl]

theorem opening_eq (hl : Headed root [] path) : opening t' path flags = opening t path flags := by
  simp only [opening, marking, makingNameless, accessing, hs.lookup_eq hl, hs.walk_eq hl]

end SameInside

/-- What an opening call finds inside is a file there, or a place there for one. -/
def Opening.Stays (root : Key) (t : Tree Node) : Opening → Prop
  | .file n => ∃ k, t.get? k = some (.file n) ∧ Key.within root k = true
  | .make k => Key.within root k = true ∧ Straight k
  | .directory | .makeNameless | .mark => True

theorem marking_stays {op : Opening} (hop : marking t path flags = .ok op) : op.Stays root t := by
  simp only [marking, bind, Except.bind, throw, throwThe, MonadExceptOf.throw, pure,
    Except.pure] at hop
  split at hop
  · cases hop
  split at hop
  · cases hop
    trivial
  · split at hop
    · cases hop
    · cases hop
      trivial

theorem makingNameless_stays {op : Opening} (hop : makingNameless t path flags = .ok op) :
    op.Stays root t := by
  simp only [makingNameless, bind, Except.bind, throw, throwThe, MonadExceptOf.throw, pure,
    Except.pure] at hop
  split at hop
  · cases hop
  split at hop
  · cases hop
  split at hop
  · cases hop
    trivial
  · cases hop

theorem SameInside.accessing_stays (hs : SameInside root t t') (hl : Headed root [] path)
    {op : Opening} (hop : accessing t path flags = .ok op) : op.Stays root t := by
  simp only [accessing, bind, Except.bind, throw, throwThe, MonadExceptOf.throw, pure,
    Except.pure] at hop
  split at hop
  · cases hop
  rename_i found hwalk
  have hplace := hs.within_place hl hwalk
  split at hop
  · split at hop
    · cases hop
    split at hop
    · cases hop
    · cases hop
      trivial
  · split at hop
    · cases hop
    split at hop
    · cases hop
    · cases hop
  · split at hop
    · cases hop
    split at hop
    · cases hop
    · cases hop
      exact ⟨_, get?_of_entry hwalk, hplace.1⟩
  · split at hop
    · cases hop
      exact hplace
    · cases hop

theorem SameInside.opening_stays (hs : SameInside root t t') (hl : Headed root [] path)
    {op : Opening} (hop : opening t path flags = .ok op) : op.Stays root t := by
  rw [opening] at hop
  split at hop
  · exact marking_stays hop
  split at hop
  · cases hop
  split at hop
  · exact makingNameless_stays hop
  · exact hs.accessing_stays hl hop

/-! ## Steps of calls -/

/-- A step that concerns a path fails alike, or gives both hosts the same. -/
theorem together_onRoute {α β : Type} {Q : β → Host → Host → Prop} {r : Except Refusal α}
    {g g' : α → HostM β} (ht : Twins root b o o' h h')
    (hg : ∀ a, r = .ok a → Together (Twins root b o o') Q ((g a).run h) ((g' a).run h')) :
    Together (Twins root b o o') Q ((onRoute path r >>= g).run h)
      ((onRoute path r >>= g').run h') := by
  cases r with
  | ok a => exact hg a rfl
  | error why => exact .error ht

theorem respects_makeDirectory (hroute : Routed root path) (perm : Int) :
    Respects (Twins root b o o') (makeDirectory path perm) := by
  refine (respects_requirePath path).bind fun _ => (respects_requireInt perm).bind fun _ =>
    Respects.get fun h h' ht => ?_
  rcases hroute with ⟨hk, hne⟩ | hl
  · rcases ht.same.walk_way (m := .upTo) hk hne with ⟨why, hw, hw'⟩ | ⟨perm, perm', hw, hw'⟩
    · rw [hw, hw']
      exact .error ht
    · rw [hw, hw']
      exact .error ht
  · rw [ht.same.walk_eq hl]
    refine together_onRoute ht fun found hwalk => ?_
    cases found with
    | entry k node => exact .error ht
    | absent k name asDirectory =>
      obtain ⟨hin, hstraight⟩ := ht.same.within_place hl hwalk
      exact .ok (ht.insert hin hstraight (by simp) (by simp))

theorem respects_removeDirectory (hl : Headed root [] path) :
    Respects (Twins root b o o') (removeDirectory path) := by
  refine Respects.get fun h h' ht => ?_
  dsimp only
  rw [ht.same.lookup_eq hl]
  refine together_onRoute ht fun p hlookup => ?_
  obtain ⟨k, node⟩ := p
  obtain ⟨hin, -⟩ := ht.same.within_of_lookup hl hlookup
  dsimp only
  rw [removalRefusal?, removalRefusal?, ht.same.children_eq hin]
  split
  · exact .error ht
  · exact .ok (ht.erase hin)

/-! ## Opening -/

/-- Hosts are twins, and an opened file, if there is one, is shared. -/
def TwinsOn (root : Key) (b : Nat) (o o' : Host) (file : Option Nat) (h h' : Host) : Prop :=
  Twins root b o o' h h' ∧ ∀ n, file = some n → Shared root o o' h h' n

theorem TwinsOn.none (ht : Twins root b o o' h h') : TwinsOn root b o o' .none h h' :=
  ⟨ht, by simp⟩

theorem TwinsOn.some {n : Nat} (ht : Twins root b o o' h h') (hn : Shared root o o' h h' n) :
    TwinsOn root b o o' (some n) h h' :=
  ⟨ht, fun _ heq => Option.some.inj heq ▸ hn⟩

theorem together_changeFile {n : Nat} (ht : Twins root b o o' h h') (hn : Shared root o o' h h' n)
    (content : Bytes) : Together (Twins root b o o') (fun _ => TwinsOn root b o o' (.some n))
      ((changeFile n content).run h) ((changeFile n content).run h') := by
  have hset := ht.setFile hn ((Regular.GoesOn.refl (h.file n)).change content)
  -- the second file is the first, so that both change to the same
  have hrun' : (changeFile n content).run h' =
      .ok () { h' with files := h'.files.set n ((h.file n).change content) } := by
    rw [hn.file]
    rfl
  rw [hrun']
  exact .ok (.some hset.1 hset.2)

theorem together_newFile (ht : Twins root b o o' h h') (perm : Int) :
    Together (Twins root b o o') (fun n => TwinsOn root b o o' (.some n))
      ((newFile perm).run h) ((newFile perm).run h') := by
  have hnew := ht.newFile (.owned [] (withheld 0o7777 perm))
  have hrun' : (newFile perm).run h' = .ok h.files.length
      { h' with files := h'.files ++ [.owned [] (withheld 0o7777 perm)] } := by
    rw [ht.length]
    rfl
  rw [hrun']
  exact .ok (.some hnew.1 hnew.2)

/-- Opening leads to a file inside. -/
theorem together_openEntry (hl : Headed root [] path) (ht : Twins root b o o' h h') :
    Together (Twins root b o o') (TwinsOn root b o o')
      ((openEntry path flags perm).run h) ((openEntry path flags perm).run h') := by
  refine (respects_requirePath path h h' ht).bind fun _ h h' ht =>
    (respects_requireInt flags.bits h h' ht).bind fun _ h h' ht =>
      (respects_requireInt perm h h' ht).bind fun _ h h' ht => Together.get ?_
  rw [ht.same.opening_eq hl]
  refine together_onRoute ht fun op hop => ?_
  have hstays := ht.same.opening_stays hl hop
  cases op with
  | directory => exact .error ht
  | mark => exact .ok (.none ht)
  | makeNameless =>
    exact (together_newFile ht perm).bind fun n h h' ht => .ok ht
  | file n =>
    obtain ⟨k, hget, hin⟩ := hstays
    have hn := ht.placed k n (mem_inside.2 ⟨Tree.mem_entries_of_get? hget, hin⟩)
    dsimp only
    rw [ht.grants_eq hn]
    split
    · split
      · exact (together_changeFile ht hn []).bind fun _ h h' ht => .ok ht
      · exact .ok (.some ht hn)
    · exact .error ht
  | make k =>
    refine (together_newFile ht perm).bind fun n h h' ht => ?_
    have hn := ht.2 n rfl
    refine .ok (.some (ht.1.insert hstays.1 hstays.2 ?_ ?_) (hn.of_files rfl rfl))
    · simp
    · exact fun _ heq => Node.file.inj heq ▸ hn

theorem together_openStream {file : Option Nat} (ht : TwinsOn root b o o' file h h') :
    Together (Twins root b o o') (fun id h h' => Twins root b o o' h h' ∧ b ≤ id)
      ((openStream flags file).run h) ((openStream flags file).run h') := by
  have hsize : (file.map fun n => (h'.file n).content.length) =
      file.map fun n => (h.file n).content.length := by
    cases file with
    | none => rfl
    | some n => rw [Option.map_some, Option.map_some, (ht.2 n rfl).file]
  refine Together.get ?_
  rw [hsize]
  dsimp only
  split
  · exact .error ht.1
  · rw [EStateM.run_modifyGet, EStateM.run_modifyGet, ← ht.1.streams_length]
    exact .ok ⟨ht.1.addStream fun n hn => ht.2 n hn, ht.1.base⟩

/-! ## Moving and removing -/

/-- What is moved is what one walk ends at, to where the other ends. -/
theorem walks_of_renamePlan {src dst : Key} (h : renamePlan t path target = .ok (src, dst)) :
    (∃ node, walk .upTo t path = .ok (.entry src node)) ∧
      ∃ found, walk .upTo t target = .ok found ∧ found.place = dst := by
  have hnull : hasNull (Key.toString path) = false ∧ hasNull (Key.toString target) = false := by
    rw [← Bool.or_eq_false_iff]
    by_contra hnull
    rw [renamePlan, if_pos (Bool.not_eq_false _ ▸ hnull)] at h
    cases h
  have hor : ¬(hasNull (Key.toString path) || hasNull (Key.toString target)) = true := by
    simp [hnull]
  cases hpath : requireParent t path with
  | error why =>
    rw [renamePlan, if_neg hor, hpath] at h
    cases h
  | ok _ =>
    cases htarget : requireParent t target with
    | error why =>
      rw [renamePlan, if_neg hor, hpath, htarget] at h
      cases h
    | ok _ =>
      cases hsrc : walk .upTo t path with
      | error why =>
        rw [renamePlan, if_neg hor, hpath, htarget, hsrc] at h
        cases h
      | ok found =>
        cases found with
        | absent k name asDirectory =>
          rw [renamePlan, if_neg hor, hpath, htarget, hsrc] at h
          cases h
        | entry k node =>
          cases hdst : walk .upTo t target with
          | error why =>
            rw [renamePlan, if_neg hor, hpath, htarget, hsrc, hdst] at h
            cases h
          | ok found' =>
            rw [renamePlan_of_entry hnull.1 hnull.2 hpath htarget hsrc hdst rfl] at h
            -- every plan that goes ahead is for the two places
            have hplan : k = src ∧ found'.place = dst := by grind
            exact ⟨⟨node, hplan.1 ▸ rfl⟩, found', rfl, hplan.2⟩

namespace SameInside

variable (hs : SameInside root t t')
include hs

theorem requireParent_eq (hroute : Routed root path.dropLast) :
    requireParent t' path = requireParent t path := by
  rw [requireParent, requireParent]
  cases pathRefusal? (Key.toString path) with
  | some why => rfl
  | none =>
    rcases hroute with ⟨hk, hne⟩ | hl
    · rw [lookup, lookup]
      rcases hs.walk_way (m := .through) hk hne with ⟨why, hw, hw'⟩ | ⟨perm, perm', hw, hw'⟩
      · rw [hw, hw']
      · rw [hw, hw']
        rfl
    · rw [hs.lookup_eq hl]

/-- What a renaming call plans inside is the same on both trees. -/
theorem renamePlan_eq (hpath : Headed root [] path) (htarget : Headed root [] target)
    (hparent : Routed root path.dropLast) (hparent' : Routed root target.dropLast) :
    renamePlan t' path target = renamePlan t path target := by
  have hwalk' := hs.walk_eq (m := .upTo) hpath
  have hwalk := hs.walk_eq (m := .upTo) htarget
  by_cases hnull : (hasNull (Key.toString path) || hasNull (Key.toString target)) = true
  · rw [renamePlan, renamePlan, if_pos hnull, if_pos hnull]
    exact Eq.trans (b := .error .embeddedNull) rfl rfl
  rw [renamePlan, renamePlan, if_neg hnull, if_neg hnull, hs.requireParent_eq hparent,
    hs.requireParent_eq hparent', hwalk', hwalk]
  cases requireParent t path with
  | error why => exact Eq.trans (b := .error why) rfl rfl
  | ok u =>
    cases requireParent t target with
    | error why => exact Eq.trans (b := .error why) rfl rfl
    | ok u =>
      cases walk .upTo t path with
      | error why => exact Eq.trans (b := .error why) rfl rfl
      | ok found =>
        cases hdst : walk .upTo t target with
        | error why =>
          cases found with
          | absent => exact Eq.trans (b := .error .missing) rfl rfl
          | entry => exact Eq.trans (b := .error why) rfl rfl
        | ok found' =>
          have hin := (hs.within_place htarget hdst).1
          have hget := hs.get?_eq (within_eq_true_iff.1 hin)
          have hchildren := hs.children_eq hin
          cases found with
          | absent => exact Eq.trans (b := .error .missing) rfl rfl
          | entry src node =>
            cases found' with
            | entry dst _ =>
              rw [Found.place] at hget hchildren
              simp only [bind, Except.bind, Functor.map, Except.map, hget, hchildren]
            | absent k name _ =>
              rw [Found.place] at hget hchildren
              simp only [bind, Except.bind, Functor.map, Except.map, hget, hchildren]

end SameInside

theorem respects_rename (hpath : Headed root [] path) (htarget : Headed root [] target)
    (hparent : Routed root path.dropLast) (hparent' : Routed root target.dropLast) :
    Respects (Twins root b o o') (rename path target) := by
  intro h h' ht
  rw [run_rename, run_rename, ht.same.renamePlan_eq hpath htarget hparent hparent']
  cases hplan : renamePlan h.tree path target with
  | error why => exact .error ht
  | ok plan =>
    obtain ⟨src, dst⟩ := plan
    obtain ⟨⟨node, hsrc⟩, found, hdst, rfl⟩ := walks_of_renamePlan hplan
    have hplace := ht.same.within_place hpath hsrc
    have hplace' := ht.same.within_place htarget hdst
    dsimp only
    split
    · exact .ok ht
    · exact .ok (ht.move hplace.1 hplace'.1 hplace'.2)

theorem respects_unlink (hl : Headed root [] path) :
    Respects (Twins root b o o') (unlink path) := by
  refine Respects.get fun h h' ht => ?_
  rw [ht.same.lookup_eq hl]
  refine together_onRoute ht fun p hlookup => ?_
  obtain ⟨k, node⟩ := p
  obtain ⟨hin, -⟩ := ht.same.within_of_lookup hl hlookup
  dsimp only
  split
  · exact .error ht
  · exact .ok (ht.erase hin)

/-! ## Looking -/

theorem respects_stat (hl : Headed root [] path) : Respects (Twins root b o o') (stat path) := by
  refine Respects.get fun h h' ht => ?_
  rw [ht.same.lookup_eq hl]
  refine together_onRoute ht fun p hlookup => ?_
  rw [ht.status_eq (ht.same.within_of_lookup hl hlookup).1 (get?_of_lookup hlookup)]
  exact .ok ht

theorem respects_lstat (hl : Headed root [] path) : Respects (Twins root b o o') (lstat path) := by
  refine Respects.get fun h h' ht => ?_
  rw [ht.same.lookup_eq hl]
  refine together_onRoute ht fun p hlookup => ?_
  rw [ht.status_eq (ht.same.within_of_lookup hl hlookup).1 (get?_of_lookup hlookup)]
  exact .ok ht

/-- The names in a directory inside are the same on twins, and lead on inside. -/
theorem together_scan (hl : Headed root [] path) (ht : Twins root b o o' h h') :
    Together (Twins root b o o')
      (fun names h h' => Twins root b o o' h h' ∧ ∀ a ∈ names, Headed root [] (path ++ [a]))
      ((scan path).run h) ((scan path).run h') := by
  refine Together.get ?_
  rw [ht.same.lookup_eq hl]
  refine together_onRoute ht fun p hlookup => ?_
  obtain ⟨k, node⟩ := p
  obtain ⟨hin, -⟩ := ht.same.within_of_lookup hl hlookup
  cases node with
  | directory perm =>
    dsimp only
    rw [ht.same.children_eq hin]
    refine .ok ⟨ht, fun a ha => hl.append_singleton (ht.straight_child hin ha)⟩
  | file n => exact .error ht
  | link target => exact .error ht

theorem respects_readlink (hl : Headed root [] path) :
    Respects (Twins root b o o') (readlink path) := by
  refine Respects.get fun h h' ht => ?_
  rw [ht.same.lookup_eq hl]
  refine together_onRoute ht fun p hlookup => ?_
  obtain ⟨k, node⟩ := p
  cases node with
  | directory perm => exact .error ht
  | file n => exact .error ht
  | link target => exact .ok ht

/-- A link that leads inside is made. -/
theorem respects_symlink {text : String} (htext : Inward root text) (hl : Headed root [] path) :
    Respects (Twins root b o o') (symlink text path) := by
  rw [symlink_eq]
  refine Respects.get fun h h' ht => ?_
  have hplace : linkPlace h'.tree text path = linkPlace h.tree text path := by
    rw [linkPlace, linkPlace, ht.same.walk_eq hl]
  rw [hplace]
  cases hk : linkPlace h.tree text path with
  | error why => exact .error ht
  | ok k =>
    obtain ⟨k', name, hwalk, rfl⟩ := walk_of_linkPlace hk
    obtain ⟨hin, hstraight⟩ := ht.same.within_place hl hwalk
    exact .ok (ht.insert hin hstraight (fun _ heq => Node.link.inj heq ▸ htext) (by simp))

namespace Rooted

theorem respects_ensureDirectory (hroute : Routed root path) (perm : Int) :
    Respects (Twins root b o o') (ensureDirectory path perm) := by
  refine (respects_makeDirectory hroute perm).tryCatch fun f => Respects.get fun h h' ht => ?_
  -- a failure is forgiven where the path leads to a directory, on both hosts
  rw [ht.same.leadsTo_eq hroute fun _ _ => rfl]
  split
  · exact .ok ht
  · exact .error ht

theorem respects_makeBackwards {back : List String} (hnames : ∀ a ∈ back, Path.IsName a)
    (h : back.reverse <+: root ∨ root <+: back.reverse) (perm : Int) :
    Respects (Twins root b o o') (makeBackwards back perm) := by
  induction back generalizing perm with
  | nil => exact respects_ensureDirectory (routed_of_names (by simp) (.inl List.nil_prefix)) perm
  | cons a back ih =>
    rw [List.reverse_cons] at h
    have hback : ∀ c ∈ back, Path.IsName c := fun c hc => hnames c (List.mem_cons_of_mem a hc)
    have hreverse : ∀ c ∈ back.reverse, Path.IsName c := by simpa using hback
    have hparent : back.reverse <+: root ∨ root <+: back.reverse := by
      rcases h with h | h
      · exact .inl ((List.prefix_append _ [a]).trans h)
      · rcases List.prefix_concat_iff.1 h with heq | h
        · exact .inl (heq ▸ List.prefix_append _ [a])
        · exact .inr h
    have hlast : Routed root (a :: back).reverse := by
      rw [List.reverse_cons]
      refine routed_of_names ?_ h
      simpa [or_imp, forall_and] using ⟨hback, hnames a List.mem_cons_self⟩
    have hensure : Respects (Twins root b o o') (ensureDirectory (a :: back).reverse perm) :=
      respects_ensureDirectory hlast perm
    refine Respects.get fun h h' ht => ?_
    rw [ht.same.leadsTo_eq (routed_of_names hreverse hparent) fun _ _ => rfl]
    split
    · exact hensure h h' ht
    · refine Together.bind (((ih hback hparent defaultPerm).tryCatch fun f => ?_) h h' ht)
        fun _ => hensure
      split
      · exact .pure ()
      · exact .throw f

/-! ## Calls on a root -/

section

theorem prefix_or_of_prefix_route {s : String} (hl : l <+: route root s) :
    l <+: root ∨ root <+: l :=
  List.prefix_or_prefix_of_prefix hl (List.prefix_append root _)

/-- A stream is opened on a file inside. -/
theorem together_open (hl : Headed root [] path) (perm : Int) (ht : Twins root b o o' h h') :
    Together (Twins root b o o') (fun id h h' => Twins root b o o' h h' ∧ b ≤ id)
      ((do openStream flags (← openEntry path flags perm)).run h)
      ((do openStream flags (← openEntry path flags perm)).run h') :=
  (together_openEntry hl ht).bind fun _ _ _ ht => together_openStream ht

variable (hroot : ∀ a ∈ root, Path.IsName a)
include hroot

theorem isName_route (s : String) : ∀ a ∈ route root s, Path.IsName a := by
  intro a ha
  rcases List.mem_append.1 ha with ha | ha
  · exact hroot a ha
  · exact Path.isName_resolve s a ha

theorem headed_route (s : String) : Headed root [] (route root s) :=
  headed_of_names (isName_route hroot s) (List.prefix_append _ _)

theorem routed_dropLast (s : String) : Routed root (route root s).dropLast :=
  routed_of_names (fun a ha => isName_route hroot s a ((List.dropLast_prefix _).subset ha))
    (prefix_or_of_prefix_route (List.dropLast_prefix _))

/-- Directories are made along the way to the root, and inside. -/
theorem respects_makeDirectoriesAt {s : String} (hl : l <+: route root s) (perm : Int) :
    Respects (Twins root b o o') (makeDirectoriesAt l perm) := by
  refine respects_makeBackwards (fun a ha => ?_) ?_ perm
  · exact isName_route hroot s a (hl.subset (List.mem_reverse.1 ha))
  · rw [List.reverse_reverse]
    exact prefix_or_of_prefix_route hl

theorem respects_makeParents (s : String) :
    Respects (Twins root b o o') (makeParents (route root s)) :=
  respects_makeDirectoriesAt hroot (List.dropLast_prefix _) _

theorem respects_makeDirectories (s : String) (perm : Int) :
    Respects (Twins root b o o') (makeDirectories root s perm) :=
  respects_makeDirectoriesAt hroot List.prefix_rfl _

theorem together_openFile (s : String) (flags : OpenFlags) (perm : Int)
    (ht : Twins root b o o' h h') :
    Together (Twins root b o o') (fun id h h' => Twins root b o o' h h' ∧ b ≤ id)
      ((openFile root s flags perm).run h) ((openFile root s flags perm).run h') := by
  have hl := headed_route hroot s
  rw [openFile]
  split
  · exact (respects_makeParents hroot s h h' ht).bind fun _ _ _ => together_open hl perm
  · exact together_open hl perm ht

/-- A temporary file is one of the directory's entries, as the lead has no slash. -/
theorem together_openTemp (directory : String) {lead : String} (hlead : '/' ∉ lead.toList)
    (number : Int) (ht : Twins root b o o' h h') :
    Together (Twins root b o o') (fun f h h' => Twins root b o o' h h' ∧ b ≤ f.1)
      ((openTemp root directory lead number).run h)
      ((openTemp root directory lead number).run h') := by
  have hname := Path.isName_append_number hlead number
  have hl : Headed root [] (tempRoute (route root directory) lead number) := by
    rw [tempRoute_eq hlead]
    exact (headed_route hroot directory).append_singleton (straight_of_names (by simpa using hname))
  rw [openTemp]
  refine (together_openEntry hl ht).bind fun _ _ _ ht => ?_
  exact (together_openStream ht).bind fun _ _ _ ht => .ok ht

theorem respects_rename (s s' : String) : Respects (Twins root b o o') (rename root s s') :=
  (respects_makeParents hroot s').bind fun _ =>
    Host.respects_rename (headed_route hroot s) (headed_route hroot s') (routed_dropLast hroot s)
      (routed_dropLast hroot s')

theorem respects_remove (s : String) : Respects (Twins root b o o') (remove root s) := by
  refine (respects_lstat (headed_route hroot s)).bind fun status => ?_
  split
  · exact respects_removeDirectory (headed_route hroot s)
  · exact respects_unlink (headed_route hroot s)

theorem respects_stat (s : String) : Respects (Twins root b o o') (stat root s) :=
  (Host.respects_stat (headed_route hroot s)).bind fun _ => respects_ofExcept _

theorem respects_list (s : String) : Respects (Twins root b o o') (list root s) := by
  intro h h' ht
  refine (together_scan (headed_route hroot s) ht).bind fun names h h' ht => ?_
  refine Respects.mapM (fun name hname => ?_) h h' ht.1
  refine Respects.bind ?_ fun _ => respects_ofExcept _
  refine (Host.respects_stat (ht.2 name hname)).tryCatch fun f => ?_
  split
  · exact respects_lstat (ht.2 name hname)
  · exact .throw f

/-- A link that is made with an absolute target leads inside. -/
theorem respects_symlink {target : String} (htarget : Path.isAbsolute target = true)
    (link : String) : Respects (Twins root b o o') (symlink root target link) := by
  refine (respects_makeParents hroot link).bind fun _ => ?_
  rw [if_pos htarget]
  refine Host.respects_symlink ?_ (headed_route hroot link)
  exact Inward.of_names (isName_route hroot target) (List.prefix_append _ _)

theorem respects_readlink (link : String) : Respects (Twins root b o o') (readlink root link) :=
  Host.respects_readlink (headed_route hroot link)

end

end Rooted

end RootedFS.Host
