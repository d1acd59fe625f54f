import RootedFS.Proofs.Host.Contents
import RootedFS.Proofs.Host.Inside
import RootedFS.Proofs.Memory.Contents

/-!
# The two backends agree

A filesystem in memory and a directory of the host that hold the same do the same, on a host that
obliges: a request is served by both or by neither, with one answer, and afterwards they hold the
same again. Both do what their contents say, and contents leave no choice.

A host that does not oblige parts them. It refuses a path with a null character, which memory takes
for any other name, and a time that no calendar has; and where one of its files has two names, a
write by one name is seen by the other.

## Main definitions

* `SameContents`: a store and a directory of the host hold the same
* `Host.Obliging`: a directory of a host that hinders nothing and whose files have one name each

## Main results

* `SameContents.of_empty`: a new store holds the same as an empty directory
* `SameContents.serve_both`: both backends serve a request alike
* `SameContents.parted`: what parts them on a host that does not oblige
-/

namespace RootedFS

/-- A directory of a host that hinders nothing, at and below which every file has one name. -/
structure Host.Obliging (root : Key) (h : Host) : Prop where
  unhindered : h.Unhindered
  single : ∀ j k n, h.tree.get? (root ++ j) = some (.file n) →
    h.tree.get? (root ++ k) = some (.file n) → j = k

/-- A store in one world and a directory of the host in another hold the same: the directory is
there, and at and below it are the directories of the store and its files with their contents, and
nothing else, devices included. -/
structure SameContents (m : Nat) (root : Key) (w v : World) : Prop where
  memory : Memory.Holds m w (v.host.items root)
  sound : v.host.Sound
  keeps : ∀ k n, v.host.tree.get? (root ++ k) = some (.file n) → (v.host.file n).sink = false
  way : Host.Way v.host.tree root

namespace SameContents

open Host Memory

variable {m : Nat} {root : Key} {w v : World} {c : Contents}

theorem of_holds (hm : Memory.Holds m w c) (ho : Rooted.Holds root v.host c) :
    SameContents m root w v where
  memory := ho.items.symm ▸ hm
  sound := ho.sound
  keeps := ho.keeps
  way := ho.way

theorem holds (h : SameContents m root w v) (ho : v.host.Obliging root) :
    Rooted.Holds root v.host (v.host.items root) where
  sound := h.sound
  unhindered := ho.unhindered
  keeps := h.keeps
  single := ho.single
  way := h.way
  items := rfl

/-- What is the same as in memory is without links, and stands in directories. -/
theorem items_sound (h : SameContents m root w v) : (v.host.items root).Sound := by
  obtain ⟨s, -, hs, hitems⟩ := h.memory
  exact hitems ▸ hs.sound.items

/-- A new store holds the same as an empty directory. -/
theorem of_empty {now : Nat} (hm : w.stores[m]? = some (.empty now)) (hs : v.host.Sound)
    (hway : Way v.host.tree root)
    (hempty : ∀ rest, rest ≠ [] → v.host.tree.get? (root ++ rest) = none) :
    SameContents m root w v where
  memory := by
    refine ⟨_, hm, .new now, funext fun k => ?_⟩
    by_cases hk : k = []
    · obtain ⟨perm, hget⟩ := hway root List.prefix_rfl
      rw [hk, Host.items, List.append_nil, hget]
      rfl
    · rw [Host.items, hempty k hk]
      have hstamp : (Store.empty now).stamps.get? k = none := by simp [Store.empty, hk]
      exact Store.items_eq_none_iff.2 (Store.get?_tree_of_no_stamp hstamp)
  sound := hs
  keeps := by
    intro k n hk
    by_cases hnil : k = []
    · obtain ⟨perm, hget⟩ := hway root List.prefix_rfl
      rw [hnil, List.append_nil, hget] at hk
      cases hk
    · rw [hempty k hnil] at hk
      cases hk
  way := hway

/-- The filesystem in memory and the directory of an obliging host serve a request alike: both
answer it with one answer, hold the same again and oblige again, or neither serves it. -/
theorem serve_both (h : SameContents m root w v) (ho : v.host.Obliging root) (r : Request)
    (hproper : r.Proper) (hfits : r.Fits root (v.host.items root)) :
    (∃ a w' v', ((FileSystem.memory m .plain).serve r).run w = .ok a w' ∧
      ((FileSystem.host root).serve r).run v = .ok a v' ∧ SameContents m root w' v' ∧
      v'.host.Obliging root) ∨
    ∃ f g w' v', ((FileSystem.memory m .plain).serve r).run w = .error f w' ∧
      ((FileSystem.host root).serve r).run v = .error g v' := by
  have hmemory := h.memory.outcome hproper
  have hhost := (h.holds ho).outcome h.items_sound hproper hfits
  generalize ((FileSystem.memory m .plain).serve r).run w = rm at hmemory
  generalize ((FileSystem.host root).serve r).run v = rh at hhost
  cases hmemory with
  | served hadmits hreply hafter =>
    cases hhost with
    | served hadmits' hreply' hafter' =>
      rw [hreply.unique hreply']
      exact .inl ⟨_, _, _, rfl, rfl, of_holds hafter hafter', hafter'.unhindered, hafter'.single⟩
    | refused hrefuses => exact absurd hadmits hrefuses
  | refused hrefuses =>
    cases hhost with
    | served hadmits => exact absurd hadmits hrefuses
    | refused => exact .inr ⟨_, _, _, _, rfl, rfl⟩

/-- A world with a new store and an empty directory `/srv`, on a host that tells every entry the
same time. -/
def freshWorld (time : Int) : World where
  stores := [.empty 0]
  host.tree := ⟨[([], .directory 0o755), (["srv"], .directory 0o755)]⟩
  host.dates := fun _ _ => time

theorem get?_freshWorld (time : Int) (k : Key) : (freshWorld time).host.tree.get? k =
    if k = [] then some (.directory 0o755)
    else if k = ["srv"] then some (.directory 0o755) else none := by
  rw [freshWorld, Tree.get?, Tree.lookup_cons_eq_ite, Tree.lookup_cons_eq_ite, List.lookup_nil]

theorem directory_of_get?_freshWorld {time : Int} {k : Key} {node : Node}
    (h : (freshWorld time).host.tree.get? k = some node) : node = .directory 0o755 := by
  rw [get?_freshWorld] at h
  split at h
  · exact (Option.some.inj h).symm
  · split at h
    · exact (Option.some.inj h).symm
    · cases h

theorem freshWorld_same (time : Int) :
    SameContents 0 ["srv"] (freshWorld time) (freshWorld time) := by
  have hstore : (freshWorld time).stores[0]? = some (.empty 0) := rfl
  refine of_empty hstore ?_ ?_ ?_
  · constructor
    · intro k n h
      cases directory_of_get?_freshWorld h
    · intro k perm h
      cases directory_of_get?_freshWorld h
      decide
    · intro n
      simp [freshWorld, Host.file]
  · exact Way.append_singleton (.nil rfl) rfl
  · intro rest hrest
    rw [get?_freshWorld]
    simp [hrest]

theorem freshWorld_obliging : (freshWorld 0).host.Obliging ["srv"] where
  unhindered := ⟨rfl, fun _ _ => rfl⟩
  single := fun _ _ _ hj => nomatch directory_of_get?_freshWorld hj

/-- Writing a file through `..` above the top and doubled slashes. -/
theorem serve_both_write :
    (freshWorld 0).host.Obliging ["srv"] ∧ (Request.write "/../a//b/" [7, 8] 0o644).Proper ∧
      (Request.write "/../a//b/" [7, 8] 0o644).Fits ["srv"] ((freshWorld 0).host.items ["srv"]) ∧
      ∃ a w' v',
        ((FileSystem.memory 0 .plain).serve (.write "/../a//b/" [7, 8] 0o644)).run (freshWorld 0) =
          .ok a w' ∧
        ((FileSystem.host ["srv"]).serve (.write "/../a//b/" [7, 8] 0o644)).run (freshWorld 0) =
          .ok a v' ∧ SameContents 0 ["srv"] w' v' ∧ v'.host.Obliging ["srv"] := by
  have hproper : (Request.write "/../a//b/" [7, 8] 0o644).Proper := by
    change (2 : Nat) < memoryLimit
    decide
  have hkey : ["srv"] ++ Key.resolve "/../a//b/" = Key.resolve "/srv/a/b" := by decide +kernel
  have hfits : (Request.write "/../a//b/" [7, 8] 0o644).Fits ["srv"]
      ((freshWorld 0).host.items ["srv"]) := by
    refine ⟨?_, by decide⟩
    rw [hkey]
    exact ⟨Path.isName_resolve _, by decide +kernel, by decide +kernel⟩
  have hserved : ((FileSystem.memory 0 .plain).serve (.write "/../a//b/" [7, 8] 0o644)).run
      (freshWorld 0) matches .ok .. := by decide +kernel
  refine ⟨freshWorld_obliging, hproper, hfits,
    ((freshWorld_same 0).serve_both freshWorld_obliging _ hproper hfits).resolve_right ?_⟩
  rintro ⟨f, g, w', v', hmemory, -⟩
  rw [hmemory] at hserved
  cases hserved

/-- A world with a store that has two empty files `a` and `b`, and with a directory `/srv` in which
one empty file has both names. -/
def twoNamesWorld : World where
  stores := [(after (Event.call (.create "b")).run
    ⟨(after (Event.call (.create "a")).run ⟨.empty 0, 0, {}⟩).store, 0, {}⟩).store]
  host.tree := ⟨[([], .directory 0o755), (["srv"], .directory 0o755), (["srv", "a"], .file 0),
    (["srv", "b"], .file 0)]⟩
  host.files := [.owned [] 0o644]

theorem node_twoNamesWorld {k : Key} {node : Node}
    (h : twoNamesWorld.host.tree.get? k = some node) :
    node = .directory 0o755 ∨ node = .file 0 := by
  have hmem := Tree.mem_entries_of_get? h
  simp only [twoNamesWorld, List.mem_cons, Prod.mk.injEq, List.not_mem_nil, or_false] at hmem
  rcases hmem with ⟨-, rfl⟩ | ⟨-, rfl⟩ | ⟨-, rfl⟩ | ⟨-, rfl⟩ <;> simp

theorem twoNamesWorld_same : SameContents 0 ["srv"] twoNamesWorld twoNamesWorld where
  memory := by
    have hstore : twoNamesWorld.stores[0]? = some (after (Event.call (.create "b")).run
        ⟨(after (Event.call (.create "a")).run ⟨.empty 0, 0, {}⟩).store, 0, {}⟩).store := rfl
    have htree : (after (Event.call (.create "b")).run
        ⟨(after (Event.call (.create "a")).run ⟨.empty 0, 0, {}⟩).store, 0, {}⟩).store.tree =
        ⟨[(["b"], .file [] (Mode.regular + 0o666) 0), (["a"], .file [] (Mode.regular + 0o666) 0),
          ([], .directory (Mode.directory + 0o755) 0)]⟩ := rfl
    refine ⟨_, hstore, .step (.step (.new 0) 0 {} _) 0 {} _, funext fun k => ?_⟩
    rw [Store.items, htree, Host.items, twoNamesWorld, Tree.get?, Tree.get?]
    simp only [Tree.lookup_cons_eq_ite, List.lookup_nil, List.singleton_append, List.cons.injEq,
      true_and, reduceCtorEq, if_false]
    by_cases htop : k = []
    · simp [htop]
      rfl
    by_cases ha : k = ["a"]
    · simp [ha]
      rfl
    by_cases hb : k = ["b"]
    · simp [hb]
      rfl
    · simp [htop, ha, hb]
  sound := by
    constructor
    · intro k n h
      rcases node_twoNamesWorld h with h | h <;> simp_all [twoNamesWorld]
    · intro k perm h
      rcases node_twoNamesWorld h with h | h <;> simp_all
    · intro n
      cases n with
      | zero => decide
      | succ n => exact Nat.zero_lt_succ _
  keeps := by
    intro k n h
    rcases node_twoNamesWorld h with h | h
    · cases h
    · cases h
      rfl
  way := Way.append_singleton (.nil rfl) rfl

/-- Backends that hold the same part where the host does not oblige, or is asked for what it takes
for no path or no number: a name with a null character, permissions past thirty-two bits, the
status of a directory whose time lies past the year 9999, and a write to a file with two names. -/
theorem parted :
    (SameContents 0 ["srv"] (freshWorld 0) (freshWorld 0) ∧
      (∃ w', ((FileSystem.memory 0 .plain).serve (.write "a\x00b" [1] 0o644)).run (freshWorld 0) =
        .ok .done w') ∧
      (∃ v', ((FileSystem.host ["srv"]).serve (.write "a\x00b" [1] 0o644)).run (freshWorld 0) =
        .error .nullInPath v') ∧
      (∃ w', ((FileSystem.memory 0 .plain).serve (.makeDirectories "a" 0x80000000)).run
        (freshWorld 0) = .ok .done w') ∧
      ∃ v', ((FileSystem.host ["srv"]).serve (.makeDirectories "a" 0x80000000)).run
        (freshWorld 0) = .error (.outOfRange .int) v') ∧
    (SameContents 0 ["srv"] (freshWorld 253402300800000000) (freshWorld 253402300800000000) ∧
      (∃ i w', ((FileSystem.memory 0 .plain).serve (.stat "")).run
        (freshWorld 253402300800000000) = .ok (.info i) w') ∧
      ∃ v', ((FileSystem.host ["srv"]).serve (.stat "")).run (freshWorld 253402300800000000) =
        .error (.yearOutOfRange 10000) v') ∧
    SameContents 0 ["srv"] twoNamesWorld twoNamesWorld ∧
      ∃ w' v', ((FileSystem.memory 0 .plain).serve (.write "a" [1] 0o644)).run twoNamesWorld =
          .ok .done w' ∧
        ((FileSystem.host ["srv"]).serve (.write "a" [1] 0o644)).run twoNamesWorld =
          .ok .done v' ∧ ¬SameContents 0 ["srv"] w' v' := by
  refine ⟨⟨freshWorld_same 0, ⟨_, rfl⟩, ⟨_, rfl⟩, ⟨_, rfl⟩, ⟨_, rfl⟩⟩,
    ⟨freshWorld_same _, ⟨_, _, rfl⟩, ⟨_, rfl⟩⟩, twoNamesWorld_same, _, _, rfl, rfl, ?_⟩
  intro hsame
  obtain ⟨s, hstore, -, hitems⟩ := hsame.memory
  -- the other name is an empty file in memory, and leads to the written one on the host
  have hb := congrFun hitems ["b"]
  cases hstore
  cases hb

end SameContents

end RootedFS
