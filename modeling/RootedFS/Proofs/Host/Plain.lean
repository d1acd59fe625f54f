import RootedFS.Proofs.Host.Walk
import RootedFS.Proofs.Path.Route

/-!
# Walks along names

A route of names that the host takes, of which none leads to a symbolic link, is walked from one
directory to the next: the walk ends at the entry of the last name, or where a name is missing or
leads to a file too early.

## Main definitions

* `Host.Fits`: keys that are short enough for the host
* `Host.Way`: a way that is made of directories
* `Host.Found.place`: the place where a walk ends

## Main results

* `Host.walk_of_way`, `Host.walk_entry`, `Host.walk_absent`, `Host.walk_stuck`: where a walk ends
-/

namespace RootedFS.Host

open Memory

variable {t : Tree Node} {m : Manner} {k l rest : Key} {a : String} {node : Node} {perm : Nat}

/-! ## Keys that the host takes -/

/-- A key of names that are no longer than the host allows and of which it takes the text. -/
structure Fits (k : Key) : Prop where
  names : ∀ a ∈ k, Path.IsName a
  short : ∀ a ∈ k, a.utf8ByteSize ≤ maxName
  text : pathRefusal? (Key.toString k) = none

/-- The text of a key begins with the text of what leads to it. -/
theorem exists_toString_append (k l : Key) :
    ∃ s, Key.toString (k ++ l) = Key.toString k ++ s := by
  by_cases hl : l = []
  · exact ⟨"", by simp [hl]⟩
  by_cases hk : k = []
  · refine ⟨String.ofList (Path.glue l).toList, ?_⟩
    rw [hk, List.nil_append, Key.toString, Key.toString, ← String.ofList_append]
    rfl
  · refine ⟨Key.toString l, String.toList_inj.1 ?_⟩
    rw [Path.toList_toString_append hk hl, String.toList_append]

/-- The host takes the text of what leads to a key whose text it takes. -/
theorem pathRefusal?_of_append (h : pathRefusal? (Key.toString (k ++ l)) = none) :
    pathRefusal? (Key.toString k) = none := by
  obtain ⟨s, hs⟩ := exists_toString_append k l
  rw [hs, pathRefusal?_eq_none_iff, hasNull_append, String.utf8ByteSize_append] at h
  obtain ⟨hnull, hlong⟩ := h
  rw [Bool.or_eq_false_iff] at hnull
  exact pathRefusal?_eq_none_iff.2 ⟨hnull.1, by omega⟩

namespace Fits

theorem hasNull_eq_false (h : Fits k) : hasNull (Key.toString k) = false :=
  (pathRefusal?_eq_none_iff.1 h.text).1

/-- What leads to a key is no longer than the key. -/
theorem of_append (h : Fits (k ++ l)) : Fits k where
  names := fun a ha => h.names a (List.mem_append_left l ha)
  short := fun a ha => h.short a (List.mem_append_left l ha)
  text := pathRefusal?_of_append h.text

theorem dropLast (h : Fits k) : Fits k.dropLast := by
  rcases List.eq_nil_or_concat k with rfl | ⟨k, a, rfl⟩
  · exact h
  · rw [List.concat_eq_append] at h ⊢
    rw [List.dropLast_concat]
    exact h.of_append

end Fits

/-- A way from the top, to its end, is made of directories. -/
def Way (t : Tree Node) (k : Key) : Prop :=
  ∀ j, j <+: k → ∃ perm, t.get? j = some (.directory perm)

theorem Way.of_append (h : Way t (k ++ l)) : Way t k := fun j hj =>
  h j (hj.trans (List.prefix_append k l))

theorem Way.dropLast (h : Way t k) : Way t k.dropLast := fun j hj =>
  h j (hj.trans (List.dropLast_prefix k))

/-- The way to the top. -/
theorem Way.nil (hget : t.get? [] = some (.directory perm)) : Way t [] := by
  intro j hj
  rw [List.prefix_nil.1 hj]
  exact ⟨perm, hget⟩

/-- A way goes on to a directory. -/
theorem Way.append_singleton (h : Way t k) (hget : t.get? (k ++ [a]) = some (.directory perm)) :
    Way t (k ++ [a]) := by
  intro j hj
  rcases List.prefix_concat_iff.1 hj with rfl | hj
  · exact ⟨perm, hget⟩
  · exact h j hj

/-! ## Legs -/

/-- Names ask for more than that something is a directory. -/
theorem onlySlashes_eq_false (h : ∀ b ∈ rest, Path.IsName b) (hne : rest ≠ []) :
    onlySlashes rest = false := by
  obtain ⟨b, rest, rfl⟩ := List.exists_cons_of_ne_nil hne
  simp [onlySlashes, (h b List.mem_cons_self).ne_empty]

/-- Before names, a name leads to the entry of that name. -/
theorem leg_name (ha : Path.IsName a) (hshort : a.utf8ByteSize ≤ maxName)
    (hrest : ∀ b ∈ rest, Path.IsName b) (k : Key) :
    leg m t k (a :: rest) =
      match t.get? (k ++ [a]) with
      | none => if rest = [] then .done (.absent k a false) else .failed .missing
      | some (.directory _) => leg m t (k ++ [a]) rest
      | some (.file number) =>
        if rest = [] then .done (.entry (k ++ [a]) (.file number)) else .failed .notDirectory
      | some (.link target) =>
        if rest = [] ∧ ¬m.follow then .done (.entry (k ++ [a]) (.link target))
        else .link (if Path.isAbsolute target then [] else k) (Path.pieces target ++ rest) := by
  have hskip : ¬(a = "" ∨ a = ".") := not_or.2 ⟨ha.ne_empty, ha.ne_dot⟩
  have hslash : ¬(m.forFile = true ∧ rest ≠ [] ∧ onlySlashes rest = true) := by
    rintro ⟨-, hne, honly⟩
    rw [onlySlashes_eq_false hrest hne] at honly
    cases honly
  rw [leg, if_neg hskip, if_neg ha.ne_dots, if_neg hslash, if_neg (Nat.not_lt.2 hshort)]
  by_cases hnil : rest = []
  · subst hnil
    rfl
  · have honly := onlySlashes_eq_false hrest hnil
    rcases t.get? (k ++ [a]) with _ | (perm | number | target) <;> simp [honly, hnil]

/-- Along directories a leg goes from one to the next. -/
theorem leg_of_way (hl : ∀ b ∈ l, Path.IsName b ∧ b.utf8ByteSize ≤ maxName)
    (hrest : ∀ b ∈ rest, Path.IsName b) (hway : Way t (k ++ l)) :
    leg m t k (l ++ rest) = leg m t (k ++ l) rest := by
  induction l generalizing k with
  | nil => simp
  | cons b l ih =>
    rw [List.append_cons] at hway
    obtain ⟨perm, hget⟩ := hway (k ++ [b]) (List.prefix_append _ l)
    obtain ⟨hb, hshort⟩ := hl b List.mem_cons_self
    have hnames : ∀ c ∈ l ++ rest, Path.IsName c := by
      intro c hc
      exact (List.mem_append.1 hc).elim (fun hc => (hl c (List.mem_cons_of_mem b hc)).1) (hrest c)
    rw [List.cons_append, leg_name hb hshort hnames, hget]
    dsimp only
    rw [ih (fun c hc => hl c (List.mem_cons_of_mem b hc)) hway, ← List.append_cons]

/-! ## Walks -/

/-- The key of the place where a walk ends. -/
def Found.place : Found → Key
  | entry k _ => k
  | absent k name _ => k ++ [name]

/-- A walk along what fits that meets no link ends with its first leg. -/
theorem walk_of_leg_done {found : Found} (hk : Fits k) (h : leg m t [] k = .done found) :
    walk m t k = .ok found := by
  rw [walk_eq hk.text, walkFrom, h]

theorem walk_of_leg_failed {why : Refusal} (hk : Fits k) (h : leg m t [] k = .failed why) :
    walk m t k = .error why := by
  rw [walk_eq hk.text, walkFrom, h]

theorem Fits.leg_append (h : Fits (k ++ rest)) (hway : Way t k) :
    leg m t [] (k ++ rest) = leg m t k rest :=
  leg_of_way (fun b hb => ⟨h.of_append.names b hb, h.of_append.short b hb⟩)
    (fun b hb => h.names b (List.mem_append_right k hb)) hway

/-- A way of directories leads to a directory. -/
theorem walk_of_way (hk : Fits k) (hway : Way t k) :
    ∃ perm, t.get? k = some (.directory perm) ∧
      walk m t k = .ok (.entry k (.directory perm)) := by
  obtain ⟨perm, hget⟩ := hway k List.prefix_rfl
  have hfits : Fits (k ++ []) := by rwa [List.append_nil]
  have hleg := hfits.leg_append (m := m) hway
  rw [List.append_nil, leg, hget] at hleg
  exact ⟨perm, hget, walk_of_leg_done hk hleg⟩

/-- A way of directories leads to what is at the last name. -/
theorem walk_entry (hk : Fits (k ++ [a])) (hway : Way t k) (hget : t.get? (k ++ [a]) = some node)
    (hlink : ∀ target, node ≠ .link target) :
    walk m t (k ++ [a]) = .ok (.entry (k ++ [a]) node) := by
  cases node with
  | directory perm =>
    obtain ⟨perm', hget', hwalk⟩ := walk_of_way (m := m) hk (hway.append_singleton hget)
    rw [hget] at hget'
    cases hget'
    exact hwalk
  | file number =>
    apply walk_of_leg_done hk
    rw [hk.leg_append hway, leg_name (hk.names a (by simp)) (hk.short a (by simp)) (by simp), hget]
    rfl
  | link target => exact absurd rfl (hlink target)

/-- A way of directories leads to where the last name is missing. -/
theorem walk_absent (hk : Fits (k ++ [a])) (hway : Way t k) (hget : t.get? (k ++ [a]) = none) :
    walk m t (k ++ [a]) = .ok (.absent k a false) := by
  apply walk_of_leg_done hk
  rw [hk.leg_append hway, leg_name (hk.names a (by simp)) (hk.short a (by simp)) (by simp), hget]
  rfl

/-- Where a name before the last is missing or leads to a file, a walk goes no further. -/
theorem walk_stuck (hk : Fits (k ++ a :: rest)) (hrest : rest ≠ []) (hway : Way t k)
    (hdir : ∀ perm, t.get? (k ++ [a]) ≠ some (.directory perm))
    (hlink : ∀ target, t.get? (k ++ [a]) ≠ some (.link target)) :
    ∃ why, walk m t (k ++ a :: rest) = .error why ∧ (why = .missing ∨ why = .notDirectory) := by
  have hleg := hk.leg_append (m := m) hway
  rw [leg_name (hk.names a (by simp)) (hk.short a (by simp))
    fun b hb => hk.names b (by simp [hb])] at hleg
  cases hget : t.get? (k ++ [a]) with
  | none =>
    rw [hget] at hleg
    simp only [if_neg hrest] at hleg
    exact ⟨_, walk_of_leg_failed hk hleg, .inl rfl⟩
  | some node =>
    rw [hget] at hleg
    cases node with
    | directory perm => exact absurd hget (hdir perm)
    | link target => exact absurd hget (hlink target)
    | file number =>
      simp only [if_neg hrest] at hleg
      exact ⟨_, walk_of_leg_failed hk hleg, .inr rfl⟩

/-! ## Routes one name further -/

theorem route_join_name (root : Key) (path : String) (ha : Path.IsName a) :
    Rooted.route root (Path.join [path, a]) = Rooted.route root path ++ [a] := by
  rw [Rooted.route, Path.resolve_join_name path ha, ← List.append_assoc]
  rfl

/-- A lead without slashes names a temporary file in its directory. -/
theorem tempRoute_eq {lead : String} (hlead : '/' ∉ lead.toList) (directory : List String)
    (number : Int) :
    Rooted.tempRoute directory lead number = directory ++ [lead ++ toString number] := by
  rw [Rooted.tempRoute, (Path.isName_append_number hlead number).pieces, Rooted.putAfter]
  simp

end RootedFS.Host
