import Mathlib.Data.List.Induction
import RootedFS.Path.Key

/-!
# Normal forms of pieces

Reading pieces from left to right leaves names, with `..` pieces in front of them where a relative
path leads above its start. Reading the normal form in place of the pieces changes nothing, from
whatever names the reading begins.

## Main definitions

* `Path.IsName`: the pieces that stand for entries

## Main results

* `Path.foldl_step_normalize`: pieces may be replaced by their normal form
* `Path.normalize_eq_replicate_append`: a relative normal form is a run of `..` and then names
* `Path.isName_normalize`, `Path.isName_resolve`: keys consist of names
-/

namespace RootedFS.Path

/-- A piece that stands for an entry: neither empty nor `.` nor `..`, and without slashes. -/
structure IsName (a : String) : Prop where
  ne_empty : a ≠ ""
  ne_dot : a ≠ "."
  ne_dots : a ≠ ".."
  no_slash : '/' ∉ a.toList

instance (a : String) : Decidable (IsName a) :=
  decidable_of_iff (a ≠ "" ∧ a ≠ "." ∧ a ≠ ".." ∧ '/' ∉ a.toList)
    ⟨fun ⟨hempty, hdot, hdots, hslash⟩ => ⟨hempty, hdot, hdots, hslash⟩,
      fun h => ⟨h.ne_empty, h.ne_dot, h.ne_dots, h.no_slash⟩⟩

/-- A name is neither empty nor has it slashes. -/
theorem IsName.plain {a : String} (h : IsName a) : a ≠ "" ∧ '/' ∉ a.toList :=
  ⟨h.ne_empty, h.no_slash⟩

theorem isName_append {k l : List String} (hk : ∀ a ∈ k, IsName a) (hl : ∀ a ∈ l, IsName a) :
    ∀ a ∈ k ++ l, IsName a :=
  fun a ha => (List.mem_append.1 ha).elim (hk a) (hl a)

theorem isName_concat {k : List String} {a : String} (hk : ∀ b ∈ k, IsName b) (ha : IsName a) :
    ∀ b ∈ k ++ [a], IsName b :=
  isName_append hk (by simpa using ha)

theorem step_skip {absolute : Bool} {stack : List String} {piece : String}
    (h : piece = "" ∨ piece = ".") : step absolute stack piece = stack :=
  if_pos h

theorem step_of_ne {absolute : Bool} {stack : List String} {piece : String}
    (h : ¬(piece = "" ∨ piece = ".")) (hup : piece ≠ "..") :
    step absolute stack piece = piece :: stack := by
  unfold Path.step
  rw [if_neg h, if_neg hup]

theorem IsName.step {a : String} (h : IsName a) (absolute : Bool) (stack : List String) :
    step absolute stack a = a :: stack :=
  step_of_ne (not_or.2 ⟨h.ne_empty, h.ne_dot⟩) h.ne_dots

/-- The piece `..` takes back the name before it. -/
theorem step_up_cons {absolute : Bool} {stack : List String} {a : String} (h : a ≠ "..") :
    step absolute (a :: stack) ".." = stack := by
  simp [Path.step, h]

/-- Above its start a relative path goes on leading up. -/
theorem step_up_replicate (n : Nat) :
    step false (List.replicate n "..") ".." = List.replicate (n + 1) ".." := by
  cases n <;> rfl

theorem foldl_step_names {absolute : Bool} {l : List String} (h : ∀ a ∈ l, IsName a)
    (stack : List String) : l.foldl (step absolute) stack = l.reverse ++ stack := by
  induction l generalizing stack with
  | nil => rfl
  | cons a l ih =>
    rw [List.foldl_cons, (h a List.mem_cons_self).step,
      ih fun b hb => h b (List.mem_cons_of_mem a hb)]
    simp

theorem normalize_names {absolute : Bool} {l : List String} (h : ∀ a ∈ l, IsName a) :
    normalize absolute l = l := by
  rw [normalize, foldl_step_names h, List.append_nil, List.reverse_reverse]

/-! ## What is left on the stack -/

/-- Every piece that is left stands in the text, and it is not one that says nothing. -/
theorem mem_of_mem_foldl_step {absolute : Bool} {l stack : List String} {a : String}
    (h : a ∈ l.foldl (step absolute) stack) :
    a ∈ stack ∨ (a ∈ l ∧ ¬(a = "" ∨ a = ".")) := by
  -- by induction on the pieces, from any stack: a step keeps, takes back or adds its own piece
  induction l generalizing stack with
  | nil => exact .inl h
  | cons b l ih =>
    rcases ih h with hs | ⟨hl, hne⟩
    · unfold Path.step at hs
      split at hs
      · exact .inl hs
      · rename_i hb
        split at hs
        · rename_i hup
          split at hs
          · split at hs
            · cases hs
            · rw [List.mem_singleton] at hs
              exact .inr ⟨by simp [hs, hup], by simp [hs]⟩
          · split at hs
            · rcases List.mem_cons.1 hs with rfl | hs
              · exact .inr ⟨by simp [hup], by simp⟩
              · exact .inl hs
            · exact .inl (List.mem_cons_of_mem _ hs)
        · rcases List.mem_cons.1 hs with rfl | hs
          · exact .inr ⟨List.mem_cons_self, hb⟩
          · exact .inl hs
    · exact .inr ⟨List.mem_cons_of_mem b hl, hne⟩

/-- At the top nothing leads up any more. -/
theorem not_mem_foldl_step {l stack : List String} (h : ".." ∉ stack) :
    ".." ∉ l.foldl (step true) stack := by
  induction l generalizing stack with
  | nil => exact h
  | cons b l ih =>
    apply ih
    unfold Path.step
    split
    · exact h
    · split
      · split
        · simp
        · rename_i top below
          rw [List.mem_cons, not_or] at h
          rw [if_neg (Ne.symm h.1)]
          exact h.2
      · rename_i hup
        rw [List.mem_cons, not_or]
        exact ⟨Ne.symm hup, h⟩

theorem mem_of_mem_normalize {absolute : Bool} {l : List String} {a : String}
    (h : a ∈ normalize absolute l) : a ∈ l ∧ ¬(a = "" ∨ a = ".") := by
  rcases mem_of_mem_foldl_step (List.mem_reverse.1 h) with h | h
  · cases h
  · exact h

theorem no_slash_of_mem_pieces {s a : String} (h : a ∈ pieces s) : '/' ∉ a.toList := by
  obtain ⟨run, hrun, rfl⟩ := List.mem_map.1 h
  rw [String.toList_ofList]
  exact not_mem_of_mem_splitSlash _ run hrun

/-- Of pieces without slashes, those that are left are names, other than `..`. -/
theorem isName_of_mem_normalize {absolute : Bool} {l : List String} {a : String}
    (hl : ∀ b ∈ l, '/' ∉ b.toList) (h : a ∈ normalize absolute l) (hup : a ≠ "..") : IsName a := by
  obtain ⟨hmem, hne⟩ := mem_of_mem_normalize h
  rw [not_or] at hne
  exact ⟨hne.1, hne.2, hup, hl a hmem⟩

/-- At the top, pieces without slashes leave names alone. -/
theorem isName_normalize {l : List String} (hl : ∀ b ∈ l, '/' ∉ b.toList) :
    ∀ a ∈ normalize true l, IsName a := by
  intro a h
  apply isName_of_mem_normalize hl h
  rintro rfl
  have hnil : ".." ∉ ([] : List String) := List.not_mem_nil
  exact not_mem_foldl_step hnil (List.mem_reverse.1 h)

/-- The key of a text consists of names. -/
theorem isName_resolve (s : String) : ∀ a ∈ Key.resolve s, IsName a :=
  isName_normalize fun _ => no_slash_of_mem_pieces

/-- What leads to a key of names consists of names. -/
theorem isName_parent {k : Key} (h : ∀ a ∈ k, IsName a) : ∀ a ∈ k.parent, IsName a :=
  fun a ha => h a (List.dropLast_subset k ha)

/-! ## The normal form in place of the pieces -/

theorem normalize_append_singleton (absolute : Bool) (l : List String) (a : String) :
    normalize absolute (l ++ [a]) = (step absolute (normalize absolute l).reverse a).reverse := by
  simp [normalize]

/-- Reading the relative normal form of pieces does what reading the pieces does, from whatever
stack. -/
theorem foldl_step_normalize (absolute : Bool) (l stack : List String) :
    (normalize false l).foldl (step absolute) stack = l.foldl (step absolute) stack := by
  -- from the right: the last piece either stays or takes back the last name that was left
  induction l using List.reverseRecOn with
  | nil => rfl
  | append_singleton l a ih =>
    rw [normalize_append_singleton, List.foldl_append, ← ih, List.foldl_cons, List.foldl_nil]
    by_cases hskip : a = "" ∨ a = "."
    · rw [step_skip hskip, step_skip hskip, List.reverse_reverse]
    by_cases hup : a = ".."
    · subst hup
      generalize hn : (normalize false l).reverse = back
      rw [List.reverse_eq_iff] at hn
      rw [hn]
      cases back with
      | nil => rfl
      | cons top below =>
        have hmem : top ∈ normalize false l := by
          rw [hn]
          simp
        have htop : ¬(top = "" ∨ top = ".") := (mem_of_mem_normalize hmem).2
        by_cases htopUp : top = ".."
        · subst htopUp
          simp [Path.step]
        · rw [step_up_cons htopUp, List.reverse_cons, List.foldl_append, List.foldl_cons,
            List.foldl_nil, step_of_ne htop htopUp, step_up_cons htopUp]
    · rw [step_of_ne hskip hup, List.reverse_cons, List.reverse_reverse, List.foldl_append]
      rfl

/-- A relative normal form leads up some number of times and then goes down by names. -/
theorem normalize_eq_replicate_append (l : List String) :
    ∃ n names, normalize false l = List.replicate n ".." ++ names ∧ ".." ∉ names := by
  -- from the right: the last piece acts on the names if there are any, and on the run if not
  induction l using List.reverseRecOn with
  | nil => exact ⟨0, [], rfl, by simp⟩
  | append_singleton l a ih =>
    obtain ⟨n, names, hn, hnames⟩ := ih
    rw [normalize_append_singleton]
    by_cases hskip : a = "" ∨ a = "."
    · exact ⟨n, names, by rw [step_skip hskip, List.reverse_reverse, hn], hnames⟩
    by_cases hup : a = ".."
    · subst hup
      rcases List.eq_nil_or_concat names with rfl | ⟨names, b, rfl⟩
      · refine ⟨n + 1, [], ?_, by simp⟩
        rw [hn, List.append_nil, List.reverse_replicate, step_up_replicate, List.reverse_replicate,
          List.append_nil]
      · rw [List.concat_eq_append, List.mem_append, not_or] at hnames
        have hb : b ≠ ".." := fun h => hnames.2 (by simp [h])
        refine ⟨n, names, ?_, hnames.1⟩
        rw [hn, List.concat_eq_append, ← List.append_assoc, List.reverse_append,
          List.reverse_singleton, List.singleton_append, step_up_cons hb, List.reverse_reverse]
    · refine ⟨n, names ++ [a], ?_, ?_⟩
      · rw [step_of_ne hskip hup, List.reverse_cons, List.reverse_reverse, hn, List.append_assoc]
      · simp [hnames, Ne.symm hup]

end RootedFS.Path
