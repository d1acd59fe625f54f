import Mathlib.Data.List.Nodup
import RootedFS.Memory.Store

/-!
# Handles that were opened in pairs

Where the same is done on two stores, their handles are opened in pairs, with numbers that need not
be the same. The handles of each pair stay related while both stores change, as long as a change of
the one goes with a change of the other.

## Main definitions

* `Pair`: a handle of one store and a handle of another
* `Paired`: the handles of each pair are related

## Main results

* `Paired.map`, `Paired.append`, `Paired.set`: changes of the handles that go together
-/

namespace RootedFS.Memory

/-- A handle that was opened in both stores. -/
structure Pair where
  /-- The number of the handle in the one store. -/
  id : Nat
  /-- Its number in the other. -/
  id' : Nat
  /-- Its name. -/
  name : String
  /-- Its name inside. -/
  inner : String

/-- The handles of each pair are related, and no handle is in two pairs. -/
structure Paired (R : Handle → Handle → Prop) (ps : List Pair) (l l' : List Handle) : Prop where
  related : ∀ x ∈ ps, ∃ h h' : Handle, l[x.id]? = some h ∧ l'[x.id']? = some h' ∧ R h h'
  nodup : (ps.map Pair.id).Nodup
  nodup' : (ps.map Pair.id').Nodup

namespace Paired

variable {R R' : Handle → Handle → Prop} {ps : List Pair} {l l' : List Handle} {x : Pair}

theorem nil (R : Handle → Handle → Prop) (l l' : List Handle) : Paired R [] l l' :=
  ⟨by simp, List.nodup_nil, List.nodup_nil⟩

section

variable (h : Paired R ps l l')
include h

theorem lt_of_mem (hx : x ∈ ps) : x.id < l.length ∧ x.id' < l'.length := by
  obtain ⟨g, g', hid, hid', -⟩ := h.related x hx
  exact ⟨(List.getElem?_eq_some_iff.1 hid).1, (List.getElem?_eq_some_iff.1 hid').1⟩

/-- Every handle has changed. -/
theorem map {f f' : Handle → Handle} (hf : ∀ g g', R g g' → R' (f g) (f' g')) :
    Paired R' ps (l.map f) (l'.map f') where
  related x hx := by
    obtain ⟨g, g', hid, hid', hg⟩ := h.related x hx
    exact ⟨f g, f' g', by rw [List.getElem?_map, hid]; rfl, by rw [List.getElem?_map, hid']; rfl,
      hf g g' hg⟩
  nodup := h.nodup
  nodup' := h.nodup'

/-- A handle has been opened in both stores. -/
theorem append {g g' : Handle} (hg : R g g') (name inner : String) :
    Paired R (ps ++ [⟨l.length, l'.length, name, inner⟩]) (l ++ [g]) (l' ++ [g']) where
  related x hx := by
    rcases List.mem_append.1 hx with hx | hx
    · obtain ⟨i, i', hid, hid', hi⟩ := h.related x hx
      obtain ⟨hlt, hlt'⟩ := h.lt_of_mem hx
      exact ⟨i, i', (List.getElem?_append_left hlt).trans hid,
        (List.getElem?_append_left hlt').trans hid', hi⟩
    · rw [List.mem_singleton.1 hx]
      exact ⟨g, g', List.getElem?_concat_length, List.getElem?_concat_length, hg⟩
  nodup := by
    rw [List.map_append, List.map_singleton, ← List.concat_eq_append, List.nodup_concat]
    refine ⟨?_, h.nodup⟩
    intro hmem
    obtain ⟨x, hx, hid⟩ := List.mem_map.1 hmem
    exact absurd hid (Nat.ne_of_lt (h.lt_of_mem hx).1)
  nodup' := by
    rw [List.map_append, List.map_singleton, ← List.concat_eq_append, List.nodup_concat]
    refine ⟨?_, h.nodup'⟩
    intro hmem
    obtain ⟨x, hx, hid⟩ := List.mem_map.1 hmem
    exact absurd hid (Nat.ne_of_lt (h.lt_of_mem hx).2)

/-- The handles of a pair have been replaced. -/
theorem set (hx : x ∈ ps) {g g' : Handle} (hg : R g g') :
    Paired R ps (l.set x.id g) (l'.set x.id' g') where
  related y hy := by
    obtain ⟨hlt, hlt'⟩ := h.lt_of_mem hx
    by_cases hyx : y = x
    · subst hyx
      exact ⟨g, g', List.getElem?_set_self hlt, List.getElem?_set_self hlt', hg⟩
    · have hid : x.id ≠ y.id := fun heq => hyx (List.inj_on_of_nodup_map h.nodup hy hx heq.symm)
      have hid' : x.id' ≠ y.id' := fun heq => hyx (List.inj_on_of_nodup_map h.nodup' hy hx heq.symm)
      rw [List.getElem?_set_ne hid, List.getElem?_set_ne hid']
      exact h.related y hy
  nodup := h.nodup
  nodup' := h.nodup'

end

end Paired

end RootedFS.Memory
