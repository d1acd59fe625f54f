import RootedFS.Proofs.Memory.Disk

/-!
# Programs in parallel

One program runs twice: on two filesystems, in two worlds that are related in some way. Step by step
the runs end alike, with answers or failures that are related, in worlds that are related again.
What is built from steps that run in parallel runs in parallel.

## Main definitions

* `Ends`: two runs with related answers or related failures
* `Parallel`: two computations that end alike wherever they start in related states

## Main results

* `Parallel.bind`, `Parallel.tryCatch`, `Parallel.forM`: what is built from steps in parallel
* `Parallel.of_map`: an answer may be taken out of the form that it was put into
-/

namespace RootedFS

open Memory (run_tryCatch discard_eq_bind)

variable {ε σ σ' α α' β β' γ : Type}

/-- Two runs end alike: with related answers or with related failures, in related states. -/
inductive Ends (E : ε → ε → Prop) (W : σ → σ' → Prop) (R : α → α' → Prop) :
    EStateM.Result ε σ α → EStateM.Result ε σ' α' → Prop
  | ok {a : α} {a' : α'} {s : σ} {s' : σ'} (h : R a a') (hs : W s s') :
    Ends E W R (.ok a s) (.ok a' s')
  | error {e e' : ε} {s : σ} {s' : σ'} (h : E e e') (hs : W s s') :
    Ends E W R (.error e s) (.error e' s')

/-- Two computations run in parallel: wherever they start in related states, they end alike. -/
def Parallel (E : ε → ε → Prop) (W : σ → σ' → Prop) (R : α → α' → Prop) (x : EStateM ε σ α)
    (x' : EStateM ε σ' α') : Prop :=
  ∀ s s', W s s' → Ends E W R (x.run s) (x'.run s')

namespace Parallel

variable {E : ε → ε → Prop} {W : σ → σ' → Prop} {R : α → α' → Prop} {Q : β → β' → Prop}
  {x : EStateM ε σ α} {x' : EStateM ε σ' α'}

theorem pure {a : α} {a' : α'} (h : R a a') :
    Parallel E W R (Pure.pure a : EStateM ε σ α) (Pure.pure a') :=
  fun _ _ hs => .ok h hs

theorem throw {e e' : ε} (h : E e e') :
    Parallel E W R (MonadExcept.throw e : EStateM ε σ α) (MonadExcept.throw e') :=
  fun _ _ hs => .error h hs

/-- The rest of two programs runs in parallel from answers that are related. -/
theorem bind {f : α → EStateM ε σ β} {f' : α' → EStateM ε σ' β'} (h : Parallel E W R x x')
    (hf : ∀ a a', R a a' → Parallel E W Q (f a) (f' a')) :
    Parallel E W Q (x >>= f) (x' >>= f') := by
  intro s s' hs
  have hend := h s s' hs
  rw [EStateM.run_bind, EStateM.run_bind]
  generalize x.run s = r at hend ⊢
  generalize x'.run s' = r' at hend ⊢
  cases hend with
  | ok ha hs => exact hf _ _ ha _ _ hs
  | error he hs => exact .error he hs

theorem map {g : α → β} {g' : α' → β'} (h : Parallel E W R x x')
    (hg : ∀ a a', R a a' → Q (g a) (g' a')) : Parallel E W Q (g <$> x) (g' <$> x') := by
  rw [map_eq_pure_bind, map_eq_pure_bind]
  exact h.bind fun a a' ha => .pure (hg a a' ha)

theorem imp {R' : α → α' → Prop} (h : Parallel E W R x x') (hR : ∀ a a', R a a' → R' a a') :
    Parallel E W R' x x' := by
  have hid : Parallel E W R' (id <$> x) (id <$> x') := h.map hR
  rwa [id_map, id_map] at hid

/-- Computations whose answers are put into another form run in parallel themselves. -/
theorem of_map {g : α → β} {g' : α' → β'} (h : Parallel E W Q (g <$> x) (g' <$> x')) :
    Parallel E W (fun a a' => Q (g a) (g' a')) x x' := by
  intro s s' hs
  have hend := h s s' hs
  rw [map_eq_pure_bind, map_eq_pure_bind, EStateM.run_bind, EStateM.run_bind] at hend
  generalize x.run s = r at hend ⊢
  generalize x'.run s' = r' at hend ⊢
  cases r with
  | ok a t =>
    cases r' with
    | ok a' t' => cases hend with
      | ok ha ht => exact .ok ha ht
    | error e' t' => cases hend
  | error e t =>
    cases r' with
    | ok a' t' => cases hend
    | error e' t' => cases hend with
      | error he ht => exact .error he ht

theorem tryCatch {handler : ε → EStateM ε σ α} {handler' : ε → EStateM ε σ' α'}
    (h : Parallel E W R x x')
    (hhandler : ∀ e e', E e e' → Parallel E W R (handler e) (handler' e')) :
    Parallel E W R (MonadExcept.tryCatch x handler) (MonadExcept.tryCatch x' handler') := by
  intro s s' hs
  have hend := h s s' hs
  rw [run_tryCatch, run_tryCatch]
  generalize x.run s = r at hend ⊢
  generalize x'.run s' = r' at hend ⊢
  cases hend with
  | ok ha hs => exact .ok ha hs
  | error he hs => exact hhandler _ _ he _ _ hs

theorem discard (h : Parallel E W R x x') :
    Parallel E W (fun _ _ => True) (discard x) (discard x') := by
  rw [discard_eq_bind, discard_eq_bind]
  exact h.bind fun _ _ _ => .pure trivial

/-- One step after another for the same things. -/
theorem forM {l : List γ} {f : γ → EStateM ε σ PUnit} {f' : γ → EStateM ε σ' PUnit}
    (h : ∀ c ∈ l, Parallel E W (fun _ _ => True) (f c) (f' c)) :
    Parallel E W (fun _ _ => True) (l.forM f) (l.forM f') := by
  induction l with
  | nil => exact .pure trivial
  | cons c l ih =>
    exact (h c List.mem_cons_self).bind fun _ _ _ => ih fun d hd => h d (List.mem_cons_of_mem c hd)

end Parallel

end RootedFS
