import RootedFS.Proofs.Memory.Disk

/-!
# Runs side by side

One computation runs in two states that are related in some way. It respects the relation when both
runs answer the same, or fail alike, and leave states that are related again. What is built from
steps that respect a relation respects it.

## Main definitions

* `Together`: two outcomes with the same answer or failure, in related states
* `Respects`: a computation whose runs in related states have such outcomes
* `Keeps`: a computation that keeps a property of the state
* `Attains`: a computation that leaves a property when it runs in some state

## Main results

* `Respects.bind`, `Respects.tryCatch`, `Respects.tryFinally`, `Respects.mapM`, `Respects.forM`:
  what is built from steps that respect a relation
-/

namespace RootedFS

open Memory (run_bind_ok run_bind_error run_tryCatch discard_eq_bind)

variable {σ α β : Type} {R : σ → σ → Prop} {Q : α → σ → σ → Prop} {Q' : β → σ → σ → Prop}
  {x : EStateM Fault σ α} {f : α → EStateM Fault σ β} {s s' : σ}

/-- Two runs answer the same, or fail alike, and leave related states. -/
inductive Together (R : σ → σ → Prop) (Q : α → σ → σ → Prop) :
    EStateM.Result Fault σ α → EStateM.Result Fault σ α → Prop
  | ok {a : α} {s s' : σ} (h : Q a s s') : Together R Q (.ok a s) (.ok a s')
  | error {e : Fault} {s s' : σ} (h : R s s') : Together R Q (.error e s) (.error e s')

theorem Together.imp {Q' : α → σ → σ → Prop} {r r' : EStateM.Result Fault σ α}
    (h : Together R Q r r') (hQ : ∀ a s s', Q a s s' → Q' a s s') : Together R Q' r r' := by
  cases h with
  | ok h => exact .ok (hQ _ _ _ h)
  | error h => exact .error h

theorem Together.bind (hx : Together R Q (x.run s) (x.run s'))
    (hf : ∀ a s s', Q a s s' → Together R Q' ((f a).run s) ((f a).run s')) :
    Together R Q' ((x >>= f).run s) ((x >>= f).run s') := by
  generalize hr : x.run s = r at hx
  generalize hr' : x.run s' = r' at hx
  cases hx with
  | ok h =>
    rw [run_bind_ok hr, run_bind_ok hr']
    exact hf _ _ _ h
  | error h =>
    rw [run_bind_error hr, run_bind_error hr']
    exact .error h

theorem Together.tryCatch {handler : Fault → EStateM Fault σ α}
    (hx : Together R Q (x.run s) (x.run s'))
    (hhandler : ∀ e s s', R s s' → Together R Q ((handler e).run s) ((handler e).run s')) :
    Together R Q ((MonadExcept.tryCatch x handler).run s)
      ((MonadExcept.tryCatch x handler).run s') := by
  rw [run_tryCatch, run_tryCatch]
  generalize x.run s = r at hx
  generalize x.run s' = r' at hx
  cases hx with
  | ok h => exact .ok h
  | error h => exact hhandler _ _ _ h

/-- What comes after the state is read must run alike. -/
theorem Together.get {g : σ → EStateM Fault σ β}
    (h : Together R Q' ((g s).run s) ((g s').run s')) :
    Together R Q' ((MonadState.get >>= g).run s) ((MonadState.get >>= g).run s') := h

/-- A computation runs alike in related states, and leaves related states. -/
def Respects (R : σ → σ → Prop) (x : EStateM Fault σ α) : Prop :=
  ∀ s s', R s s' → Together R (fun _ => R) (x.run s) (x.run s')

theorem Respects.pure (a : α) : Respects R (Pure.pure a : EStateM Fault σ α) :=
  fun _ _ h => .ok h

theorem Respects.throw (e : Fault) : Respects R (MonadExcept.throw e : EStateM Fault σ α) :=
  fun _ _ h => .error h

theorem Respects.bind (hx : Respects R x) (hf : ∀ a, Respects R (f a)) : Respects R (x >>= f) :=
  fun s s' h => (hx s s' h).bind fun a s s' h => hf a s s' h

theorem respects_ofExcept (r : Except Fault α) :
    Respects R (MonadExcept.ofExcept r : EStateM Fault σ α) := by
  cases r with
  | ok a => exact .pure a
  | error e => exact .throw e

/-- A step that is taken only if something holds. -/
theorem Respects.when {c : Prop} [Decidable c] {y : EStateM Fault σ PUnit}
    {g : PUnit → EStateM Fault σ α} (hy : Respects R y) (hg : ∀ u, Respects R (g u)) :
    Respects R (if c then y >>= g else g ⟨⟩) := by
  split
  · exact hy.bind hg
  · exact hg _

/-- A step that is taken unless something holds. -/
theorem Respects.unless {c : Prop} [Decidable c] {y : EStateM Fault σ PUnit}
    {g : PUnit → EStateM Fault σ α} (hy : Respects R y) (hg : ∀ u, Respects R (g u)) :
    Respects R (if c then g ⟨⟩ else y >>= g) := by
  split
  · exact hg _
  · exact hy.bind hg

/-- One of two steps, and what comes after either. -/
theorem Respects.either {c : Prop} [Decidable c] {y : EStateM Fault σ α} (hx : Respects R x)
    (hy : Respects R y) (hf : ∀ a, Respects R (f a)) :
    Respects R (if c then x >>= f else y >>= f) := by
  split
  · exact hx.bind hf
  · exact hy.bind hf

theorem Respects.discard (hx : Respects R x) : Respects R (discard x) := by
  rw [discard_eq_bind]
  exact hx.bind fun _ => .pure _

theorem Respects.mapM {γ : Type} {f : γ → EStateM Fault σ α} {l : List γ}
    (hf : ∀ c ∈ l, Respects R (f c)) : Respects R (l.mapM f) := by
  induction l with
  | nil => exact .pure []
  | cons c l ih =>
    rw [List.mapM_cons]
    refine (hf c List.mem_cons_self).bind fun a => ?_
    exact (ih fun d hd => hf d (List.mem_cons_of_mem c hd)).bind fun _ => .pure _

theorem Respects.forM {γ : Type} {f : γ → EStateM Fault σ PUnit} {l : List γ}
    (hf : ∀ c ∈ l, Respects R (f c)) : Respects R (l.forM f) := by
  induction l with
  | nil => exact .pure _
  | cons c l ih =>
    exact (hf c List.mem_cons_self).bind fun _ => ih fun d hd => hf d (List.mem_cons_of_mem c hd)

theorem Respects.tryCatch {handler : Fault → EStateM Fault σ α} (hx : Respects R x)
    (hhandler : ∀ e, Respects R (handler e)) :
    Respects R (MonadExcept.tryCatch x handler) :=
  fun s s' h => (hx s s' h).tryCatch fun e s s' h => hhandler e s s' h

theorem Respects.get {g : σ → EStateM Fault σ β}
    (hg : ∀ s s', R s s' → Together R (fun _ => R) ((g s).run s) ((g s').run s')) :
    Respects R (MonadState.get >>= g) :=
  fun s s' h => Together.get (hg s s' h)

theorem Respects.modify {f : σ → σ} (hf : ∀ s s', R s s' → R (f s) (f s')) :
    Respects R (modify f : EStateM Fault σ PUnit) :=
  fun s s' h => .ok (hf s s' h)

/-- What is done in the end is done after either outcome, and its own failure counts. -/
theorem run_tryFinally (x : EStateM Fault σ α) (y : EStateM Fault σ β) (s : σ) :
    (tryFinally x y).run s =
      match x.run s with
      | .ok a t => (y >>= fun _ => pure a).run t
      | .error e t => (y >>= fun _ => throw e).run t := by
  rw [EStateM.run, EStateM.run]
  simp only [tryFinally, tryFinally', Functor.map, EStateM.map, bind, EStateM.bind, EStateM.run]
  cases x s with
  | ok a t =>
    dsimp only
    cases y t <;> rfl
  | error e t =>
    dsimp only
    cases y t <;> rfl

theorem Respects.tryFinally {y : EStateM Fault σ β} (hx : Respects R x) (hy : Respects R y) :
    Respects R (tryFinally x y) := by
  intro s s' h
  rw [run_tryFinally, run_tryFinally]
  have hx := hx s s' h
  generalize x.run s = r at hx
  generalize x.run s' = r' at hx
  cases hx with
  | ok h => exact (hy _ _ h).bind fun _ _ _ h => .ok h
  | error h => exact (hy _ _ h).bind fun _ _ _ h => .error h

/-- A computation keeps a property of the state, whether or not it fails: it respects being the
same state with the property. -/
def Keeps (P : σ → Prop) (x : EStateM Fault σ α) : Prop :=
  Respects (fun s s' => s = s' ∧ P s) x

/-- A computation that runs in one state leaves a property of the state, whether or not it fails. -/
def Attains (P : σ → Prop) (x : EStateM Fault σ α) (s : σ) : Prop :=
  Together (fun s s' => s = s' ∧ P s) (fun _ s s' => s = s' ∧ P s) (x.run s) (x.run s)

section

variable {P : σ → Prop}

theorem Keeps.attains (hx : Keeps P x) (hs : P s) : Attains P x s :=
  hx s s ⟨rfl, hs⟩

/-- What comes after must keep what has been left. -/
theorem Attains.bind (hx : Attains P x s) (hf : ∀ a, Keeps P (f a)) : Attains P (x >>= f) s :=
  Together.bind hx fun a s s' h => hf a s s' h

theorem Attains.tryCatch {handler : Fault → EStateM Fault σ α} (hx : Attains P x s)
    (hhandler : ∀ e, Keeps P (handler e)) : Attains P (MonadExcept.tryCatch x handler) s :=
  Together.tryCatch hx fun e s s' h => hhandler e s s' h

theorem Attains.of_ok {a : α} (hx : Attains P x s) (hrun : x.run s = .ok a s') : P s' := by
  rw [Attains, hrun] at hx
  cases hx with
  | ok h => exact h.2

theorem Attains.of_error {e : Fault} (hx : Attains P x s) (hrun : x.run s = .error e s') :
    P s' := by
  rw [Attains, hrun] at hx
  cases hx with
  | error h => exact h.2

theorem Keeps.of_run {a : α} (hx : Keeps P x) (hs : P s) (hrun : x.run s = .ok a s') : P s' :=
  (hx.attains hs).of_ok hrun

end

end RootedFS
