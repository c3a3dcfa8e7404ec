import RplListener.Lib.Refine

/-!
# A program that keeps account

`x` works on a state of which `y` knows a part. `Beside p x y` says that `x` does
to the part what `y` does, whatever it does to the rest: what is proved of `y`
holds of `x`, and what `x` keeps in the rest is an account of the run of `y`.
-/

namespace Refine

variable {ε σ τ α β : Type} {p : Part σ τ}

def Beside (p : Part σ τ) (x : EStateM ε σ α) (y : EStateM ε τ α) (s : σ) (Q : α → σ → Prop)
    (E : ε → σ → Prop) : Prop :=
  Triple x s (fun a s' => y.run (p.get s) = .ok a (p.get s') ∧ Q a s')
    fun e s' => y.run (p.get s) = .error e (p.get s') ∧ E e s'

namespace Beside

variable {x : EStateM ε σ α} {y : EStateM ε τ α} {f : α → EStateM ε σ β} {g : α → EStateM ε τ β}
variable {s s' : σ} {a : α} {Q Q' : α → σ → Prop} {R : β → σ → Prop} {E E' : ε → σ → Prop}

theorem ok (h : Beside p x y s Q E) (hrun : x.run s = .ok a s') :
    y.run (p.get s) = .ok a (p.get s') ∧ Q a s' := by
  unfold Beside at h
  exact h.ok hrun

theorem triple (h : Beside p x y s Q E) :
    Triple x s (fun a s' => y.run (p.get s) = .ok a (p.get s') ∧ Q a s') fun _ _ => True :=
  Triple.mono h (fun _ _ h => h) fun _ _ _ => trivial

theorem pure (hq : Q a s) : Beside p (Pure.pure a) (Pure.pure a) s Q E := Triple.pure ⟨rfl, hq⟩

theorem throw {e : ε} (he : E e s) :
    Beside p (MonadExcept.throw e : EStateM ε σ α) (MonadExcept.throw e) s Q E :=
  Triple.of_run_error rfl ⟨rfl, he⟩

theorem mono (h : Beside p x y s Q E) (hq : ∀ a s', Q a s' → Q' a s')
    (he : ∀ e s', E e s' → E' e s') : Beside p x y s Q' E' := by
  apply Triple.mono h
  · rintro a s' ⟨hrun, h'⟩
    exact ⟨hrun, hq a s' h'⟩
  · rintro e s' ⟨hrun, h'⟩
    exact ⟨hrun, he e s' h'⟩

theorem zoom (hy : Triple y (p.get s) (fun a t => Q a (p.set t s)) fun e t => E e (p.set t s)) :
    Beside p (Refine.zoom p y) y s Q E := by
  unfold Beside Triple
  unfold Triple at hy
  rw [run_zoom]
  cases hrun : y.run (p.get s) with
  | ok a t =>
    rw [hrun] at hy
    exact ⟨by rw [p.get_set], hy⟩
  | error e t =>
    rw [hrun] at hy
    exact ⟨by rw [p.get_set], hy⟩

theorem bind (hx : Beside p x y s Q E) (hf : ∀ a s', Q a s' → Beside p (f a) (g a) s' R E) :
    Beside p (x >>= f) (y >>= g) s R E := by
  apply Triple.bind (Q := fun a s' => y.run (p.get s) = .ok a (p.get s') ∧ Q a s')
  · apply Triple.mono hx
    · exact fun _ _ h => h
    · rintro e s' ⟨hrun, he⟩
      exact ⟨run_bind_error hrun _, he⟩
  · rintro a s' ⟨hrun, hq⟩
    apply Triple.mono (hf a s' hq)
    · rintro b s'' ⟨hrun', hr⟩
      exact ⟨(run_bind_ok hrun _).trans hrun', hr⟩
    · rintro e s'' ⟨hrun', he⟩
      exact ⟨(run_bind_ok hrun _).trans hrun', he⟩

theorem get_bind {f : σ → EStateM ε σ β} {g : τ → EStateM ε τ β}
    (hf : Beside p (f s) (g (p.get s)) s R E) : Beside p (get >>= f) (get >>= g) s R E := hf

theorem look {f : σ → EStateM ε σ α} (hf : Beside p (f s) y s Q E) : Beside p (get >>= f) y s Q E :=
  hf

theorem aside {γ : Type} {u : EStateM ε σ γ} {f : γ → EStateM ε σ α} {P : γ → σ → Prop}
    (hu : Triple u s (fun c s' => p.get s' = p.get s ∧ P c s') fun _ _ => False)
    (hf : ∀ c s', P c s' → Beside p (f c) y s' Q E) : Beside p (u >>= f) y s Q E := by
  apply Triple.bind (Q := fun c s' => p.get s' = p.get s ∧ P c s')
  · exact hu.mono (fun _ _ h => h) fun _ _ h => h.elim
  · rintro c s' ⟨hsame, hc⟩
    apply Triple.mono (hf c s' hc)
    · rintro a s'' ⟨hrun, hq⟩
      exact ⟨hsame ▸ hrun, hq⟩
    · rintro e s'' ⟨hrun, he⟩
      exact ⟨hsame ▸ hrun, he⟩

theorem aside_run {γ : Type} {u : EStateM ε σ γ} {f : γ → EStateM ε σ α} {c : γ}
    (hu : u.run s = .ok c s') (hsame : p.get s' = p.get s) (hf : Beside p (f c) y s' Q E) :
    Beside p (u >>= f) y s Q E := by
  apply aside (P := fun c' s'' => c' = c ∧ s'' = s') (Triple.of_run hu ⟨hsame, rfl, rfl⟩)
  rintro _ _ ⟨rfl, rfl⟩
  exact hf

theorem zoom_run {t : τ} (hy : y.run (p.get s) = .ok a t)
    (hf : Beside p (f a) (g a) (p.set t s) R E) : Beside p (Refine.zoom p y >>= f) (y >>= g) s R E := by
  apply bind (Q := fun a' s' => a' = a ∧ s' = p.set t s) (zoom (Triple.of_run hy ⟨rfl, rfl⟩))
  rintro _ _ ⟨rfl, rfl⟩
  exact hf

/-- The account is brought up to date at the end. -/
theorem finish {f : α → EStateM ε σ α} (hx : Beside p x y s Q E)
    (hf : ∀ a s', Q a s' → Beside p (f a) (Pure.pure a : EStateM ε τ α) s' Q' E) :
    Beside p (x >>= f) y s Q' E := by
  have h := hx.bind hf
  rwa [bind_pure] at h

theorem ite {c : Prop} [Decidable c] {x' : EStateM ε σ α} {y' : EStateM ε τ α}
    (hx : c → Beside p x y s Q E) (hx' : ¬ c → Beside p x' y' s Q E) :
    Beside p (if c then x else x') (if c then y else y') s Q E := by
  split
  · exact hx ‹_›
  · exact hx' ‹_›

end Beside

-- Runs are compared by the rules, not by computing them.
attribute [irreducible] Beside

end Refine
