import Mathlib.Logic.Basic

/-!
# Halting programs and what they refine

A program is an `EStateM ε σ α`: it changes a state `σ` and either returns or
halts with a reason `ε`, and the state it leaves is kept in both cases.

`zoom` runs a program on a part of a larger state. `Triple` is the usual pair
of postconditions, one for a return and one for a halt. `Keeps` is the frame
condition that goes with it, and `OnlyHalts` bounds the reasons. `Alike` says
that two programs have one effect. `Follows` compares a run with an abstract
result `Except ν β`: a return answers a success, a halt answers a failure of the
same kind, and a `spare` halt, one the abstraction does not speak of, answers
anything.
-/

namespace Refine

variable {ε σ τ α β : Type}

-- ---------------------------------------------------------------------------
-- Running on a part of the state
-- ---------------------------------------------------------------------------

/-- A part `τ` of a state `σ`, with the two laws its uses need. -/
structure Part (σ τ : Type) where
  get : σ → τ
  set : τ → σ → σ
  get_set : ∀ t s, get (set t s) = t
  set_set : ∀ t t' s, set t (set t' s) = set t s

def zoom (p : Part σ τ) (x : EStateM ε τ α) : EStateM ε σ α := fun s =>
  match x.run (p.get s) with
  | .ok a t => .ok a (p.set t s)
  | .error e t => .error e (p.set t s)

theorem run_zoom (p : Part σ τ) (x : EStateM ε τ α) (s : σ) :
    (zoom p x).run s = match x.run (p.get s) with
      | .ok a t => .ok a (p.set t s)
      | .error e t => .error e (p.set t s) := rfl

theorem run_zoom_ok {p : Part σ τ} {x : EStateM ε τ α} {s : σ} {a : α} {t : τ}
    (h : x.run (p.get s) = .ok a t) : (zoom p x).run s = .ok a (p.set t s) := by
  rw [run_zoom, h]

@[simp] theorem run_throw' (e : ε) (s : σ) : (throw e : EStateM ε σ α).run s = .error e s := rfl

theorem run_bind_ok {x : EStateM ε σ α} {s s' : σ} {a : α} (h : x.run s = .ok a s')
    (f : α → EStateM ε σ β) : (x >>= f).run s = (f a).run s' := by
  rw [EStateM.run_bind, h]

theorem run_bind_error {x : EStateM ε σ α} {s s' : σ} {e : ε} (h : x.run s = .error e s')
    (f : α → EStateM ε σ β) : (x >>= f).run s = .error e s' := by
  rw [EStateM.run_bind, h]

theorem zoom_bind (p : Part σ τ) (x : EStateM ε τ α) (f : α → EStateM ε τ β) :
    zoom p (x >>= f) = zoom p x >>= fun a => zoom p (f a) := by
  funext s
  change (zoom p (x >>= f)).run s = (zoom p x >>= fun a => zoom p (f a)).run s
  cases h : x.run (p.get s) with
  | ok a t =>
    rw [run_bind_ok (run_zoom_ok h), run_zoom, run_zoom, run_bind_ok h, p.get_set]
    cases (f a).run t with
    | ok b t' => simp [p.set_set]
    | error e t' => simp [p.set_set]
  | error e t =>
    have hzoom : (zoom p x).run s = .error e (p.set t s) := by rw [run_zoom, h]
    rw [run_bind_error hzoom, run_zoom, run_bind_error h]

def halted : EStateM.Result ε σ α → Option ε
  | .ok _ _ => none
  | .error e _ => some e

theorem exists_of_halted {r : EStateM.Result ε σ α} {e : ε} (h : halted r = some e) :
    ∃ s, r = .error e s := by
  cases r with
  | ok a s => cases h
  | error e' s =>
    cases h
    exact ⟨s, rfl⟩

def returned (p : α → σ → Bool) : EStateM.Result ε σ α → Bool
  | .ok a s => p a s
  | .error _ _ => false

theorem exists_of_returned {r : EStateM.Result ε σ α} {p : α → σ → Bool} (h : returned p r = true) :
    ∃ a s, r = .ok a s ∧ p a s = true := by
  cases r with
  | ok a s => exact ⟨a, s, rfl, h⟩
  | error e s => cases h

theorem run_bind_inv {x : EStateM ε σ α} {f : α → EStateM ε σ β} {s s'' : σ} {b : β}
    (h : (x >>= f).run s = .ok b s'') : ∃ a s', x.run s = .ok a s' ∧ (f a).run s' = .ok b s'' := by
  rw [EStateM.run_bind] at h
  cases hx : x.run s with
  | ok a s' =>
    rw [hx] at h
    exact ⟨a, s', rfl, h⟩
  | error e s' =>
    rw [hx] at h
    cases h

theorem run_pure_inv {s s' : σ} {a b : α} (h : (pure a : EStateM ε σ α).run s = .ok b s') :
    a = b ∧ s = s' := by
  injection h with ha hs
  exact ⟨ha, hs⟩

theorem run_discard {x : EStateM ε σ α} {s s' : σ} {a : α} (h : x.run s = .ok a s') :
    (discard x).run s = .ok () s' := by
  change EStateM.map (Function.const α ()) x s = _
  unfold EStateM.map
  rw [show x s = _ from h]

theorem run_discard_error {x : EStateM ε σ α} {s s' : σ} {e : ε} (h : x.run s = .error e s') :
    (discard x).run s = .error e s' := by
  change EStateM.map (Function.const α ()) x s = _
  unfold EStateM.map
  rw [show x s = _ from h]

theorem run_get_bind (f : σ → EStateM ε σ β) (s : σ) : (get >>= f).run s = (f s).run s := rfl

-- ---------------------------------------------------------------------------
-- Triples
-- ---------------------------------------------------------------------------

/-- Every return meets `Q` and every halt meets `E`. -/
def Triple (x : EStateM ε σ α) (s : σ) (Q : α → σ → Prop) (E : ε → σ → Prop) : Prop :=
  match x.run s with
  | .ok a s' => Q a s'
  | .error e s' => E e s'

namespace Triple

variable {x : EStateM ε σ α} {f : α → EStateM ε σ β} {s s' : σ} {a : α} {e : ε}
variable {Q Q' : α → σ → Prop} {R : β → σ → Prop} {E E' : ε → σ → Prop}

theorem of_run (h : x.run s = .ok a s') (hq : Q a s') : Triple x s Q E := by
  rw [Triple, h]; exact hq

theorem of_run_error (h : x.run s = .error e s') (he : E e s') : Triple x s Q E := by
  rw [Triple, h]; exact he

theorem ok (ht : Triple x s Q E) (h : x.run s = .ok a s') : Q a s' := by
  rwa [Triple, h] at ht

theorem error (ht : Triple x s Q E) (h : x.run s = .error e s') : E e s' := by
  rwa [Triple, h] at ht

theorem congr {y : EStateM ε σ α} {t : σ} (h : x.run s = y.run t) :
    Triple x s Q E ↔ Triple y t Q E := by
  unfold Triple
  rw [h]

theorem pure (hq : Q a s) : Triple (Pure.pure a : EStateM ε σ α) s Q E := of_run rfl hq

theorem look {f : σ → α} (hq : Q (f s) s) :
    Triple (do Pure.pure (f (← get)) : EStateM ε σ α) s Q E := of_run rfl hq

theorem throw (he : E e s) : Triple (throw e : EStateM ε σ α) s Q E := of_run_error rfl he

theorem bind (hx : Triple x s Q E) (hf : ∀ a s', Q a s' → Triple (f a) s' R E) :
    Triple (x >>= f) s R E := by
  unfold Triple at hx ⊢
  rw [EStateM.run_bind]
  cases h : x.run s with
  | ok a s' => rw [h] at hx; exact hf a s' hx
  | error e s' => rw [h] at hx; exact hx

theorem bind_run (h : x.run s = .ok a s') (hf : Triple (f a) s' R E) : Triple (x >>= f) s R E := by
  unfold Triple at hf ⊢
  rwa [run_bind_ok h]

theorem get_bind {g : σ → EStateM ε σ β} (hg : Triple (g s) s R E) : Triple (get >>= g) s R E :=
  bind_run (a := s) rfl hg

theorem mono (hx : Triple x s Q E) (hq : ∀ a s', Q a s' → Q' a s')
    (he : ∀ e s', E e s' → E' e s') : Triple x s Q' E' := by
  unfold Triple at hx ⊢
  cases h : x.run s with
  | ok a s' => rw [h] at hx; exact hq a s' hx
  | error e s' => rw [h] at hx; exact he e s' hx

theorem and (hx : Triple x s Q E) (hx' : Triple x s Q' E') :
    Triple x s (fun a s' => Q a s' ∧ Q' a s') fun e s' => E e s' ∧ E' e s' := by
  unfold Triple at hx hx' ⊢
  cases h : x.run s with
  | ok a s' => rw [h] at hx hx'; exact ⟨hx, hx'⟩
  | error e s' => rw [h] at hx hx'; exact ⟨hx, hx'⟩

theorem of_imp {P : Prop} (h : P → Triple x s Q fun _ _ => True) :
    Triple x s (fun a s' => P → Q a s') fun _ _ => True := by
  unfold Triple at h ⊢
  cases hx : x.run s with
  | ok a s' =>
    intro hp
    simpa [hx] using h hp
  | error e s' => trivial

theorem zoom {p : Part τ σ} {t : τ} (hx : Triple x (p.get t) Q E) :
    Triple (Refine.zoom p x) t (fun a t' => ∃ s', Q a s' ∧ t' = p.set s' t)
      (fun e t' => ∃ s', E e s' ∧ t' = p.set s' t) := by
  unfold Triple at hx ⊢
  rw [run_zoom]
  cases h : x.run (p.get t) with
  | ok a s' => rw [h] at hx; exact ⟨s', hx, rfl⟩
  | error e s' => rw [h] at hx; exact ⟨s', hx, rfl⟩

end Triple

-- ---------------------------------------------------------------------------
-- Frames
-- ---------------------------------------------------------------------------

/-- What `f` shows of the state stays as it is, whichever way a run ends. -/
def Keeps {γ : Type} (f : σ → γ) (x : EStateM ε σ α) : Prop :=
  ∀ s, Triple x s (fun _ s' => f s' = f s) fun _ s' => f s' = f s

namespace Keeps

variable {γ : Type} {f : σ → γ} {x : EStateM ε σ α} {g : α → EStateM ε σ β} {s s' : σ} {a : α}

theorem ok (h : Keeps f x) (hrun : x.run s = .ok a s') : f s' = f s := (h s).ok hrun

theorem preserves {P : γ → Prop} (h : Keeps f x) (hp : P (f s)) :
    Triple x s (fun _ s' => P (f s')) fun _ _ => True :=
  (h s).mono (fun _ _ hs => hs ▸ hp) fun _ _ _ => trivial

theorem pure (a : α) : Keeps f (Pure.pure a : EStateM ε σ α) := fun _ => Triple.pure rfl

theorem throw (e : ε) : Keeps f (throw e : EStateM ε σ α) := fun _ => Triple.throw rfl

theorem get : Keeps f (get : EStateM ε σ σ) := fun s => Triple.of_run (a := s) rfl rfl

theorem modify {u : σ → σ} (h : ∀ s, f (u s) = f s) : Keeps f (modify u : EStateM ε σ PUnit) :=
  fun s => Triple.of_run (a := ⟨⟩) rfl (h s)

theorem bind (hx : Keeps f x) (hg : ∀ a, Keeps f (g a)) : Keeps f (x >>= g) := by
  intro s
  refine Triple.bind (hx s) fun a s' hs => ?_
  exact (hg a s').mono (fun _ _ h => h.trans hs) fun _ _ h => h.trans hs

theorem zoom {p : Part σ τ} {y : EStateM ε τ α} (h : ∀ t s, f (p.set t s) = f s) :
    Keeps f (Refine.zoom p y) := by
  intro s
  unfold Triple
  rw [run_zoom]
  cases y.run (p.get s) with
  | ok a t => exact h t s
  | error e t => exact h t s

end Keeps

def Stable (P : σ → Prop) (x : EStateM ε σ α) : Prop :=
  ∀ s, P s → Triple x s (fun _ s' => P s') fun _ s' => P s'

namespace Stable

variable {P : σ → Prop} {x : EStateM ε σ α} {g : α → EStateM ε σ β} {s : σ}

theorem pure (a : α) : Stable P (Pure.pure a : EStateM ε σ α) := fun _ hp => Triple.pure hp

theorem throw (e : ε) : Stable P (throw e : EStateM ε σ α) := fun _ hp => Triple.throw hp

theorem bind (hx : Stable P x) (hg : ∀ a, Stable P (g a)) : Stable P (x >>= g) :=
  fun s hp => Triple.bind (hx s hp) fun a s' hp' => hg a s' hp'

theorem of_keeps {γ : Type} {f : σ → γ} {P : γ → Prop} (h : Keeps f x) :
    Stable (fun s => P (f s)) x := fun s hp =>
  (h s).mono (fun _ _ he => (congrArg P he).mpr hp) fun _ _ he => (congrArg P he).mpr hp

theorem after (hx : Triple x s (fun _ s' => P s') fun _ s' => P s')
    (hg : ∀ a, Stable P (g a)) :
    Triple (x >>= g) s (fun _ s' => P s') fun _ s' => P s' :=
  Triple.bind hx fun a s' hp => hg a s' hp

end Stable

/-- Every halt has a reason that meets `P`. -/
def OnlyHalts (P : ε → Prop) (x : EStateM ε σ α) : Prop :=
  ∀ s, Triple x s (fun _ _ => True) fun e _ => P e

namespace OnlyHalts

variable {P : ε → Prop} {x : EStateM ε σ α} {g : α → EStateM ε σ β} {e : ε}

theorem pure (a : α) : OnlyHalts P (Pure.pure a : EStateM ε σ α) := fun _ => Triple.pure trivial

theorem throw (he : P e) : OnlyHalts P (throw e : EStateM ε σ α) := fun _ => Triple.throw he

theorem modify (u : σ → σ) : OnlyHalts P (modify u : EStateM ε σ PUnit) :=
  fun _ => Triple.of_run (a := ⟨⟩) rfl trivial

theorem bind (hx : OnlyHalts P x) (hg : ∀ a, OnlyHalts P (g a)) : OnlyHalts P (x >>= g) :=
  fun s => Triple.bind (hx s) fun a s' _ => hg a s'

theorem zoom {p : Part σ τ} {y : EStateM ε τ α} (hy : OnlyHalts P y) :
    OnlyHalts P (Refine.zoom p y) := fun s =>
  (Triple.zoom (hy (p.get s))).mono (fun _ _ _ => trivial) fun _ _ ⟨_, he, _⟩ => he

end OnlyHalts

-- ---------------------------------------------------------------------------
-- Two programs with one effect
-- ---------------------------------------------------------------------------

/-- Both runs leave the same state, with results that `R` relates or a halt for
the same reason. -/
def Alike (R : α → β → Prop) (x : EStateM ε σ α) (y : EStateM ε σ β) (s : σ) : Prop :=
  match x.run s, y.run s with
  | .ok a s', .ok b s'' => s' = s'' ∧ R a b
  | .error e s', .error e' s'' => e = e' ∧ s' = s''
  | _, _ => False

namespace Alike

variable {α' β' : Type} {R R' : α → β → Prop} {S : α' → β' → Prop} {s : σ} {a : α} {b : β}
variable {x : EStateM ε σ α} {y : EStateM ε σ β} {f : α → EStateM ε σ α'} {g : β → EStateM ε σ β'}

theorem pure (h : R a b) :
    Alike R (Pure.pure a : EStateM ε σ α) (Pure.pure b : EStateM ε σ β) s := ⟨rfl, h⟩

theorem refl {R : α → α → Prop} (h : ∀ a, R a a) (x : EStateM ε σ α) (s : σ) : Alike R x x s := by
  unfold Alike
  cases x.run s with
  | ok a s' => exact ⟨rfl, h a⟩
  | error e s' => exact ⟨rfl, rfl⟩

theorem ite {c : Prop} [Decidable c] {x' : EStateM ε σ α} {y' : EStateM ε σ β}
    (h : c → Alike R x y s) (h' : ¬ c → Alike R x' y' s) :
    Alike R (if c then x else x') (if c then y else y') s := by
  split
  case isTrue hc => exact h hc
  case isFalse hc => exact h' hc

theorem same {P : α → Prop} {x y : EStateM ε σ α} (h : x.run s = y.run s)
    (hp : ∀ a s', x.run s = .ok a s' → P a) : Alike (fun a b => a = b ∧ P a) x y s := by
  unfold Alike
  rw [← h]
  cases hx : x.run s with
  | ok a s' => exact ⟨rfl, rfl, hp a s' hx⟩
  | error e s' => exact ⟨rfl, rfl⟩

theorem run_eq {x y : EStateM ε σ α} (h : Alike (· = ·) x y s) : x.run s = y.run s := by
  unfold Alike at h
  cases hx : x.run s <;> cases hy : y.run s <;> rw [hx, hy] at h
  case ok.ok a s' b s'' => rw [h.1, h.2]
  case error.error e s' e' s'' => rw [h.1, h.2]
  case ok.error => exact h.elim
  case error.ok => exact h.elim

theorem bind (hx : Alike R x y s) (hf : ∀ a b s', R a b → Alike S (f a) (g b) s') :
    Alike S (x >>= f) (y >>= g) s := by
  unfold Alike at hx ⊢
  rw [EStateM.run_bind, EStateM.run_bind]
  cases h : x.run s <;> cases h' : y.run s <;> rw [h, h'] at hx
  case ok.ok a s' b s'' =>
    obtain ⟨rfl, hr⟩ := hx
    exact hf a b s' hr
  case error.error => exact hx
  case ok.error => exact hx.elim
  case error.ok => exact hx.elim

theorem bind_run {b : β} {s' : σ} (hx : x.run s = .ok a s') (hy : y.run s = .ok b s')
    (hf : Alike S (f a) (g b) s') : Alike S (x >>= f) (y >>= g) s := by
  unfold Alike at hf ⊢
  rwa [run_bind_ok hx, run_bind_ok hy]

theorem get_bind_left {f : σ → EStateM ε σ α} (hf : Alike R (f s) y s) : Alike R (get >>= f) y s := by
  unfold Alike at hf ⊢
  rwa [run_get_bind]

theorem discard_right {R' : α → Unit → Prop} (hx : Alike R x y s) (hr : ∀ a b, R a b → R' a ()) :
    Alike R' x (discard y) s := by
  unfold Alike at hx ⊢
  cases h : x.run s <;> cases h' : y.run s <;> rw [h, h'] at hx
  case ok.ok a s' b s'' =>
    rw [run_discard h']
    exact ⟨hx.1, hr a b hx.2⟩
  case error.error =>
    rw [run_discard_error h']
    exact hx
  case ok.error => exact hx.elim
  case error.ok => exact hx.elim

theorem mono (hx : Alike R x y s) (hr : ∀ a b, R a b → R' a b) : Alike R' x y s := by
  unfold Alike at hx ⊢
  cases h : x.run s <;> cases h' : y.run s <;> rw [h, h'] at hx
  case ok.ok a s' b s'' => exact ⟨hx.1, hr a b hx.2⟩
  case error.error => exact hx
  case ok.error => exact hx.elim
  case error.ok => exact hx.elim

end Alike

-- ---------------------------------------------------------------------------
-- Following an abstract result
-- ---------------------------------------------------------------------------

/-- Which halts an abstraction leaves out, and which of its failures a halt
answers. -/
structure Halts (ε ν : Type) where
  spare : ε → Prop
  agree : ε → ν → Prop

variable {ν γ δ : Type}

def Follows (H : Halts ε ν) (x : EStateM ε σ α) (s : σ) (v : Except ν γ)
    (Q : α → σ → γ → Prop) : Prop :=
  match x.run s with
  | .ok a s' => ∃ b, v = .ok b ∧ Q a s' b
  | .error e _ => H.spare e ∨ ∃ n, v = .error n ∧ H.agree e n

@[simp] theorem ok_bind (c : γ) (g : γ → Except ν δ) : (Except.ok c >>= g) = g c := rfl

@[simp] theorem error_bind (n : ν) (g : γ → Except ν δ) : (Except.error n >>= g) = .error n := rfl

theorem bind_eq_ok {v : Except ν γ} {g : γ → Except ν δ} {d : δ} :
    (v >>= g) = .ok d ↔ ∃ c, v = .ok c ∧ g c = .ok d := by
  cases v with
  | error n => simp
  | ok c => simp

theorem bind_eq_error {v : Except ν γ} {g : γ → Except ν δ} {n : ν} :
    (v >>= g) = .error n ↔ v = .error n ∨ ∃ c, v = .ok c ∧ g c = .error n := by
  cases v with
  | error n => simp
  | ok c => simp

namespace Follows

variable {H : Halts ε ν} {x : EStateM ε σ α} {f : α → EStateM ε σ β} {s s' : σ} {a : α} {e : ε}
variable {v : Except ν γ} {g : γ → Except ν δ} {c : γ} {n : ν}
variable {Q Q' : α → σ → γ → Prop} {R : β → σ → δ → Prop}

theorem of_run (h : x.run s = .ok a s') (hq : Q a s' c) : Follows H x s (.ok c) Q := by
  rw [Follows, h]; exact ⟨c, rfl, hq⟩

theorem of_run_error (h : x.run s = .error e s') (he : H.agree e n) :
    Follows H x s (.error n) Q := by
  rw [Follows, h]; exact .inr ⟨n, rfl, he⟩

theorem of_run_spare (h : x.run s = .error e s') (he : H.spare e) : Follows H x s v Q := by
  rw [Follows, h]; exact .inl he

theorem pure (hq : Q a s c) : Follows H (Pure.pure a : EStateM ε σ α) s (.ok c) Q := of_run rfl hq

theorem throw (he : H.agree e n) : Follows H (throw e : EStateM ε σ α) s (.error n) Q :=
  of_run_error rfl he

theorem ok (hx : Follows H x s v Q) (h : x.run s = .ok a s') : ∃ c, v = .ok c ∧ Q a s' c := by
  rwa [Follows, h] at hx

theorem error (hx : Follows H x s v Q) (h : x.run s = .error e s') :
    H.spare e ∨ ∃ n, v = .error n ∧ H.agree e n := by
  rwa [Follows, h] at hx

/-- A followed success is reached unless a spare halt comes first. -/
theorem reaches (hx : Follows H x s (.ok c) Q) (hs : ∀ e s', x.run s = .error e s' → ¬ H.spare e) :
    ∃ a s', x.run s = .ok a s' ∧ Q a s' c := by
  cases h : x.run s with
  | ok a s' =>
    obtain ⟨c', hc, hq⟩ := hx.ok h
    cases hc
    exact ⟨a, s', rfl, hq⟩
  | error e s' =>
    rcases hx.error h with hsp | ⟨n, hn, -⟩
    · exact absurd hsp (hs e s' h)
    · cases hn

theorem fails (hx : Follows H x s (.error n) Q) (hs : ∀ e s', x.run s = .error e s' → ¬ H.spare e) :
    ∃ e s', x.run s = .error e s' ∧ H.agree e n := by
  cases h : x.run s with
  | ok a s' =>
    obtain ⟨c, hc, -⟩ := hx.ok h
    cases hc
  | error e s' =>
    rcases hx.error h with hsp | ⟨n', hn, he⟩
    · exact absurd hsp (hs e s' h)
    · cases hn
      exact ⟨e, s', rfl, he⟩

theorem bind (hx : Follows H x s v Q) (hf : ∀ a s' c, Q a s' c → Follows H (f a) s' (g c) R) :
    Follows H (x >>= f) s (v >>= g) R := by
  unfold Follows
  rw [EStateM.run_bind]
  cases h : x.run s with
  | ok a s' =>
    obtain ⟨c, rfl, hq⟩ := hx.ok h
    exact hf a s' c hq
  | error e s' =>
    rcases hx.error h with hsp | ⟨n, rfl, he⟩
    · exact .inl hsp
    · exact .inr ⟨n, rfl, he⟩

theorem bind_run {v : Except ν δ} (h : x.run s = .ok a s') (hf : Follows H (f a) s' v R) :
    Follows H (x >>= f) s v R := by
  unfold Follows at hf ⊢
  rw [run_bind_ok h]
  exact hf

/-- A silent first step: it returns or halts sparely. -/
theorem bind_silent {v : Except ν δ} {P : α → σ → Prop} (hx : Triple x s P fun e _ => H.spare e)
    (hf : ∀ a s', P a s' → Follows H (f a) s' v R) : Follows H (x >>= f) s v R := by
  cases h : x.run s with
  | ok a s' => exact bind_run h (hf a s' (hx.ok h))
  | error e s' => exact of_run_spare (run_bind_error h f) (hx.error h)

theorem of_silent (hx : Triple x s (fun a s' => Q a s' c) fun e _ => H.spare e) :
    Follows H x s (.ok c) Q := by
  cases h : x.run s with
  | ok a s' => exact of_run h (hx.ok h)
  | error e s' => exact of_run_spare h (hx.error h)

theorem then_silent {R : β → σ → γ → Prop} (hx : Follows H x s v Q)
    (hf : ∀ a s' c, Q a s' c → Triple (f a) s' (fun b s'' => R b s'' c) fun e _ => H.spare e) :
    Follows H (x >>= f) s v R := by
  have h : Follows H (x >>= f) s (v >>= fun c => .ok c) R :=
    bind hx fun a s' c hq => of_silent (hf a s' c hq)
  cases v with
  | ok c => exact h
  | error n => exact h

theorem bind_error (h : x.run s = .error e s') (he : H.agree e n) {R : β → σ → δ → Prop} :
    Follows H (x >>= f) s (.error n) R := of_run_error (run_bind_error h f) he

theorem mono (hx : Follows H x s v Q) (hq : ∀ a s' c, Q a s' c → Q' a s' c) :
    Follows H x s v Q' := by
  unfold Follows at hx ⊢
  cases h : x.run s with
  | ok a s' =>
    rw [h] at hx
    obtain ⟨c, hc, hq'⟩ := hx
    exact ⟨c, hc, hq a s' c hq'⟩
  | error e s' => rw [h] at hx; exact hx

theorem map {R : β → σ → γ → Prop} {k : α → β} (hx : Follows H x s v Q)
    (hq : ∀ a s' c, Q a s' c → R (k a) s' c) :
    Follows H (x >>= fun a => Pure.pure (k a)) s v R := by
  unfold Follows at hx ⊢
  rw [EStateM.run_bind]
  cases h : x.run s with
  | ok a s' =>
    rw [h] at hx
    obtain ⟨c, hc, hq'⟩ := hx
    exact ⟨c, hc, hq a s' c hq'⟩
  | error e s' => rw [h] at hx; exact hx

theorem map_right {R : α → σ → δ → Prop} {k : γ → δ} (hx : Follows H x s v Q)
    (hq : ∀ a s' c, Q a s' c → R a s' (k c)) :
    Follows H x s (v >>= fun c => Pure.pure (k c)) R := by
  unfold Follows at hx ⊢
  cases h : x.run s with
  | ok a s' =>
    rw [h] at hx
    obtain ⟨c, rfl, hq'⟩ := hx
    exact ⟨k c, rfl, hq a s' c hq'⟩
  | error e s' =>
    rw [h] at hx
    rcases hx with hsp | ⟨n, rfl, he⟩
    · exact .inl hsp
    · exact .inr ⟨n, rfl, he⟩

theorem of_map_right {R : α → σ → δ → Prop} {k : γ → δ}
    (hx : Follows H x s (v >>= fun c => Pure.pure (k c)) R) :
    Follows H x s v fun a s' c => R a s' (k c) := by
  unfold Follows at hx ⊢
  cases h : x.run s with
  | ok a s' =>
    rw [h] at hx
    obtain ⟨b, hb, hr⟩ := hx
    obtain ⟨c, rfl, hc⟩ := bind_eq_ok.mp hb
    cases hc
    exact ⟨c, rfl, hr⟩
  | error e s' =>
    rw [h] at hx
    rcases hx with hsp | ⟨n, hn, he⟩
    · exact .inl hsp
    · cases v with
      | ok c => cases hn
      | error m =>
        cases hn
        exact .inr ⟨n, rfl, he⟩

theorem map_error {μ : Type} {H' : Halts ε μ} {k : ν → μ} (hx : Follows H x s v Q)
    (hspare : ∀ e, H.spare e → H'.spare e) (hagree : ∀ e n, H.agree e n → H'.agree e (k n)) :
    Follows H' x s (v.mapError k) Q := by
  cases h : x.run s with
  | ok a s' =>
    obtain ⟨c, rfl, hq⟩ := hx.ok h
    exact of_run h hq
  | error e s' =>
    rcases hx.error h with hsp | ⟨n, rfl, he⟩
    · exact of_run_spare h (hspare e hsp)
    · exact of_run_error h (hagree e n he)

theorem remember (hx : Follows H x s v Q) :
    Follows H x s v fun a s' c => Q a s' c ∧ v = .ok c := by
  unfold Follows at hx ⊢
  cases h : x.run s with
  | ok a s' =>
    rw [h] at hx
    obtain ⟨c, hc, hq⟩ := hx
    exact ⟨c, hc, hq, hc⟩
  | error e s' => rw [h] at hx; exact hx

end Follows

end Refine
