import RplListener.Lib.Heap

/-!
# Requests that are minded

A program minds its requests when none that was refused is passed over: when it
returns, everything it asked for was granted. Which ways of halting may come
from something else, before a refused request was seen, is up to its user.
-/

/-- What was asked for between the two heaps was granted. -/
def Heap.Granted (os : Allocator) (h h' : Heap) : Prop :=
  h.asked ≤ h'.asked ∧ ∀ k, h.asked ≤ k → k < h'.asked → os.grant k = true

namespace Heap.Granted

variable {os : Allocator} {h h' h'' : Heap}

theorem of_asked (ha : h'.asked = h.asked) : h.Granted os h' :=
  ⟨Nat.le_of_eq ha.symm, fun k hle hlt => by omega⟩

theorem refl (h : Heap) : h.Granted os h := of_asked rfl

theorem next (hg : os.grant h.asked = true) (ha : h'.asked = h.asked + 1) : h.Granted os h' := by
  refine ⟨by omega, fun k hle hlt => ?_⟩
  obtain rfl : k = h.asked := by omega
  exact hg

theorem trans (h₁ : h.Granted os h') (h₂ : h'.Granted os h'') : h.Granted os h'' := by
  refine ⟨Nat.le_trans h₁.1 h₂.1, fun k hle hlt => ?_⟩
  by_cases hk : k < h'.asked
  · exact h₁.2 k hle hk
  · exact h₂.2 k (Nat.not_lt.mp hk) hlt

end Heap.Granted

namespace Heap

open Refine (Triple)

variable {ε α : Type} {os : Allocator} {h : Heap} {E : ε → Heap → Prop}

theorem request_granted :
    Triple (request os) h (fun r h' => r.isSome = true → h.Granted os h') E := by
  cases hg : os.grant h.asked with
  | true => exact Triple.of_run (a := some h.asked) (by simp [request, hg]; rfl) fun _ => .next hg rfl
  | false => exact Triple.of_run (a := none) (by simp [request, hg]; rfl) (by simp)

theorem attempt_granted : Triple (attempt os) h (fun r h' => r = true → h.Granted os h') E :=
  Triple.of_run (a := os.grant h.asked) rfl fun hg => .next hg rfl

theorem malloc_granted (n : Nat) :
    Triple (malloc os n) h (fun p h' => p.isNull = false → h.Granted os h') E := by
  refine Triple.bind request_granted fun r h' hr => ?_
  cases r with
  | none => exact Triple.pure (by simp)
  | some id => exact Triple.pure fun _ => hr rfl

theorem free_granted (p : Ptr α) : Triple (free p) h (fun _ h' => h.Granted os h') E := by
  refine Triple.of_run (a := ()) rfl (.of_asked ?_)
  cases p with
  | null | wild => rfl
  | block id c => dsimp only; split <;> rfl

theorem realloc_granted (p : Ptr α) :
    Triple (realloc os p) h (fun r h' => r.isSome = true → h.Granted os h') E := by
  refine Triple.bind request_granted fun r h' hr => ?_
  cases r with
  | none => exact Triple.pure (by simp)
  | some id => exact Triple.bind (free_granted p) fun _ h'' hf => Triple.pure fun _ => (hr rfl).trans hf

end Heap

namespace Refine

variable {ε σ τ α β : Type} {os : Allocator} {f : σ → Heap} {P : ε → Prop}

/-- A refused request makes the program halt, and not with `P`. -/
def Minds (os : Allocator) (f : σ → Heap) (P : ε → Prop) (x : EStateM ε σ α) : Prop :=
  ∀ s, Triple x s (fun _ s' => (f s).Granted os (f s')) fun e s' => P e → (f s).Granted os (f s')

namespace Minds

variable {x : EStateM ε σ α} {g : α → EStateM ε σ β}

theorem pure (a : α) : Minds os f P (Pure.pure a : EStateM ε σ α) := fun s =>
  Triple.pure (Heap.Granted.refl (f s))

theorem throw (e : ε) : Minds os f P (throw e : EStateM ε σ α) := fun s =>
  Triple.throw fun _ => Heap.Granted.refl (f s)

theorem get : Minds os f P (get : EStateM ε σ σ) := fun s =>
  Triple.of_run (a := s) rfl (Heap.Granted.refl (f s))

theorem modify {u : σ → σ} (h : ∀ s, f (u s) = f s) : Minds os f P (modify u : EStateM ε σ PUnit) :=
  fun s => Triple.of_run (a := ⟨⟩) rfl (.of_asked (congrArg Heap.asked (h s)))

theorem bind (hx : Minds os f P x) (hg : ∀ a, Minds os f P (g a)) : Minds os f P (x >>= g) := by
  intro s
  refine Triple.bind (hx s) fun a s' hs => ?_
  exact (hg a s').mono (fun _ _ h => hs.trans h) fun _ _ h he => hs.trans (h he)

/-- A request that is looked at: what follows one that was refused halts. -/
theorem bind_checked {Q : α → Prop}
    (hx : ∀ s, Triple x s (fun a s' => Q a → (f s).Granted os (f s')) fun _ _ => False)
    (hgood : ∀ a, Q a → Minds os f P (g a))
    (hbad : ∀ a s, ¬ Q a → Triple (g a) s (fun _ _ => False) fun e _ => ¬ P e) :
    Minds os f P (x >>= g) := by
  intro s
  refine Triple.bind ((hx s).mono (fun _ _ h => h) fun _ _ h => h.elim) fun a s' hs => ?_
  by_cases hq : Q a
  · exact (hgood a hq s').mono (fun _ _ h => (hs hq).trans h) fun _ _ h he => (hs hq).trans (h he)
  · exact (hbad a s' hq).mono (fun _ _ h => h.elim) fun _ _ h he => absurd he h

theorem zoom {p : Part σ τ} {g : τ → Heap} {y : EStateM ε τ α} (hf : ∀ t s, f (p.set t s) = g t)
    (hs : ∀ s, f s = g (p.get s)) (hy : Minds os g P y) : Minds os f P (Refine.zoom p y) := by
  intro s
  refine (Triple.zoom (hy (p.get s))).mono ?_ ?_
  · rintro a s' ⟨t, ht, rfl⟩
    rw [hf, hs]
    exact ht
  · rintro e s' ⟨t, ht, rfl⟩ he
    rw [hf, hs]
    exact ht he

theorem free (p : Ptr β) : Minds os id P (Heap.free p : EStateM ε Heap Unit) :=
  fun _ => Heap.free_granted p

end Minds

theorem Triple.zoom_granted {p : Part σ τ} {g : τ → Heap} {y : EStateM ε τ α} {s : σ} {Q : α → Prop}
    (hf : ∀ t s, f (p.set t s) = g t) (hs : f s = g (p.get s))
    (hy : Triple y (p.get s) (fun a t => Q a → (g (p.get s)).Granted os (g t)) fun _ _ => False) :
    Triple (Refine.zoom p y) s (fun a s' => Q a → (f s).Granted os (f s')) fun _ _ => False := by
  refine (Triple.zoom hy).mono ?_ ?_
  · rintro a s' ⟨t, ht, rfl⟩ hq
    rw [hf, hs]
    exact ht hq
  · rintro _ _ ⟨_, h, -⟩
    exact h

end Refine
