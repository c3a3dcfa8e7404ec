import RplListener.Lib.Refine

/-!
# Two runs that agree

Two runs of a computation that may fail, under two settings. Their results are
related wherever there are two, and where the first run has a result and `P` is
met the second has one too.
-/

namespace Refine

variable {ν α β γ δ : Type} {P : Prop} {S : α → β → Prop} {T : γ → δ → Prop}
variable {v : Except ν α} {v' : Except ν β}

structure Agree (P : Prop) (S : α → β → Prop) (v : Except ν α) (v' : Except ν β) : Prop where
  reaches : ∀ a, v = .ok a → P → ∃ b, v' = .ok b
  related : ∀ a b, v = .ok a → v' = .ok b → S a b

namespace Agree

theorem ok {a : α} {b : β} (h : S a b) : Agree P S (.ok a : Except ν α) (.ok b) where
  reaches _ _ _ := ⟨b, rfl⟩
  related := by
    rintro _ _ ⟨⟩ ⟨⟩
    exact h

theorem error (n : ν) : Agree P S (.error n) v' where
  reaches _ h := by cases h
  related _ _ h := by cases h

theorem mono {S' : α → β → Prop} (h : Agree P S v v') (hs : ∀ a b, S a b → S' a b) :
    Agree P S' v v' where
  reaches := h.reaches
  related a b ha hb := hs a b (h.related a b ha hb)

theorem refl (v : Except ν α) : Agree P (· = ·) v v where
  reaches a h _ := ⟨a, h⟩
  related _ _ h h' := Except.ok.inj (h.symm.trans h')

theorem bind {f : α → Except ν γ} {f' : β → Except ν δ} (h : Agree P S v v')
    (hf : ∀ a b, S a b → Agree P T (f a) (f' b)) : Agree P T (v >>= f) (v' >>= f') where
  reaches c hc hP := by
    obtain ⟨a, ha, hc⟩ := bind_eq_ok.mp hc
    obtain ⟨b, hb⟩ := h.reaches a ha hP
    obtain ⟨d, hd⟩ := (hf a b (h.related a b ha hb)).reaches c hc hP
    exact ⟨d, bind_eq_ok.mpr ⟨b, hb, hd⟩⟩
  related c d hc hd := by
    obtain ⟨a, ha, hc⟩ := bind_eq_ok.mp hc
    obtain ⟨b, hb, hd⟩ := bind_eq_ok.mp hd
    exact (hf a b (h.related a b ha hb)).related c d hc hd

theorem bind_same {f : α → Except ν γ} {f' : α → Except ν δ} (v : Except ν α)
    (hf : ∀ a, Agree P T (f a) (f' a)) : Agree P T (v >>= f) (v >>= f') :=
  (refl v).bind fun a _ h => h ▸ hf a

theorem ite {c : Prop} [Decidable c] {x y : Except ν α} {x' y' : Except ν β}
    (hx : c → Agree P S x x') (hy : ¬ c → Agree P S y y') :
    Agree P S (if c then x else y) (if c then x' else y') := by
  by_cases hc : c
  · rw [if_pos hc, if_pos hc]
    exact hx hc
  · rw [if_neg hc, if_neg hc]
    exact hy hc

end Agree

end Refine
