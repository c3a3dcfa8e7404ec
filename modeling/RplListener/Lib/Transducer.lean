import Mathlib.Data.List.Basic

/-!
# Transducers

A machine that reads a list and writes for every symbol it reads. What it has
written is determined by the state it started in.
-/

namespace Refine

structure Transducer (σ α β : Type) where
  next : σ → α → σ
  out : σ → α → List β

namespace Transducer

variable {σ α β : Type} (m : Transducer σ α β)

def after (s : σ) (xs : List α) : σ := xs.foldl m.next s

def trace : σ → List α → List β
  | _, [] => []
  | s, x :: xs => m.out s x ++ trace (m.next s x) xs

variable {m} {s : σ} {x : α} {xs ys : List α}

@[simp] theorem after_nil : m.after s [] = s := rfl

@[simp] theorem after_cons : m.after s (x :: xs) = m.after (m.next s x) xs := rfl

@[simp] theorem trace_nil : m.trace s [] = [] := rfl

@[simp] theorem trace_cons : m.trace s (x :: xs) = m.out s x ++ m.trace (m.next s x) xs := rfl

@[simp] theorem after_append : m.after s (xs ++ ys) = m.after (m.after s xs) ys :=
  List.foldl_append

@[simp] theorem trace_append :
    m.trace s (xs ++ ys) = m.trace s xs ++ m.trace (m.after s xs) ys := by
  induction xs generalizing s with
  | nil => rfl
  | cons x xs ih => rw [List.cons_append, trace_cons, ih, trace_cons, after_cons, List.append_assoc]

theorem trace_filter {p : α → Bool} (h : ∀ x, p x = false → ∀ s, m.out s x = [] ∧ m.next s x = s) :
    m.trace s (xs.filter p) = m.trace s xs := by
  induction xs generalizing s with
  | nil => rfl
  | cons x xs ih =>
    cases hx : p x with
    | true => rw [List.filter_cons_of_pos hx, trace_cons, trace_cons, ih]
    | false =>
      obtain ⟨hout, hnext⟩ := h x hx s
      rw [List.filter_cons_of_neg (by simp [hx]), trace_cons, hout, hnext, ih, List.nil_append]

end Transducer

/-- What is read on the way from one state to another. -/
inductive Path {σ α : Type} (next : σ → α → σ → Prop) : σ → List α → σ → Prop
  | nil {s : σ} : Path next s [] s
  | cons {s t u : σ} {x : α} {xs : List α} (first : next s x t) (rest : Path next t xs u) :
    Path next s (x :: xs) u

namespace Path

variable {σ α : Type} {next : σ → α → σ → Prop} {s t : σ} {x : α} {xs ys : List α}

theorem append_inv (h : Path next s (xs ++ ys) t) : ∃ u, Path next s xs u ∧ Path next u ys t := by
  induction xs generalizing s with
  | nil => exact ⟨s, .nil, h⟩
  | cons x xs ih =>
    cases h with
    | cons first rest =>
      obtain ⟨u, hxs, hys⟩ := ih rest
      exact ⟨u, .cons first hxs, hys⟩

theorem singleton_inv (h : Path next s [x] t) : next s x t := by
  cases h with
  | cons first rest =>
    cases rest with
    | nil => exact first

end Path

end Refine
