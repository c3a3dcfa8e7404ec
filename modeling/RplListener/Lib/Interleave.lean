import RplListener.Lib.Refine
import Mathlib.Logic.Function.Basic
import Mathlib.Logic.Relation
import Mathlib.Order.Basic

/-!
# Programs that are interleaved

A program is a tree of atomic steps on a shared state; `atomic` makes one step of
a whole `EStateM` program. A `System` is a family of programs, and a run follows a
schedule.

`Rules` are a rely-guarantee discipline: an invariant, what the steps of each
thread guarantee, and what is assumed of the schedule. A thread relies on the
moves of the others. `Tracks` compares a program among others with a sequential
one, through a part of the state that the others leave alone; what the program
looks at outside of that part are answers that the sequential one is given.
-/

namespace Interleave

open Refine

variable {ι ε σ τ α β γ : Type}

-- ---------------------------------------------------------------------------
-- Programs
-- ---------------------------------------------------------------------------

/-- `await` lets a program go on where its test holds. -/
inductive Prog (ε σ α : Type) where
  | ret (a : α)
  | halt (e : ε)
  | step (act : σ → σ) (next : σ → Prog ε σ α)
  | await (p : σ → Bool) (next : Prog ε σ α)

namespace Prog

protected def bind : Prog ε σ α → (α → Prog ε σ β) → Prog ε σ β
  | ret a, f => f a
  | halt e, _ => halt e
  | step act next, f => step act fun s => (next s).bind f
  | await p next, f => await p (next.bind f)

instance : Monad (Prog ε σ) where
  pure := ret
  bind := Prog.bind

@[simp] theorem ret_bind (a : α) (f : α → Prog ε σ β) : (ret a >>= f) = f a := rfl

@[simp] theorem pure_bind (a : α) (f : α → Prog ε σ β) : ((pure a : Prog ε σ α) >>= f) = f a := rfl

@[simp] theorem halt_bind (e : ε) (f : α → Prog ε σ β) : (halt e >>= f) = halt e := rfl

@[simp] theorem step_bind (act : σ → σ) (next : σ → Prog ε σ α) (f : α → Prog ε σ β) :
    (step act next >>= f) = step act fun s => next s >>= f := rfl

@[simp] theorem await_bind (p : σ → Bool) (next : Prog ε σ α) (f : α → Prog ε σ β) :
    (await p next >>= f) = await p (next >>= f) := rfl

end Prog

def leaves : EStateM.Result ε σ α → σ
  | .ok _ s => s
  | .error _ s => s

def resume : EStateM.Result ε σ α → Prog ε σ α
  | .ok a _ => .ret a
  | .error e _ => .halt e

def atomic (x : EStateM ε σ α) : Prog ε σ α :=
  .step (fun s => leaves (x.run s)) fun s => resume (x.run s)

def waitFor (p : σ → Bool) : Prog ε σ Unit := .await p (.ret ())

-- ---------------------------------------------------------------------------
-- Systems
-- ---------------------------------------------------------------------------

structure System (ι ε σ : Type) where
  state : σ
  code : ι → Prog ε σ Unit

namespace System

variable [DecidableEq ι]

/-- A thread that has ended, halted or has to wait changes nothing. -/
def step (c : System ι ε σ) (i : ι) : System ι ε σ :=
  match c.code i with
  | .ret _ => c
  | .halt _ => c
  | .step act next =>
    { state := act c.state, code := Function.update c.code i (next c.state) }
  | .await p next => if p c.state then { c with code := Function.update c.code i next } else c

def run (c : System ι ε σ) (schedule : List ι) : System ι ε σ := schedule.foldl step c

end System

-- ---------------------------------------------------------------------------
-- Rely and guarantee
-- ---------------------------------------------------------------------------

structure Rules (ι σ : Type) where
  inv : σ → Prop
  guar : ι → σ → σ → Prop
  assume : ι → σ → σ → Prop

namespace Rules

variable (D : Rules ι σ)

def moves (i : ι) (s s' : σ) : Prop := D.inv s ∧ D.inv s' ∧ D.guar i s s' ∧ D.assume i s s'

/-- What the other threads may do between two steps of `j`. -/
def rely (j : ι) : σ → σ → Prop := Relation.ReflTransGen fun s s' => ∃ i, i ≠ j ∧ D.moves i s s'

def Stable (j : ι) (P : σ → Prop) : Prop := ∀ s s', P s → D.rely j s s' → P s'

variable {D} {j : ι} {P Q : σ → Prop}

theorem Stable.of_moves (h : ∀ i s s', i ≠ j → P s → D.moves i s s' → P s') : D.Stable j P := by
  intro s s' hs hrely
  induction hrely with
  | refl => exact hs
  | tail _ hmove ih =>
    obtain ⟨i, hij, hm⟩ := hmove
    exact h i _ _ hij ih hm

end Rules

variable {D : Rules ι σ} {i : ι}

/-- Every step of the program, taken in a state the others may leave, meets the
rules, and what the program returns meets `Q`. -/
def Prog.Safe (D : Rules ι σ) (i : ι) : Prog ε σ α → (α → σ → Prop) → σ → Prop
  | .ret a, Q, s => ∀ s', D.rely i s s' → Q a s'
  | .halt _, _, _ => True
  | .step act next, Q, s => ∀ s', D.rely i s s' → D.inv s' → D.assume i s' (act s') →
    D.guar i s' (act s') ∧ D.inv (act s') ∧ (next s').Safe D i Q (act s')
  | .await p next, Q, s => ∀ s', D.rely i s s' → D.inv s' → p s' = true → next.Safe D i Q s'

namespace Prog.Safe

variable {c : Prog ε σ α} {f : α → Prog ε σ β} {Q Q' : α → σ → Prop} {R : β → σ → Prop} {s s' : σ}

theorem rely (h : c.Safe D i Q s) (hr : D.rely i s s') : c.Safe D i Q s' := by
  cases c with
  | ret a => exact fun s'' hr' => h s'' (hr.trans hr')
  | halt e => trivial
  | step act next => exact fun s'' hr' => h s'' (hr.trans hr')
  | await p next => exact fun s'' hr' => h s'' (hr.trans hr')

theorem bind (h : c.Safe D i (fun a s => (f a).Safe D i R s) s) : (c >>= f).Safe D i R s := by
  induction c generalizing s with
  | ret a => exact h s .refl
  | halt e => trivial
  | step act next ih =>
    intro s' hr hi ha
    obtain ⟨hg, hi', hnext⟩ := h s' hr hi ha
    exact ⟨hg, hi', ih s' hnext⟩
  | await p next ih => exact fun s' hr hi hp => ih (h s' hr hi hp)

theorem mono (h : c.Safe D i Q s) (hq : ∀ a s, Q a s → Q' a s) : c.Safe D i Q' s := by
  induction c generalizing s with
  | ret a => exact fun s' hr => hq a s' (h s' hr)
  | halt e => trivial
  | step act next ih =>
    intro s' hr hi ha
    obtain ⟨hg, hi', hnext⟩ := h s' hr hi ha
    exact ⟨hg, hi', ih s' hnext⟩
  | await p next ih => exact fun s' hr hi hp => ih (h s' hr hi hp)

theorem pure {a : α} (hq : D.Stable i (Q a)) (h : Q a s) :
    (Pure.pure a : Prog ε σ α).Safe D i Q s := fun s' hr => hq s s' h hr

theorem waitFor {p : σ → Bool} {P : σ → Prop} {Q : Unit → σ → Prop} (hP : D.Stable i P) (hs : P s)
    (hQ : D.Stable i (Q ())) (h : ∀ s, P s → D.inv s → p s = true → Q () s) :
    (waitFor p : Prog ε σ Unit).Safe D i Q s :=
  fun s' hr hi hp => pure hQ (h s' (hP s s' hs hr) hi hp)

theorem atomic {x : EStateM ε σ α} {P : σ → Prop} (hP : D.Stable i P) (hs : P s)
    (hQ : ∀ a, D.Stable i (Q a))
    (hx : ∀ s, P s → D.inv s → Triple x s
      (fun a s' => D.assume i s s' → D.guar i s s' ∧ D.inv s' ∧ Q a s')
      fun _ s' => D.assume i s s' → D.guar i s s' ∧ D.inv s') :
    (atomic x).Safe D i Q s := by
  intro s' hr hi ha
  have hx := hx s' (hP s s' hs hr) hi
  dsimp only at ha ⊢
  cases h : x.run s' with
  | ok a s'' =>
    rw [h] at ha
    obtain ⟨hg, hi', hq⟩ := hx.ok h ha
    exact ⟨hg, hi', pure (hQ a) hq⟩
  | error e s'' =>
    rw [h] at ha
    obtain ⟨hg, hi'⟩ := hx.error h ha
    exact ⟨hg, hi', trivial⟩

end Prog.Safe

/-- From `P`, every step meets the rules, and what is returned meets `Q`. -/
def Prog.Spec (D : Rules ι σ) (i : ι) (P : σ → Prop) (c : Prog ε σ α) (Q : α → σ → Prop) : Prop :=
  ∀ s, P s → c.Safe D i Q s

namespace Prog.Spec

variable {P P' : σ → Prop} {c : Prog ε σ α} {f : α → Prog ε σ β}
variable {Q Q' : α → σ → Prop} {R : β → σ → Prop}

theorem bind (hc : c.Spec D i P Q) (hf : ∀ a, (f a).Spec D i (Q a) R) : (c >>= f).Spec D i P R :=
  fun s hs => Safe.bind ((hc s hs).mono hf)

theorem pure {a : α} (hq : D.Stable i (Q a)) : (Pure.pure a : Prog ε σ α).Spec D i (Q a) Q :=
  fun _ hs => Safe.pure hq hs

theorem conseq (hc : c.Spec D i P Q) (hp : ∀ s, P' s → P s) (hq : ∀ a s, Q a s → Q' a s) :
    c.Spec D i P' Q' := fun s hs => (hc s (hp s hs)).mono hq

theorem weaken (hc : c.Spec D i P Q) (hq : ∀ a s, Q a s → Q' a s) : c.Spec D i P Q' :=
  hc.conseq (fun _ hs => hs) hq

theorem strengthen (hc : c.Spec D i P Q) (hp : ∀ s, P' s → P s) : c.Spec D i P' Q :=
  hc.conseq hp fun _ _ hs => hs

theorem waitFor {p : σ → Bool} {Q : Unit → σ → Prop} (hP : D.Stable i P) (hQ : D.Stable i (Q ()))
    (h : ∀ s, P s → D.inv s → p s = true → Q () s) :
    (waitFor p : Prog ε σ Unit).Spec D i P Q := fun _ hs => Safe.waitFor hP hs hQ h

theorem atomic {x : EStateM ε σ α} (hP : D.Stable i P) (hQ : ∀ a, D.Stable i (Q a))
    (hx : ∀ s, P s → D.inv s → Triple x s
      (fun a s' => D.assume i s s' → D.guar i s s' ∧ D.inv s' ∧ Q a s')
      fun _ s' => D.assume i s s' → D.guar i s s' ∧ D.inv s') :
    (atomic x).Spec D i P Q := fun _ hs => Safe.atomic hP hs hQ hx

end Prog.Spec

-- ---------------------------------------------------------------------------
-- Sequential programs
-- ---------------------------------------------------------------------------

def Sees (f : Nat → γ) (k : Nat) : List γ → Prop
  | [] => True
  | b :: bs => f k = b ∧ Sees f (k + 1) bs

theorem sees_append {f : Nat → γ} {k : Nat} {bs cs : List γ} :
    Sees f k (bs ++ cs) ↔ Sees f k bs ∧ Sees f (k + bs.length) cs := by
  induction bs generalizing k with
  | nil => simp [Sees]
  | cons b bs ih =>
    rw [List.cons_append, Sees, ih, Sees, List.length_cons, and_assoc, Nat.add_right_comm, Nat.add_assoc]

theorem Sees.congr {f g : Nat → γ} {k : Nat} {bs : List γ} (h : Sees f k bs)
    (hfg : ∀ i, k ≤ i → g i = f i) : Sees g k bs := by
  induction bs generalizing k with
  | nil => trivial
  | cons b bs ih =>
    exact ⟨(hfg k (Nat.le_refl k)).trans h.1, ih h.2 fun i hi => hfg i (Nat.le_of_succ_le hi)⟩

theorem exists_sees [Inhabited γ] (k : Nat) (bs : List γ) : ∃ f : Nat → γ, Sees f k bs := by
  induction bs generalizing k with
  | nil => exact ⟨fun _ => default, trivial⟩
  | cons b bs ih =>
    obtain ⟨f, hf⟩ := ih (k + 1)
    refine ⟨Function.update f k b, Function.update_self .., hf.congr fun i hi => ?_⟩
    exact Function.update_of_ne (Nat.ne_of_gt hi) ..

/-- With some answers from number `k` on, `x` goes from `t` to `t'`, and its result
is one that `R` says. -/
def Matched (x : (Nat → γ) → EStateM ε τ β) (R : Nat → α → β → Prop) (k : Nat) (t : τ) (a : α)
    (t' : τ) : Prop :=
  ∃ bs b, (∀ f, Sees f k bs → (x f).run t = .ok b t') ∧ R (k + bs.length) a b

/-- While `N` holds, the program does to a part of the state what `x` does. -/
def Prog.Tracks (D : Rules ι σ) (i : ι) (N : σ → Prop) (get : σ → τ) (k : Nat) (c : Prog ε σ α)
    (x : (Nat → γ) → EStateM ε τ β) (R : Nat → α → β → Prop) : Prop :=
  ∀ t, c.Spec D i (fun s => N s ∧ get s = t) fun a s => N s ∧ Matched x R k t a (get s)

namespace Prog.Tracks

variable {α' β' : Type} {N : σ → Prop} {get : σ → τ} {k : Nat} {c : Prog ε σ α}
variable {x : (Nat → γ) → EStateM ε τ β} {f : α → Prog ε σ α'} {g : β → (Nat → γ) → EStateM ε τ β'}
variable {R : Nat → α → β → Prop} {R' : Nat → α' → β' → Prop}

theorem stable (hN : ∀ t, D.Stable i fun s => N s ∧ get s = t) (P : τ → Prop) :
    D.Stable i fun s => N s ∧ P (get s) := by
  intro s s' hs hr
  obtain ⟨hn, hget⟩ := hN (get s) s s' ⟨hs.1, rfl⟩ hr
  exact ⟨hn, hget ▸ hs.2⟩

theorem step {y : EStateM ε σ α} (hN : ∀ t, D.Stable i fun s => N s ∧ get s = t)
    (h : ∀ s, N s → D.inv s → Triple y s
      (fun a s' => D.assume i s s' → D.guar i s s' ∧ D.inv s' ∧ N s' ∧
        Matched x R k (get s) a (get s'))
      fun _ s' => D.assume i s s' → D.guar i s s' ∧ D.inv s') :
    Tracks D i N get k (Interleave.atomic y) x R := by
  intro t
  refine Spec.atomic (hN t) (fun a => stable hN (Matched x R k t a)) ?_
  rintro s ⟨hn, rfl⟩ hi
  exact h s hn hi

theorem atomic {p : Part σ τ} {y : EStateM ε τ α} (hN : ∀ t, D.Stable i fun s => N s ∧ p.get s = t)
    (h : ∀ s, N s → D.inv s → Triple y (p.get s)
      (fun _ t => D.assume i s (p.set t s) → D.guar i s (p.set t s) ∧ D.inv (p.set t s) ∧
        N (p.set t s))
      fun _ t => D.assume i s (p.set t s) → D.guar i s (p.set t s) ∧ D.inv (p.set t s)) :
    Tracks D i N p.get k (Interleave.atomic (zoom p y)) (fun _ : Nat → γ => y)
      fun k' a b => k' = k ∧ a = b := by
  refine step hN fun s hn hi => ?_
  have hy := h s hn hi
  unfold Triple
  rw [run_zoom]
  cases hrun : y.run (p.get s) with
  | ok a t =>
    intro ha
    obtain ⟨hg, hi', hn'⟩ := hy.ok hrun ha
    exact ⟨hg, hi', hn', [], a, fun _ _ => by rw [p.get_set]; exact hrun, rfl, rfl⟩
  | error e t => exact hy.error hrun

theorem pure {a : α} {b : β} (hN : ∀ t, D.Stable i fun s => N s ∧ get s = t) (h : R k a b) :
    Tracks D i N get k (Pure.pure a : Prog ε σ α) (fun _ : Nat → γ => Pure.pure b) R := by
  intro t
  refine Spec.strengthen (Spec.pure (Q := fun a s => N s ∧ Matched _ R k t a (get s))
    (stable hN (Matched _ R k t a))) ?_
  rintro s ⟨hn, rfl⟩
  exact ⟨hn, [], b, fun _ _ => rfl, h⟩

theorem bind (hc : Tracks D i N get k c x R)
    (hf : ∀ k' a b, R k' a b → Tracks D i N get k' (f a) (g b) R') :
    Tracks D i N get k (c >>= f) (fun ω => x ω >>= fun b => g b ω) R' := by
  intro t
  refine Spec.bind (hc t) fun a s hs => ?_
  obtain ⟨hn, bs, b, hrun, hr⟩ := hs
  refine (hf _ a b hr (get s) s ⟨hn, rfl⟩).mono fun a' s' hs' => ?_
  obtain ⟨hn', cs, b', hrun', hr'⟩ := hs'
  refine ⟨hn', bs ++ cs, b', fun ω hω => ?_, ?_⟩
  · obtain ⟨hb, hc⟩ := sees_append.mp hω
    rw [run_bind_ok (hrun ω hb)]
    exact hrun' ω hc
  · rw [List.length_append, ← Nat.add_assoc]
    exact hr'

theorem bind_spec [Inhabited γ] {y : EStateM ε τ β} {Q : α' → σ → Prop} {t : τ}
    (hc : Tracks D i N get k c (fun _ : Nat → γ => y) R)
    (hf : ∀ k' a b t', R k' a b → y.run t = .ok b t' →
      (f a).Spec D i (fun s => N s ∧ get s = t') Q) :
    (c >>= f).Spec D i (fun s => N s ∧ get s = t) Q := by
  refine Spec.bind (hc t) fun a s hs => ?_
  obtain ⟨hn, bs, b, hrun, hr⟩ := hs
  obtain ⟨ω, hω⟩ := exists_sees k bs
  exact hf _ a b _ hr (hrun ω hω) s ⟨hn, rfl⟩

end Prog.Tracks

-- ---------------------------------------------------------------------------
-- Runs
-- ---------------------------------------------------------------------------

def Allowed [DecidableEq ι] (D : Rules ι σ) : System ι ε σ → List ι → Prop
  | _, [] => True
  | c, i :: is => D.assume i c.state (c.step i).state ∧ Allowed D (c.step i) is

structure System.Safe (D : Rules ι σ) (c : System ι ε σ) : Prop where
  inv : D.inv c.state
  code : ∀ i, (c.code i).Safe D i (fun _ _ => True) c.state

namespace System.Safe

variable [DecidableEq ι] {c : System ι ε σ}

theorem step (h : c.Safe D) (i : ι) (ha : D.assume i c.state (c.step i).state) :
    (c.step i).Safe D ∧ (D.guar i c.state (c.step i).state ∨ (c.step i).state = c.state) := by
  have hi := h.code i
  unfold System.step at ha ⊢
  split
  case h_1 => exact ⟨h, .inr rfl⟩
  case h_2 => exact ⟨h, .inr rfl⟩
  case h_3 act next hcode =>
    rw [hcode] at hi ha
    obtain ⟨hg, hinv, hnext⟩ := hi c.state .refl h.inv ha
    have hothers : ∀ j ≠ i, (c.code j).Safe D j (fun _ _ => True) (act c.state) := fun j hj =>
      (h.code j).rely (.single ⟨i, Ne.symm hj, h.inv, hinv, hg, ha⟩)
    have hcode : ∀ j, (Function.update c.code i (next c.state) j).Safe D j (fun _ _ => True)
        (act c.state) :=
      (Function.forall_update_iff c.code fun j p => p.Safe D j (fun _ _ => True) (act c.state)).mpr
        ⟨hnext, hothers⟩
    exact ⟨⟨hinv, hcode⟩, .inl hg⟩
  case h_4 p next hcode =>
    rw [hcode] at hi
    split
    case isTrue hp =>
      have hcode : ∀ j, (Function.update c.code i next j).Safe D j (fun _ _ => True) c.state :=
        (Function.forall_update_iff c.code fun j p => p.Safe D j (fun _ _ => True) c.state).mpr
          ⟨hi c.state .refl h.inv hp, fun j _ => h.code j⟩
      exact ⟨⟨h.inv, hcode⟩, .inr rfl⟩
    case isFalse => exact ⟨h, .inr rfl⟩

theorem run (h : c.Safe D) {schedule : List ι} (ha : Allowed D c schedule) :
    (c.run schedule).Safe D := by
  induction schedule generalizing c with
  | nil => exact h
  | cons i is ih => exact ih (h.step i ha.1).1 ha.2

/-- What no step takes back, no run does. -/
theorem run_le [Preorder γ] {f : σ → γ} (hf : ∀ i s s', D.guar i s s' → f s ≤ f s') (h : c.Safe D)
    {schedule : List ι} (ha : Allowed D c schedule) : f c.state ≤ f (c.run schedule).state := by
  induction schedule generalizing c with
  | nil => exact le_rfl
  | cons i is ih =>
    obtain ⟨hsafe, hg⟩ := h.step i ha.1
    refine le_trans ?_ (ih hsafe ha.2)
    rcases hg with hg | hsame
    · exact hf i _ _ hg
    · rw [hsame]

end System.Safe

theorem System.run_append [DecidableEq ι] (c : System ι ε σ) (schedule later : List ι) :
    c.run (schedule ++ later) = (c.run schedule).run later := List.foldl_append

theorem allowed_append [DecidableEq ι] {c : System ι ε σ} {schedule later : List ι} :
    Allowed D c (schedule ++ later) ↔ Allowed D c schedule ∧ Allowed D (c.run schedule) later := by
  induction schedule generalizing c with
  | nil => exact (and_iff_right trivial).symm
  | cons i is ih => exact (and_congr_right fun _ => ih).trans and_assoc.symm

end Interleave
