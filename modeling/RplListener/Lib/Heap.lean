import RplListener.Lib.Refine
import Mathlib.Data.List.Basic

/-!
# A heap of blocks

The heap keeps which blocks are live, not what they hold: a pointer carries
the contents of the block it owns. Whether a request is granted, and the bytes
a fresh block starts with, are decided by an `Allocator` outside the program,
so that a statement can quantify over every allocation outcome.
-/

/-- What the system answers to the `k`-th allocation request. -/
structure Allocator where
  grant : Nat → Bool
  junk : Nat → Nat → UInt8

def Allocator.Succeeds (os : Allocator) : Prop := ∀ k, os.grant k = true

theorem Allocator.exists_succeeds : ∃ os : Allocator, os.Succeeds :=
  ⟨⟨fun _ => true, fun _ _ => 0⟩, fun _ => rfl⟩

/-- Requests are counted, and a block is named by its request. `badFree` is
set when something other than a live block is freed. -/
structure Heap where
  asked : Nat := 0
  live : List Nat := []
  badFree : Bool := false
  deriving DecidableEq, Repr

inductive Ptr (α : Type) where
  | null
  /-- The contents of memory that was never written. -/
  | wild
  | block (id : Nat) (contents : α)
  deriving DecidableEq, Repr

namespace Ptr

variable {α : Type}

def isNull : Ptr α → Bool
  | .null => true
  | _ => false

@[simp] theorem isNull_null : (null : Ptr α).isNull = true := rfl
@[simp] theorem isNull_wild : (wild : Ptr α).isNull = false := rfl
@[simp] theorem isNull_block (id : Nat) (c : α) : (block id c).isNull = false := rfl

end Ptr

namespace Heap

open Refine (Triple)

variable {ε α : Type} (os : Allocator)

/-- One allocation request: the name of the new block, or `none`. -/
def request : EStateM ε Heap (Option Nat) := do
  let h ← get
  if os.grant h.asked then
    set { h with asked := h.asked + 1, live := h.asked :: h.live }
    pure (some h.asked)
  else
    set { h with asked := h.asked + 1 }
    pure none

/-- A request whose block is owned by a library and not followed here. -/
def attempt : EStateM ε Heap Bool := do
  let h ← get
  set { h with asked := h.asked + 1 }
  pure (os.grant h.asked)

def malloc (n : Nat) : EStateM ε Heap (Ptr (List UInt8)) := do
  match ← request os with
  | some id => pure (.block id ((List.range n).map (os.junk id)))
  | none => pure .null

def free (p : Ptr α) : EStateM ε Heap Unit :=
  modify fun h => match p with
    | .null => h
    | .wild => { h with badFree := true }
    | .block id _ =>
      if id ∈ h.live then { h with live := h.live.erase id } else { h with badFree := true }

/-- `realloc`: on success the old block is gone and the new one is named. -/
def realloc (p : Ptr α) : EStateM ε Heap (Option Nat) := do
  match ← request os with
  | some id =>
    free p
    pure (some id)
  | none => pure none

variable {os} {h : Heap}

theorem request_triple {E : ε → Heap → Prop} :
    Triple (request os) h (fun r _ => r = none → ¬ os.Succeeds) E := by
  by_cases hg : os.grant h.asked = true
  · exact Triple.of_run (a := some h.asked) (by simp [request, hg]; rfl) (by simp)
  · refine Triple.of_run (a := none) (by simp [request, hg]; rfl) fun _ hs => hg (hs _)

theorem attempt_triple {E : ε → Heap → Prop} :
    Triple (attempt os) h (fun r _ => r = false → ¬ os.Succeeds) E :=
  Triple.of_run (a := os.grant h.asked) rfl fun hr hs => by simp [hs h.asked] at hr

theorem malloc_triple {E : ε → Heap → Prop} (n : Nat) :
    Triple (malloc os n) h (fun p _ => (p = .null ∧ ¬ os.Succeeds) ∨
      ∃ id bs, p = .block id bs ∧ bs.length = n) E := by
  refine Triple.bind request_triple fun r h' hr => ?_
  cases r with
  | none => exact Triple.pure (.inl ⟨rfl, hr rfl⟩)
  | some id => exact Triple.pure (.inr ⟨id, _, rfl, by simp⟩)

theorem realloc_triple {E : ε → Heap → Prop} (p : Ptr α) :
    Triple (realloc os p) h (fun r _ => r = none → ¬ os.Succeeds) E := by
  refine Triple.bind request_triple fun r h' hr => ?_
  cases r with
  | none => exact Triple.pure hr
  | some id => exact Triple.of_run (a := some id) rfl (by simp)

end Heap
