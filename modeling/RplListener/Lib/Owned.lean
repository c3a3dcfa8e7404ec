import RplListener.Lib.Heap
import Mathlib.Data.List.Perm.Basic

/-!
# Blocks with an owner

`Heap.Owned h ids` lists the live blocks by who holds them, and says that every
`free` so far was one of a live block. A program that starts and ends owned has
freed each block it gave up exactly once. Which pointer holds which block is up
to its user: `Ptr.ids` is what a single pointer holds.
-/

namespace Ptr

variable {α : Type}

def ids : Ptr α → List Nat
  | .block id _ => [id]
  | _ => []

@[simp] theorem ids_null : (null : Ptr α).ids = [] := rfl
@[simp] theorem ids_wild : (wild : Ptr α).ids = [] := rfl
@[simp] theorem ids_block (id : Nat) (c : α) : (block id c).ids = [id] := rfl

/-- NULL, or a block. -/
def Tame (p : Ptr α) : Prop := p ≠ .wild

@[simp] theorem tame_null : (null : Ptr α).Tame := fun h => nomatch h
@[simp] theorem tame_block (id : Nat) (c : α) : (block id c).Tame := fun h => nomatch h

end Ptr

namespace Heap

open Refine (Triple)

variable {ε α : Type} {os : Allocator} {h : Heap} {ids ids' : List Nat} {E : ε → Heap → Prop}

structure Owned (h : Heap) (ids : List Nat) : Prop where
  live : h.live.Perm ids
  nodup : ids.Nodup
  asked : ∀ id ∈ ids, id < h.asked
  sound : h.badFree = false

theorem Owned.perm (ho : h.Owned ids) (hp : ids.Perm ids') : h.Owned ids' where
  live := ho.live.trans hp
  nodup := hp.nodup ho.nodup
  asked id hid := ho.asked id (hp.mem_iff.mpr hid)
  sound := ho.sound

theorem owned_empty : ({} : Heap).Owned [] := ⟨.nil, .nil, by simp, rfl⟩

def granted (h : Heap) : Heap := { h with asked := h.asked + 1, live := h.asked :: h.live }

def refused (h : Heap) : Heap := { h with asked := h.asked + 1 }

theorem Owned.granted (ho : h.Owned ids) : h.granted.Owned (h.asked :: ids) where
  live := ho.live.cons _
  nodup := List.nodup_cons.mpr ⟨fun hid => Nat.lt_irrefl _ (ho.asked _ hid), ho.nodup⟩
  asked id hid := by
    obtain rfl | hid := List.mem_cons.mp hid
    · exact Nat.lt_succ_self _
    · exact Nat.lt_succ_of_lt (ho.asked id hid)
  sound := ho.sound

theorem Owned.refused (ho : h.Owned ids) : h.refused.Owned ids where
  live := ho.live
  nodup := ho.nodup
  asked id hid := Nat.lt_succ_of_lt (ho.asked id hid)
  sound := ho.sound

theorem request_run_granted (hg : os.grant h.asked = true) :
    (request os : EStateM ε Heap (Option Nat)).run h = .ok (some h.asked) h.granted := by
  simp [request, hg]
  rfl

theorem request_run_refused (hg : os.grant h.asked = false) :
    (request os : EStateM ε Heap (Option Nat)).run h = .ok none h.refused := by
  simp [request, hg]
  rfl

theorem request_owned (ho : h.Owned ids) :
    Triple (request os) h (fun r h' => h'.Owned (r.toList ++ ids)) E := by
  cases hg : os.grant h.asked with
  | true => exact Triple.of_run (request_run_granted hg) ho.granted
  | false => exact Triple.of_run (request_run_refused hg) ho.refused

theorem attempt_owned (ho : h.Owned ids) :
    Triple (attempt os) h (fun _ h' => h'.Owned ids) E :=
  Triple.of_run (a := os.grant h.asked) rfl ho.refused

theorem malloc_owned (ho : h.Owned ids) (n : Nat) :
    Triple (malloc os n) h (fun p h' => p.Tame ∧ h'.Owned (p.ids ++ ids)) E := by
  refine Triple.bind (request_owned ho) fun r h' hr => ?_
  cases r with
  | none => exact Triple.pure ⟨Ptr.tame_null, hr⟩
  | some id => exact Triple.pure ⟨Ptr.tame_block _ _, hr⟩

theorem free_run {p : Ptr α} (hp : p.Tame) (ho : h.Owned (p.ids ++ ids)) :
    ∃ h', (free p : EStateM ε Heap Unit).run h = .ok () h' ∧ h'.Owned ids ∧ h'.asked = h.asked := by
  cases p with
  | null => exact ⟨h, rfl, ho, rfl⟩
  | wild => exact absurd rfl hp
  | block id c =>
    have hmem : id ∈ h.live := ho.live.mem_iff.mpr List.mem_cons_self
    refine ⟨{ h with live := h.live.erase id }, by simp [free, hmem], ?_, rfl⟩
    have hlive := ho.live.erase id
    have hrest := List.nodup_cons.mp ho.nodup
    rw [Ptr.ids_block, List.singleton_append, List.erase_cons_head] at hlive
    exact ⟨hlive, hrest.2, fun id' hid => ho.asked id' (List.mem_cons_of_mem _ hid), ho.sound⟩

theorem free_owned {p : Ptr α} (hp : p.Tame) (ho : h.Owned (p.ids ++ ids)) :
    Triple (free p) h (fun _ h' => h'.Owned ids) E := by
  obtain ⟨h', hrun, ho', -⟩ := free_run hp ho
  exact Triple.of_run hrun ho'

theorem realloc_owned {p : Ptr α} (hp : p.Tame) (ho : h.Owned (p.ids ++ ids)) :
    Triple (realloc os p) h
      (fun r h' => (∃ id, r = some id ∧ h'.Owned (id :: ids)) ∨ r = none ∧ h'.Owned (p.ids ++ ids))
      E := by
  refine Triple.bind (request_owned ho) fun r h' hr => ?_
  cases r with
  | none => exact Triple.pure (.inr ⟨rfl, hr⟩)
  | some id =>
    have hnew : h'.Owned (id :: (p.ids ++ ids)) := hr
    have hr' : h'.Owned (p.ids ++ (id :: ids)) := hnew.perm List.perm_middle.symm
    exact Triple.bind (free_owned hp hr') fun _ h'' ho'' => Triple.pure (.inl ⟨id, rfl, ho''⟩)

-- ---------------------------------------------------------------------------
-- Pointers to nothing
-- ---------------------------------------------------------------------------

end Heap
