import RplListener.Rows.Image
import Mathlib.Data.List.Forall2

/-!
# The cells of a block, whatever was in memory

`flatCells` is the flat block of some rows, made by the same steps that grow and
fill the real one, from the rows alone. The real cells are copies of these: only
the name of a block and what lies behind its text are their own. It says where
the values are even when the flat index wraps and rows are written over others.
-/

namespace RplListener

open Bytes Refine

/-- The same cell, but for the name of its block and what lies behind its text. -/
def ReplLogXValue.Copies (v c : ReplLogXValue) : Prop :=
  c.len = v.len ∧ c.isHex = v.isHex ∧ match v.val with
    | .block _ bs => ∃ id tail, c.val = .block id (bs ++ tail)
    | .null => c.val = .null
    | .wild => c.val = .wild

theorem ReplLogXValue.Copies.refl (v : ReplLogXValue) : v.Copies v := by
  refine ⟨rfl, rfl, ?_⟩
  cases hv : v.val with
  | null => rfl
  | wild => rfl
  | block id bs => exact ⟨id, [], by rw [List.append_nil]⟩

theorem ReplLogXValue.Copies.setLen {v c : ReplLogXValue} (h : v.Copies c) (len : Int) :
    ReplLogXValue.Copies { v with len } { c with len } := ⟨rfl, h.2.1, h.2.2⟩

def Rendered.write (r : Rendered) (old : ReplLogXValue) : ReplLogXValue :=
  match r with
  | .null => old
  | .hidden len isHex => { val := .null, len, isHex }
  | .text bs len isHex => { val := .block 0 (bs ++ [0]), len, isHex := isHex.getD old.isHex }

theorem Rendered.Applied.copies {r : Rendered} {v old new : ReplLogXValue} (h : r.Applied old new)
    (hv : v.Copies old) : (r.write v).Copies new := by
  cases r with
  | null =>
    obtain rfl : new = old := h
    exact hv
  | hidden len isHex =>
    obtain rfl := (h : new = _)
    exact .refl _
  | text bs len isHex =>
    obtain ⟨id, tail, rfl⟩ := h
    refine ⟨rfl, congrArg isHex.getD hv.2.1, id, tail, ?_⟩
    rw [List.append_assoc, List.singleton_append]

-- ---------------------------------------------------------------------------
-- Rows over rows
-- ---------------------------------------------------------------------------

/-- The cells from `k` on are those of the image's columns, over `cells`. -/
def writeCells : Nat → List (Option Rendered) → List ReplLogXValue → List ReplLogXValue
  | _, [], cells => cells
  | k, none :: rs, cells => writeCells (k + 1) rs cells
  | k, some r :: rs, cells =>
    writeCells (k + 1) rs (cells.modify k fun c => r.write { c with len := 0 })

def addRow (m : Nat) (x : Nat × List ReplLogXValue) (row : List (Option Rendered)) :
    Nat × List ReplLogXValue :=
  (x.1 + 1, writeCells (uint32 (x.1 * m)) row ((growCells x.2 x.1 m).getD x.2))

def flatCells (m : Nat) (rows : List (List (Option Rendered))) : List ReplLogXValue :=
  (rows.foldl (addRow m) (0, [])).2

@[simp] theorem flatCells_nil (m : Nat) : flatCells m [] = [] := rfl

theorem addRow_count (m : Nat) (rows : List (List (Option Rendered))) (x : Nat × List ReplLogXValue) :
    (rows.foldl (addRow m) x).1 = x.1 + rows.length := by
  induction rows generalizing x with
  | nil => rfl
  | cons row rows ih =>
    rw [List.foldl_cons, ih, List.length_cons]
    exact Nat.succ_add_eq_add_succ x.1 rows.length

theorem flatCells_concat (m : Nat) (rows : List (List (Option Rendered)))
    (row : List (Option Rendered)) :
    flatCells m (rows ++ [row]) = writeCells (uint32 (rows.length * m)) row
      ((growCells (flatCells m rows) rows.length m).getD (flatCells m rows)) := by
  have hcount := addRow_count m rows (0, [])
  rw [Nat.zero_add] at hcount
  unfold flatCells
  rw [List.foldl_append, List.foldl_cons, List.foldl_nil, ← hcount]
  rfl

theorem writeCells_absent (k n : Nat) (cells : List ReplLogXValue) :
    writeCells k (List.replicate n none) cells = cells := by
  induction n generalizing k with
  | zero => rfl
  | succ n ih => exact ih (k + 1)

-- ---------------------------------------------------------------------------
-- Copies
-- ---------------------------------------------------------------------------

abbrev CellsCopy : List ReplLogXValue → List ReplLogXValue → Prop := List.Forall₂ ReplLogXValue.Copies

theorem CellsCopy.refl (cells : List ReplLogXValue) : CellsCopy cells cells :=
  List.forall₂_same.mpr fun c _ => .refl c

theorem CellsCopy.modify {vs cs : List ReplLogXValue} (h : CellsCopy vs cs) {k : Nat}
    {f g : ReplLogXValue → ReplLogXValue}
    (hfg : ∀ v c, vs[k]? = some v → cs[k]? = some c → v.Copies c → (f v).Copies (g c)) :
    CellsCopy (vs.modify k f) (cs.modify k g) := by
  induction h generalizing k with
  | nil => simp [CellsCopy]
  | @cons v c vs cs hvc h ih =>
    cases k with
    | zero => exact .cons (hfg v c rfl rfl hvc) h
    | succ k => exact .cons hvc (ih hfg)

theorem absentCells_copy {vs cs : List ReplLogXValue} (h : CellsCopy vs cs) (k i count : Nat) :
    CellsCopy (absentCells k i count vs) (absentCells k i count cs) := by
  induction count generalizing i vs cs with
  | zero => exact h
  | succ count ih => exact ih (h.modify fun v c _ _ hvc => hvc.setLen _) (i + 1)

theorem growCells_copy {vs cs cs' : List ReplLogXValue} {n m : Nat} (h : CellsCopy vs cs)
    (hgrow : growCells cs n m = some cs') :
    CellsCopy ((growCells vs n m).getD vs) cs' := by
  have hlen : vs.length = cs.length := h.length_eq
  have hgrown : CellsCopy (vs ++ List.replicate ((n + 1) * m - vs.length) .junk)
      (cs ++ List.replicate ((n + 1) * m - cs.length) .junk) := by
    rw [hlen]
    exact List.rel_append h (CellsCopy.refl _)
  unfold growCells at hgrow ⊢
  generalize vs ++ List.replicate ((n + 1) * m - vs.length) ReplLogXValue.junk = gvs at hgrown ⊢
  generalize cs ++ List.replicate ((n + 1) * m - cs.length) ReplLogXValue.junk = gcs at hgrown hgrow
  unfold zeroCells at hgrow ⊢
  dsimp only at hgrow ⊢
  by_cases hle : uint32 (n * m) + m ≤ gcs.length
  · rw [if_pos hle] at hgrow
    rw [if_pos (hgrown.length_eq ▸ hle)]
    cases hgrow
    refine absentCells_copy ?_ _ _ _
    refine List.rel_append (List.rel_append (List.forall₂_take _ hgrown) (CellsCopy.refl _)) ?_
    exact List.forall₂_drop _ hgrown
  · rw [if_neg hle] at hgrow
    cases hgrow

end RplListener
