import RplListener.Listener.Heartbeats

/-!
# A rows event that is decoded

Which table map and which cache a rows event is decoded with, and what its
handling comes to: nothing is decoded, or the `try` block and what follows it
run on that cache.
-/

namespace RplListener

open Bytes Refine

variable {lib : Library} {os : Allocator} {w : World}
variable {ev : RowsLogEvent2} {map : TableMapLogEvent}

-- ---------------------------------------------------------------------------
-- Through the cache of a table
-- ---------------------------------------------------------------------------

def World.refill (w : World) (q : Nat) (t : ListeningTable) (s : FillState) : World :=
  { w with
    heap := s.heap
    obj := { w.obj with tables := w.obj.tables.set q { t with info := s.info } } }

def resultOf : EStateM.Result FillStop FillState ReplLogXRows → Except FillStop ReplLogXRows
  | .ok x _ => .ok x
  | .error e _ => .error e

def leftBy : EStateM.Result FillStop FillState ReplLogXRows → FillState
  | .ok _ s | .error _ s => s

theorem fillTable_result {q : Nat} {t : ListeningTable} (ht : w.obj.tables[q]? = some t) :
    (fillTable lib os ev map q).run w =
      .ok (resultOf ((fillRows lib os ev map w.obj.disp).run ⟨w.heap, t.info⟩))
        (w.refill q t (leftBy ((fillRows lib os ev map w.obj.disp).run ⟨w.heap, t.info⟩))) := by
  simp only [EStateM.run, fillTable, ht]
  cases fillRows lib os ev map w.obj.disp ⟨w.heap, t.info⟩ with
  | ok x s => rfl
  | error e s => rfl

-- ---------------------------------------------------------------------------
-- Which table map, which cache
-- ---------------------------------------------------------------------------

/-- The event is decoded with this table map, through the cache of this table. -/
structure World.Decodes (w : World) (ev : RowsLogEvent2) (map : TableMapLogEvent)
    (t : ListeningTable) : Prop where
  state : w.obj.state = .inprocess
  mapOf : w.obj.mapOf ev = some map
  table : ∃ q, watchedTable map w.obj.tables 0 none = some q ∧ w.obj.tables[q]? = some t

theorem World.Decodes.unique {map' : TableMapLogEvent} {t t' : ListeningTable}
    (h : w.Decodes ev map t) (h' : w.Decodes ev map' t') : map' = map ∧ t' = t := by
  obtain rfl : map' = map := Option.some.inj (h'.mapOf.symm.trans h.mapOf)
  obtain ⟨q, hq, ht⟩ := h.table
  obtain ⟨q', hq', ht'⟩ := h'.table
  obtain rfl : q' = q := Option.some.inj (hq'.symm.trans hq)
  exact ⟨rfl, Option.some.inj (ht'.symm.trans ht)⟩

/-- The transaction is opened before anything is allocated. -/
def World.opening (w : World) (ev : RowsLogEvent2) : World :=
  { w with
    error := none
    calls := w.calls ++ w.obj.starts ev.when
    obj := { w.obj with inTransaction := w.obj.started } }

/-- A rows event is decoded, or nothing is allocated for it. -/
theorem handleRows_cases (isRows : ev.typeCode.firstImage.isSome) :
    (∃ map t q, w.Decodes ev map t ∧ w.obj.tables[q]? = some t ∧
        (handleLeaf lib os (.rows ev isRows)).run w =
          (do let result ← fillTable lib os ev map q; finishRows result).run (w.opening ev)) ∨
      (∀ map t, ¬ w.Decodes ev map t) ∧
        ∃ error, (handleLeaf lib os (.rows ev isRows)).run w = .ok () { w with error } := by
  have hconvert := @convertToHeartbeat_listed { w with error := none } ev.typeCode
    (isRows_listed isRows).1 ev.when
  have hrun : (handleLeaf lib os (.rows ev isRows)).run w =
      (processRows lib os ev).run { w with error := none } :=
    (run_bind_ok (x := clearError) rfl _).trans (run_bind_ok hconvert _)
  rw [hrun]
  unfold processRows Access.processRows
  rw [direct_look_bind]
  dsimp only
  split
  case isFalse h => exact .inr ⟨fun map t hd => h hd.state, none, rfl⟩
  case isTrue h =>
    cases hm : w.obj.mapOf ev with
    | none =>
      refine .inr ⟨fun map t hd => ?_, _, rfl⟩
      have hmap := hd.mapOf
      rw [hm] at hmap
      cases hmap
    | some map =>
      dsimp only
      cases hq : watchedTable map w.obj.tables 0 none with
      | none =>
        refine .inr ⟨fun map' t hd => ?_, none, rfl⟩
        obtain ⟨q, hq', -⟩ := hd.table
        obtain rfl : map' = map := Option.some.inj (hd.mapOf.symm.trans hm)
        rw [hq'] at hq
        cases hq
      | some q =>
        have hlt := watchedTable_lt hq (by simp)
        rw [Nat.zero_add] at hlt
        have ht : w.obj.tables[q]? = some (w.obj.tables.get ⟨q, hlt⟩) := List.getElem?_eq_getElem hlt
        refine .inl ⟨map, _, q, ⟨h, hm, q, hq, ht⟩, ht, ?_⟩
        exact run_bind_ok (startTransaction_run ev.when) _

end RplListener
