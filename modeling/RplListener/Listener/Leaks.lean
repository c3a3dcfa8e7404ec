import RplListener.Listener.Released
import RplListener.Listener.Decodes
import RplListener.Listener.Columns
import RplListener.Listener.Integers

/-!
# When a rows event leaves nothing behind

The listener owns the blocks of its caches. A rows event that is handled leaves
it so, unless the structure is cleared while it is not one: an exception comes
before it is set up, or it is left with a pointer to an array that was freed.
-/

namespace RplListener

open Bytes Refine

variable {lib : Library} {os : Allocator} {needStop : Nat → Bool} {base : List Nat} {w w' : World}
variable {ev : RowsLogEvent2} {map : TableMapLogEvent}

-- ---------------------------------------------------------------------------
-- What the listener owns
-- ---------------------------------------------------------------------------

def cacheIds (tables : List ListeningTable) : List Nat := tables.flatMap fun t => t.info.columns.ids

/-- The live blocks are those of the caches and the ones that were there before. -/
structure World.Sound (base : List Nat) (w : World) : Prop where
  roomy : ∀ t ∈ w.obj.tables, t.info.Roomy
  owned : w.heap.Owned (cacheIds w.obj.tables ++ base)

theorem World.Sound.of_fresh (ht : ∀ t ∈ w.obj.tables, t.info = {}) (ho : w.heap.Owned base) :
    w.Sound base := by
  have hids : cacheIds w.obj.tables = [] := by
    refine List.flatMap_eq_nil_iff.mpr fun t h => ?_
    rw [ht t h]
    rfl
  refine ⟨fun t h => ?_, by rwa [hids]⟩
  rw [ht t h]
  trivial

theorem cacheIds_perm {tables : List ListeningTable} {q : Nat} {t : ListeningTable}
    (ht : tables[q]? = some t) :
    (cacheIds tables).Perm (t.info.columns.ids ++ cacheIds (tables.eraseIdx q)) := by
  obtain ⟨hq, rfl⟩ := List.getElem?_eq_some_iff.mp ht
  exact (List.getElem_cons_eraseIdx_perm hq).symm.flatMap_right _

theorem World.Sound.table {q : Nat} {t : ListeningTable} (h : w.Sound base)
    (ht : w.obj.tables[q]? = some t) :
    FillState.Sound (cacheIds (w.obj.tables.eraseIdx q) ++ base) ⟨w.heap, t.info⟩ := by
  refine ⟨h.roomy t (List.mem_of_getElem? ht), h.owned.perm ?_⟩
  have hperm := (cacheIds_perm ht).append_right base
  rwa [List.append_assoc] at hperm

theorem World.Sound.back {q : Nat} {t : ListeningTable} {info : TblInfo} {heap : Heap}
    (h : w.Sound base) (ht : w.obj.tables[q]? = some t) (hr : info.Roomy)
    (ho : heap.Owned (info.columns.ids ++ (cacheIds (w.obj.tables.eraseIdx q) ++ base)))
    {w' : World} (htables : w'.obj.tables = w.obj.tables.set q { t with info })
    (hheap : w'.heap = heap) : w'.Sound base := by
  have hq : q < w.obj.tables.length := (List.getElem?_eq_some_iff.mp ht).1
  have hset : (w.obj.tables.set q { t with info })[q]? = some { t with info } := by
    simp [hq]
  refine ⟨fun t' ht' => ?_, ?_⟩
  · rw [htables] at ht'
    obtain ht' | rfl := List.mem_or_eq_of_mem_set ht'
    · exact h.roomy t' ht'
    · exact hr
  · rw [htables, hheap]
    refine ho.perm ?_
    have hperm := (cacheIds_perm hset).append_right base
    rw [List.eraseIdx_set_eq, List.append_assoc] at hperm
    exact hperm.symm

-- ---------------------------------------------------------------------------
-- Delivering
-- ---------------------------------------------------------------------------

theorem clearRows_sound {x : ReplLogXRows} {ids : List Nat} (hx : x.Settled ids w.heap) :
    Triple (clearRows x) w (fun _ w' => w'.obj = w.obj ∧ w'.heap.Owned ids)
      fun _ w' => w'.heap.Owned ids := by
  refine (Triple.zoom (p := World.heapPart)
    (replLogXRowsClear_owned (E := fun _ _ => False) hx)).mono ?_ ?_
  · rintro _ _ ⟨heap, ho, rfl⟩
    exact ⟨rfl, ho⟩
  · rintro _ _ ⟨_, hf, -⟩
    exact hf.elim

def ResultSettled (ids : List Nat) (h : Heap) : Except FillStop ReplLogXRows → Prop
  | .ok x => x.Settled ids h
  | .error e => e.Settled ids h

theorem finishRows_sound {result : Except FillStop ReplLogXRows} {ids : List Nat}
    (h : ResultSettled ids w.heap result) :
    Triple (finishRows result) w
      (fun _ w' => w'.obj.tables = w.obj.tables ∧ w'.heap.Owned ids)
      fun _ w' => w'.heap.badFree = false := by
  have hfail {x : ReplLogXRows} (hx : x.Settled ids w.heap) (desc : String) :
      Triple (do clearRows x; setError desc) w
        (fun _ w' => w'.obj.tables = w.obj.tables ∧ w'.heap.Owned ids)
        fun _ w' => w'.heap.badFree = false := by
    refine Triple.bind ((clearRows_sound hx).mono (fun _ _ h => h) fun _ _ ho => ho.sound) ?_
    rintro _ w₁ ⟨hobj, ho⟩
    exact Triple.of_run (a := ()) rfl ⟨congrArg Listener.tables hobj, ho⟩
  cases result with
  | error e =>
    cases e with
    | failed desc => exact Triple.of_run (a := ()) rfl ⟨rfl, h⟩
    | thrown what x => exact hfail h what
    | stopped desc x => exact hfail h desc
    | memory => exact Triple.throw h
  | ok x =>
    have hclear {w₁ : World} (hw : w₁.obj = w.obj) (hx : x.Settled ids w₁.heap) :
        Triple (clearRows x) w₁
          (fun _ w' => w'.obj.tables = w.obj.tables ∧ w'.heap.Owned ids)
          fun _ w' => w'.heap.badFree = false := by
      refine (clearRows_sound hx).mono ?_ fun _ _ ho => ho.sound
      rintro _ w' ⟨hobj, ho⟩
      exact ⟨by rw [hobj, hw], ho⟩
    unfold finishRows Access.finishRows
    refine triple_look_bind ?_
    dsimp only
    split
    case isTrue hr => exact Triple.bind_run (call_run hr _) (hclear rfl h)
    case isFalse => exact hclear rfl h

section

variable {q : Nat} {t : ListeningTable} (ht : w.obj.tables[q]? = some t)

include ht

theorem fillTable_sound (hs : w.Sound base)
    (hfill : Triple (fillRows lib os ev map w.obj.disp) ⟨w.heap, t.info⟩
      (fun x s' => s'.info.Roomy ∧ x.Settled
        (s'.info.columns.ids ++ (cacheIds (w.obj.tables.eraseIdx q) ++ base)) s'.heap)
      fun e s' => s'.info.Roomy ∧ e.Settled
        (s'.info.columns.ids ++ (cacheIds (w.obj.tables.eraseIdx q) ++ base)) s'.heap) :
    Triple (do let result ← fillTable lib os ev map q; finishRows result) w
      (fun _ w' => w'.Sound base) fun _ w' => w'.heap.badFree = false := by
  have hback {result : Except FillStop ReplLogXRows} {s' : FillState} (hr : s'.info.Roomy)
      (h : ResultSettled (s'.info.columns.ids ++ (cacheIds (w.obj.tables.eraseIdx q) ++ base)) s'.heap
        result) :
      Triple (finishRows result) (w.refill q t s') (fun _ w' => w'.Sound base)
        fun _ w' => w'.heap.badFree = false := by
    refine (finishRows_sound h).mono ?_ fun _ _ hb => hb
    rintro _ w' ⟨htables, ho⟩
    exact hs.back ht hr ho htables rfl
  refine Triple.bind_run (fillTable_result ht) ?_
  cases hrun : (fillRows lib os ev map w.obj.disp).run ⟨w.heap, t.info⟩ with
  | ok x s' =>
    obtain ⟨hr, hx⟩ := hfill.ok hrun
    exact hback hr hx
  | error e s' =>
    obtain ⟨hr, he⟩ := hfill.error hrun
    exact hback hr he

end

-- ---------------------------------------------------------------------------
-- The event
-- ---------------------------------------------------------------------------

/-- The constructor of the metadata throws while the structure is not set up. -/
def World.Unset (lib : Library) (os : Allocator) (w : World) (ev : RowsLogEvent2) : Prop :=
  ∃ map t, w.Decodes ev map t ∧ FillState.Unset lib os map ⟨w.heap, t.info⟩

def World.OneArray (lib : Library) (os : Allocator) (w : World) (ev : RowsLogEvent2) : Prop :=
  ∃ map t, w.Decodes ev map t ∧ FillState.OneArray lib os map ⟨w.heap, t.info⟩

def World.ManyCells (lib : Library) (w : World) (ev : RowsLogEvent2) : Prop :=
  ∃ map t, w.Decodes ev map t ∧ RplListener.ManyCells lib ev map w.obj.disp

/-- Every block that was allocated for the structure is freed, and nothing else is:
afterwards the caches and what was there before are all that is live. -/
structure RowsReleased (lib : Library) (os : Allocator) (base : List Nat) (ev : RowsLogEvent2)
    (isRows : ev.typeCode.firstImage.isSome) (w : World) : Prop where
  ends : Triple (handleLeaf lib os (.rows ev isRows)) w (fun _ w' => w'.Sound base)
    fun _ w' => w'.heap.badFree = false

section

variable (isRows : ev.typeCode.firstImage.isSome) (hs : w.Sound base)

include hs

theorem rows_sound (hunset : ¬ w.Unset lib os ev) (hone : ¬ w.OneArray lib os ev)
    (hcells : ¬ w.ManyCells lib ev) : RowsReleased lib os base ev isRows w := by
  obtain ⟨map, t, q, hd, ht, hrun⟩ | ⟨-, error, hrun⟩ := @handleRows_cases lib os w ev isRows
  · have hs' : (w.opening ev).Sound base := ⟨hs.roomy, hs.owned⟩
    refine ⟨(Triple.congr hrun).mpr (fillTable_sound (t := t) ht hs' ?_)⟩
    refine fillRows_settled (hs.table ht) ?_ ?_ ?_
    · exact fun h => hunset ⟨map, t, hd, h⟩
    · exact fun h => hone ⟨map, t, hd, h⟩
    · exact fun h => hcells ⟨map, t, hd, h⟩
  · exact ⟨Triple.of_run hrun ⟨hs.roomy, hs.owned⟩⟩

end

def sampleListening : ListeningTable := { dbName := ascii "d", tblName := ascii "t" }

theorem mappedWorld_sound : (mappedWorld sampleTable).Sound [] := by
  refine .of_fresh (fun t ht => ?_) Heap.owned_empty
  obtain rfl : t = sampleListening := List.mem_singleton.mp ht
  rfl

def Visit.Clears (lib : Library) (os : Allocator) (v : Visit) : Prop :=
  match v.1 with
  | .event (.rows ev _) =>
    ¬ v.2.Unset lib os ev ∧ ¬ v.2.OneArray lib os ev ∧ ¬ v.2.ManyCells lib ev
  | _ => True

theorem Step.sound {x : Handled} (h : Step os w x w') (hx : ∀ ev isRows, x ≠ .event (.rows ev isRows))
    (hs : w.Sound base) : w'.Sound base := by
  have hask : w.ask.Sound base := ⟨hs.roomy, hs.owned.refused⟩
  cases h with
  | rows => exact absurd rfl (hx _ _)
  | noMem | opens | commits | closes | query => exact ⟨hask.roomy, hask.owned⟩
  | @other type =>
    cases type.isGtid
    · exact ⟨hs.roomy, hs.owned⟩
    · exact ⟨hs.roomy, hs.owned⟩
  | formatDescription | tableMap | rotate | xid | xaPrepareLog | noDescription | heartbeat =>
    exact ⟨hs.roomy, hs.owned⟩

theorem sound_invariant : Invariant lib os (fun w _ => w.Sound base) (Visit.Clears lib os)
    fun _ w _ => w.heap.badFree = false where
  rpl _ hs := ⟨hs.roomy, hs.owned⟩
  fail _ hs := ⟨hs.roomy, hs.owned⟩
  step {w _} x he hs hG := by
    have hother (hx : ∀ ev isRows, x ≠ .event (.rows ev isRows)) : Triple (handle lib os x) w
        (fun _ w' => w'.Sound base) fun _ w' => w'.heap.badFree = false := by
      refine (handle_step he x).mono (fun _ _ h => h.sound hx hs) ?_
      rintro c w' (_ | _)
      · exact hs.owned.sound
      · exact absurd rfl (hx _ _)
    cases x with
    | heartbeat when => exact hother (by simp)
    | event ev =>
      cases ev with
      | rows ev isRows =>
        obtain ⟨hunset, hone, hcells⟩ := hG
        exact (rows_sound isRows hs hunset hone hcells).ends
      | query | formatDescription | tableMap | rotate | xid | xaPrepareLog | other =>
        exact hother (by simp)
  memory hs := hs.owned.sound

/-- In a run whose rows events can all be handled cleanly nothing is left behind, and no
pointer is freed that is not live. -/
theorem replicationLoop_released {packets : List Packet} {k : Nat} (he : w.error = none)
    (hs : w.Sound base)
    (hG : ∀ v ∈ loopVisits lib os needStop k packets w, v.Clears lib os) :
    Triple (replicationLoop lib os needStop k packets) w (fun _ w' => w'.Sound base)
      fun _ w' => w'.heap.badFree = false :=
  sound_invariant.replicationLoop (h := []) packets k he hs hG

end RplListener
