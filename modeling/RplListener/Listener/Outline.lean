import RplListener.Listener.Interleaved
import Mathlib.Data.List.Perm.Subperm

/-!
# What the threads may rely on

An outline keeps of the shared state what decides about the life of a listener.
`Life` is what holds of every outline, `Guarantee` is what a step of one thread
may do to it, and the lemmas after them go through the kinds of steps there are.
-/

namespace RplListener

open Bytes Refine Interleave

-- ---------------------------------------------------------------------------
-- Outlines
-- ---------------------------------------------------------------------------

def ReplState.code : ReplState → Nat
  | .created => 0
  | .postCreated => 10
  | .prepared => 40
  | .postPrepared => 50
  | .inprocess1 => 80
  | .inprocess => 90
  | .ended => 100

/-- `spoken` is whether a callback was called. -/
structure Outline where
  state : ReplState
  tables : Nat
  fileNameSet : Bool
  hasName : Bool
  spoken : Bool
  threads : Nat
  history : List (Tid × Milestone)
  cancelled : Nat → Bool
  disabled : Nat → Bool

def Shared.outline (s : Shared) : Outline where
  state := s.obj.state
  tables := s.obj.tables.length
  fileNameSet := s.obj.rpl.fileNameSet
  hasName := !s.obj.mLogNm.isEmpty
  spoken := !s.calls.isEmpty
  threads := s.threads.length
  history := s.history
  cancelled := s.cancelled
  disabled := s.disabled

namespace Outline

def who (o : Outline) (m : Milestone) : List Tid :=
  (o.history.filter fun x => x.2 == m).map Prod.fst

structure Ready (o : Outline) : Prop where
  prepared : o.who .prepareDone ≠ []
  tables : 0 < o.tables
  fileNameSet : o.fileNameSet = true

/-- After the end, a thread has cancellation disabled or will not disable it again. -/
def Calm (o : Outline) : Prop :=
  o.state = .ended → ∀ k < o.threads, o.cancelled k = true ∨ o.disabled k = true

structure Life (o : Outline) : Prop where
  created : o.state = .created → o.who .preparePassed = []
  prepares : (o.who .preparePassed).length ≤ 1
  early : o.state.code < 50 → o.who .startPassed = []
  starts : (o.who .startPassed).length ≤ 1
  ready : 40 ≤ o.state.code → o.state.code < 100 → o.Ready
  launched : 0 < o.threads → o.Ready
  named : o.hasName = true → o.fileNameSet = true
  spoken : o.spoken = true → 90 ≤ o.state.code
  owners : ∀ i, (o.who .threadCreated).count i ≤ (o.who .startPassed).count i
  threads : o.threads = (o.who .threadCreated).length
  disabled : ∀ k, o.disabled k = true → k < o.threads

/-- What a step of thread `i` may do. Only who has passed the first step of
`start_replication` ends `POST_PREPARED`, and no replication thread ends the
listener under another one. -/
structure Guarantee (i : Tid) (o o' : Outline) : Prop where
  state : o.state.code ≤ o'.state.code
  tables : o.tables ≤ o'.tables
  fileNameSet : o.fileNameSet = true → o'.fileNameSet = true
  threads : o.threads ≤ o'.threads
  history : o.history <+: o'.history
  own : ∀ m j, j ≠ i → (o'.who m).count j = (o.who m).count j
  cancelled : ∀ k, o.cancelled k = true → o'.cancelled k = true
  disabled : ∀ k, i ≠ .repl k → o'.disabled k = o.disabled k
  created : o.threads < o'.threads → o.Ready
  held : o.state = .postPrepared → (o.who .startPassed).count i = 0 → o'.state = .postPrepared
  alone : ∀ j k, i = .repl j → j ≠ k → o.disabled k = true → o'.state = .ended → o.state = .ended

/-- A client does not set `ENDED` while a thread has cancellation disabled. -/
def Undisturbed (i : Tid) (o o' : Outline) : Prop :=
  ∀ n, i = .client n → ∀ k < o.threads, o.disabled k = true → o'.state = .ended → o.state = .ended

theorem Guarantee.refl (i : Tid) (o : Outline) : Guarantee i o o where
  state := le_rfl
  tables := le_rfl
  fileNameSet h := h
  threads := le_rfl
  history := List.prefix_refl _
  own _ _ _ := rfl
  cancelled _ h := h
  disabled _ _ := rfl
  created h := absurd h (lt_irrefl _)
  held h _ := h
  alone _ _ _ _ _ h := h

variable {i me : Tid} {o o' : Outline}

-- ---------------------------------------------------------------------------
-- The history
-- ---------------------------------------------------------------------------

theorem who_prefix (h : o.history <+: o'.history) (m : Milestone) : o.who m <+: o'.who m :=
  (h.filter _).map _

theorem Guarantee.ready (h : Guarantee i o o') (hr : o.Ready) : o'.Ready where
  prepared hn := hr.prepared (List.prefix_nil.mp (hn ▸ who_prefix h.history .prepareDone))
  tables := hr.tables.trans_le h.tables
  fileNameSet := h.fileNameSet hr.fileNameSet

def marked (o : Outline) (i : Tid) (m : Milestone) : Outline :=
  { o with history := o.history ++ [(i, m)] }

theorem who_marked (o : Outline) (i : Tid) (m m' : Milestone) :
    (o.marked i m).who m' = o.who m' ++ if m = m' then [i] else [] := by
  unfold who marked
  rw [List.filter_append, List.map_append]
  by_cases h : m = m' <;> simp [h]

theorem who_marked_self (o : Outline) (i : Tid) (m : Milestone) :
    (o.marked i m).who m = o.who m ++ [i] := by rw [who_marked, if_pos rfl]

theorem who_marked_other {m m' : Milestone} (h : m ≠ m') (o : Outline) (i : Tid) :
    (o.marked i m).who m' = o.who m' := by rw [who_marked, if_neg h, List.append_nil]

theorem count_marked {j : Tid} (h : j ≠ i) (o : Outline) (m m' : Milestone) :
    ((o.marked i m).who m').count j = (o.who m').count j := by
  rw [who_marked, List.count_append]
  split
  · rw [List.count_singleton, if_neg (by simpa using Ne.symm h), Nat.add_zero]
  · rw [List.count_nil, Nat.add_zero]

namespace Life

theorem threads_le_starts (h : o.Life) : o.threads ≤ (o.who .startPassed).length :=
  h.threads ▸ (List.subperm_iff_count.mpr h.owners).length_le

theorem threads_le (h : o.Life) : o.threads ≤ 1 := h.threads_le_starts.trans h.starts

theorem alone (h : o.Life) {j k : Nat} (hj : j < o.threads) (hk : o.disabled k = true) : j = k := by
  have := h.threads_le
  have := h.disabled k hk
  omega

theorem no_thread_early (h : o.Life) (he : o.state.code < 50) : o.threads = 0 := by
  have := h.threads_le_starts
  rw [h.early he] at this
  simpa using this

/-- Whoever has passed the first step of `start_replication` and created no thread
yet is the only one who may. -/
theorem no_thread (h : o.Life) (hi : (o.who .threadCreated).count i < (o.who .startPassed).count i) :
    o.threads = 0 := by
  have hstarts : o.who .startPassed = [i] := by
    have hmem : i ∈ o.who .startPassed := List.count_pos_iff.mp (Nat.zero_lt_of_lt hi)
    obtain ⟨j, hj⟩ := List.length_eq_one_iff.mp
      (le_antisymm h.starts (List.length_pos_of_mem hmem))
    rw [hj] at hmem
    rw [hj, List.mem_singleton.mp hmem]
  have hnone : o.who .threadCreated = [] := by
    refine List.eq_nil_iff_forall_not_mem.mpr fun j hj => ?_
    have hle := h.owners j
    have hpos := List.count_pos_iff.mpr hj
    rw [hstarts] at hle hi
    by_cases hij : j = i
    · subst hij
      simp only [List.count_singleton_self] at hi
      omega
    · rw [List.count_singleton, if_neg (by simpa using Ne.symm hij)] at hle
      omega
  rw [h.threads, hnone, List.length_nil]

end Life

-- ---------------------------------------------------------------------------
-- The kinds of steps
-- ---------------------------------------------------------------------------

def swap (o : Outline) (old new : ReplState) : Outline :=
  if o.state = old then { o with state := new } else o

theorem swap_cases {P : Outline → Prop} (old new : ReplState)
    (hswap : o.state = old → P { o with state := new }) (hkeep : o.state ≠ old → P o) :
    P (o.swap old new) := by
  unfold swap
  split
  case isTrue h => exact hswap h
  case isFalse h => exact hkeep h

section

variable {new : ReplState} (hle : o.state.code ≤ new.code)

include hle

theorem Guarantee.moved
    (hheld : o.state = .postPrepared → (o.who .startPassed).count i ≠ 0)
    (halone : ∀ j k, i = .repl j → j ≠ k → o.disabled k = true → new ≠ .ended) :
    Guarantee i o { o with state := new } :=
  { Guarantee.refl i o with
    state := hle
    held := fun hs hi => absurd hi (hheld hs)
    alone := fun j k hi hjk hk hn => absurd hn (halone j k hi hjk hk) }

theorem Life.moved (h : o.Life) (hnew : new ≠ .created)
    (hearly : new.code < 50 → o.state.code < 50)
    (hready : 40 ≤ new.code → new.code < 100 → o.Ready) :
    ({ o with state := new } : Outline).Life :=
  { h with
    created := fun hc => absurd hc hnew
    early := fun hc => h.early (hearly hc)
    ready := fun h1 h2 =>
      ⟨(hready h1 h2).prepared, (hready h1 h2).tables, (hready h1 h2).fileNameSet⟩
    launched := fun h1 =>
      ⟨(h.launched h1).prepared, (h.launched h1).tables, (h.launched h1).fileNameSet⟩
    spoken := fun hs => (h.spoken hs).trans hle }

end

theorem Guarantee.marked (o : Outline) (me : Tid) (m : Milestone) :
    Guarantee me o (o.marked me m) :=
  { Guarantee.refl me o with
    history := List.prefix_append _ _
    own := fun m' _ hj => count_marked hj o m m' }

theorem Ready.marked (h : o.Ready) (i : Tid) (m : Milestone) : (o.marked i m).Ready :=
  (Guarantee.marked o i m).ready h

theorem Life.marked (h : o.Life) {m : Milestone}
    (hprepare : m = .preparePassed → o.state ≠ .created ∧ o.who .preparePassed = [])
    (hstart : m = .startPassed → 50 ≤ o.state.code ∧ o.who .startPassed = [])
    (hthread : m ≠ .threadCreated) : (o.marked i m).Life where
  created hs := by
    rw [who_marked_other fun hm => (hprepare hm).1 hs]
    exact h.created hs
  prepares := by
    by_cases hm : m = .preparePassed
    · rw [hm, who_marked_self, (hprepare hm).2]
      exact le_rfl
    · rw [who_marked_other hm]
      exact h.prepares
  early hs := by
    rw [who_marked_other fun hm => absurd (hstart hm).1 (Nat.not_le_of_lt hs)]
    exact h.early hs
  starts := by
    by_cases hm : m = .startPassed
    · rw [hm, who_marked_self, (hstart hm).2]
      exact le_rfl
    · rw [who_marked_other hm]
      exact h.starts
  ready h1 h2 := (h.ready h1 h2).marked i m
  launched h1 := (h.launched h1).marked i m
  named := h.named
  spoken := h.spoken
  owners j := by
    rw [who_marked_other hthread, who_marked, List.count_append]
    exact (h.owners j).trans (Nat.le_add_right _ _)
  threads := by
    rw [who_marked_other hthread]
    exact h.threads
  disabled := h.disabled

theorem Calm.of_not_ended (h : o.state ≠ .ended) : o.Calm := fun he => absurd he h

theorem Calm.of_no_thread (h : o.threads = 0) : o.Calm := fun _ k hk => by omega

theorem Guarantee.passed {n : Nat} {new : ReplState} (m : Milestone)
    (hle : o.state.code ≤ new.code) (hs : o.state ≠ .postPrepared) :
    Guarantee (.client n) o (({ o with state := new } : Outline).marked (.client n) m) :=
  { Guarantee.marked o (.client n) m with
    state := hle
    held := fun h _ => absurd h hs
    alone := by rintro _ _ ⟨⟩ }

end Outline

-- ---------------------------------------------------------------------------
-- The rules
-- ---------------------------------------------------------------------------

/-- What a caller of `get_tablemap_events` or of `get_last_sucessful_position`
sees, and the calls that were made. -/
def Shared.told (s : Shared) : List Call × TableMapEvents × List UInt8 × Bool × Nat :=
  (s.calls, s.obj.globTableMapEvents, s.obj.mLogNm, s.obj.rpl.fileNameSet, s.obj.rpl.startPosition)

/-- Under `still`, `ENDED` is final for a thread: no client sets it while the
thread has cancellation disabled. -/
def rules (still : Prop) : Rules Tid Shared where
  inv s := s.outline.Life ∧ (still → s.outline.Calm)
  guar i s s' := Outline.Guarantee i s.outline s'.outline ∧
    (still → ∀ k, i = .repl k → s.obj.state = .ended → s'.told = s.told)
  assume i s s' := still → Outline.Undisturbed i s.outline s'.outline

namespace Outline

variable {still : Prop} {i : Tid}

theorem stable_of_guarantee {P : Outline → Prop}
    (h : ∀ j o o', j ≠ i → P o → Guarantee j o o' → P o') :
    (rules still).Stable i fun s => P s.outline :=
  Rules.Stable.of_moves fun j _ _ hj hp hm => h j _ _ hj hp hm.2.2.1.1

theorem stable_true : (rules still).Stable i fun _ => True := fun _ _ _ _ => trivial

end Outline

-- ---------------------------------------------------------------------------
-- What a step does to the outline
-- ---------------------------------------------------------------------------

/-- What of the outline an error structure, the heap and the table maps do not
touch. -/
def World.life (w : World) : ReplState × Nat × Bool × Bool :=
  (w.obj.state, w.obj.tables.length, w.obj.rpl.fileNameSet, w.calls.isEmpty)

def World.lifeAndName (w : World) : (ReplState × Nat × Bool × Bool) × Bool :=
  (w.life, w.obj.mLogNm.isEmpty)

variable {α : Type} {slot : Nat} {s : Shared}

theorem outline_withWorld {w : World} (h : w.life = (s.world slot).life) :
    (s.withWorld slot w).outline = { s.outline with hasName := !w.obj.mLogNm.isEmpty } := by
  simp only [World.life, Shared.world, Prod.mk.injEq] at h
  simp [Shared.outline, Shared.withWorld, h]

theorem outline_withWorld_named {w : World} (h : w.lifeAndName = (s.world slot).lifeAndName) :
    (s.withWorld slot w).outline = s.outline := by
  have hlife : w.life = (s.world slot).life := congrArg Prod.fst h
  have hname : w.obj.mLogNm.isEmpty = s.obj.mLogNm.isEmpty := congrArg Prod.snd h
  rw [outline_withWorld hlife, hname]
  rfl

def Does (E : α → Outline → Outline → Prop) (x : EStateM Crash Shared α) : Prop :=
  ∀ s, Triple x s (fun a s' => E a s.outline s'.outline) fun _ s' => s'.outline = s.outline

theorem does_zoom {x : ListenM α} (hx : Keeps World.lifeAndName x) :
    Does (fun _ o o' => o' = o) (zoom (Shared.worldPart slot) x) := by
  intro s
  refine (Triple.zoom (hx (s.world slot))).mono ?_ ?_
  · rintro a _ ⟨w, hw, rfl⟩
    exact outline_withWorld_named hw
  · rintro e _ ⟨w, hw, rfl⟩
    exact outline_withWorld_named hw

theorem does_zoom_client {x : ClientM α} (hx : Keeps (fun c => c.world.lifeAndName) x) :
    Does (fun _ o o' => o' = o) (zoom (Shared.clientPart slot) x) := by
  intro s
  refine (Triple.zoom (hx (s.client slot))).mono ?_ ?_
  · rintro a _ ⟨c, hc, rfl⟩
    exact outline_withWorld_named hc
  · rintro e _ ⟨c, hc, rfl⟩
    exact outline_withWorld_named hc

theorem outline_swap (s : Shared) (slot : Nat) (old new : ReplState) :
    ((zoom (Shared.worldPart slot) (swapState old new)).run s) =
      .ok () (s.withWorld slot
        { s.world slot with obj := if s.obj.state = old then { s.obj with state := new } else s.obj }) :=
  rfl

theorem does_swap (old new : ReplState) :
    Does (fun _ o o' => o' = o.swap old new) (zoom (Shared.worldPart slot) (swapState old new)) := by
  intro s
  refine Triple.of_run (outline_swap s slot old new) ?_
  unfold Outline.swap Shared.outline Shared.withWorld
  dsimp only
  split <;> rfl

theorem does_modifyObj {f : Listener → Listener} {E : Outline → Outline → Prop}
    (h : ∀ s : Shared, E s.outline { s with obj := f s.obj }.outline) :
    Does (fun _ o o' => E o o') (zoom (Shared.worldPart slot) (modifyObj f)) :=
  fun s => Triple.of_run (a := ()) rfl (h s)

end RplListener
