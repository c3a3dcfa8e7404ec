import RplListener.Lib.Transducer
import RplListener.Listener.Heartbeats

/-!
# What a stream says

The changes a stream holds, told apart without the listener: the latest table
map of every id, where in a transaction the stream is, and the rows events of
the watched tables with the table they are about. The listener in `INPROCESS`
follows this as long as it meets no error.
-/

namespace RplListener

open Bytes Refine

-- ---------------------------------------------------------------------------
-- The saved table maps
-- ---------------------------------------------------------------------------

namespace TableMapEvents

variable {m : TableMapEvents} {ev : TableMapLogEvent} {id : Nat}

def Keyed (m : TableMapEvents) : Prop := ∀ p ∈ m, p.2.tableId = p.1

theorem find_append (m m' : TableMapEvents) (id : Nat) :
    find (m ++ m') id = (find m id).or (find m' id) := by
  simp only [find, List.find?_append]
  cases List.find? (fun x => x.1 == id) m <;> rfl

theorem find_insert (m : TableMapEvents) (k : Nat) (ev : TableMapLogEvent) (id : Nat)
    (hno : ∀ p ∈ m, p.1 ≠ k) : (m.insert k ev).find id = if id = k then some ev else m.find id := by
  have hsplit : m = List.takeWhile (fun x => x.1 < k) m ++ List.dropWhile (fun x => x.1 < k) m :=
    (List.takeWhile_append_dropWhile ..).symm
  conv_rhs => rw [hsplit]
  rw [insert, find_append, find_append]
  split
  case isTrue h =>
    subst h
    have hnone : find (List.takeWhile (fun x => x.1 < id) m) id = none := by
      rw [find, Option.map_eq_none_iff, List.find?_eq_none]
      intro p hp
      simpa using hno p ((List.takeWhile_sublist _).subset hp)
    rw [hnone]
    simp [find]
  case isFalse h =>
    have hcons : find ((k, ev) :: List.dropWhile (fun x => x.1 < k) m) id =
        find (List.dropWhile (fun x => x.1 < k) m) id := by
      simp [find, Ne.symm h]
    rw [hcons]

theorem find_erase (m : TableMapEvents) (k id : Nat) (h : id ≠ k) :
    (m.erase k).find id = m.find id := by
  simp only [find, erase, List.find?_filter]
  congr 2
  funext p
  by_cases hp : p.1 = id
  · simp [hp, h]
  · simp [hp]

theorem find_store (m : TableMapEvents) (ev : TableMapLogEvent) (id : Nat) :
    (m.store ev).find id = if id = ev.tableId then some ev else m.find id := by
  have hno : ∀ p ∈ m.erase ev.tableId, p.1 ≠ ev.tableId := by
    intro p hp
    simpa [erase] using (List.mem_filter.mp hp).2
  rw [store, find_insert _ _ _ _ hno]
  split
  · rfl
  · rw [find_erase _ _ _ ‹_›]

theorem Keyed.store (h : m.Keyed) (ev : TableMapLogEvent) : (m.store ev).Keyed := by
  have herase : (m.erase ev.tableId).Keyed := fun p hp => h p (List.mem_filter.mp hp).1
  intro p hp
  rw [TableMapEvents.store, TableMapEvents.insert] at hp
  rcases List.mem_append.mp hp with hp | hp
  · exact herase p ((List.takeWhile_sublist _).subset hp)
  · rcases List.mem_cons.mp hp with rfl | hp
    · rfl
    · exact herase p ((List.dropWhile_sublist _).subset hp)

theorem Keyed.find_tableId (h : m.Keyed) (hf : m.find id = some ev) : ev.tableId = id := by
  rw [find, Option.map_eq_some_iff] at hf
  obtain ⟨p, hp, rfl⟩ := hf
  rw [h p (List.mem_of_find?_eq_some hp)]
  simpa using List.find?_some hp

end TableMapEvents

-- ---------------------------------------------------------------------------
-- The stream
-- ---------------------------------------------------------------------------

/-- Where in a transaction the stream is. -/
inductive Bracket where
  | outside | opened | reported
  deriving DecidableEq, Repr

/-- What there is to tell of a stream. -/
inductive Item where
  | start
  | row (ev : RowsLogEvent2) (map : TableMapLogEvent)
  | commit

structure StreamState where
  maps : Nat → Option TableMapLogEvent
  bracket : Bracket

namespace StreamState

variable (pairs : List (List UInt8 × List UInt8)) (s : StreamState)

def table (ev : RowsLogEvent2) : Option TableMapLogEvent :=
  (s.maps ev.tableId).filter fun map => (cstr map.dbName, cstr map.tableName) ∈ pairs

/-- `BEGIN` and the end of a transaction are told by the text that is compared. -/
def next : Handled → StreamState
  | .event (.tableMap _ map) => { s with maps := Function.update s.maps map.tableId (some map) }
  | .event (.query _ query) =>
    if opensTransaction query then { s with bracket := .opened }
    else if closesTransaction query then { s with bracket := .outside }
    else s
  | .event (.xid _) | .event (.xaPrepareLog _) => { s with bracket := .outside }
  | .event (.rows ev _) =>
    if (s.table pairs ev).isSome ∧ s.bracket = .opened then { s with bracket := .reported } else s
  | _ => s

def commits : List Item := if s.bracket = .reported then [.commit] else []

def out : Handled → List Item
  | .event (.query _ query) => if closesTransaction query then s.commits else []
  | .event (.xid _) | .event (.xaPrepareLog _) => s.commits
  | .event (.rows ev _) =>
    match s.table pairs ev with
    | some map => (if s.bracket = .opened then [.start] else []) ++ [.row ev map]
    | none => []
  | _ => []

def Resolves : Handled → Prop
  | .event (.rows ev _) => (s.maps ev.tableId).isSome
  | _ => True

end StreamState

def stream (pairs : List (List UInt8 × List UInt8)) : Transducer StreamState Handled Item where
  next := StreamState.next pairs
  out := StreamState.out pairs

-- ---------------------------------------------------------------------------
-- The listener and the stream
-- ---------------------------------------------------------------------------

def Bracket.flag : Bracket → Nat
  | .outside => 0
  | .opened => 1
  | .reported => 2

def Listener.shows (o : Listener) : Item → Bool
  | .row .. => o.onRow
  | _ => o.onTransaction

inductive Call.Tells : Call → Item → Prop
  | start (when : Nat) : Tells (.onTransaction when .start) .start
  | commit (when : Nat) : Tells (.onTransaction when .commit) .commit
  | row {x ev map} (h : ReplLogXRows.Of x ev map) : Tells (.onRow x) (.row ev map)

/-- The calls other than heartbeats tell the items that have a callback. -/
def Listener.Tells (o : Listener) (cs : List Call) (items : List Item) : Prop :=
  List.Forall₂ Call.Tells (cs.filter fun c => !c.isHeartbeat) (items.filter o.shows)

structure Listener.At (o : Listener) (s : StreamState) : Prop where
  state : o.state = .inprocess
  bracket : o.inTransaction = s.bracket.flag
  maps : ∀ id, o.globTableMapEvents.find id = s.maps id
  keyed : o.globTableMapEvents.Keyed

variable {lib : Library} {os : Allocator} {needStop : Nat → Bool} {w w' : World}
variable {s : StreamState} {ev : RowsLogEvent2} {map : TableMapLogEvent} {o : Listener}

theorem Listener.watches_iff : o.watches map = true ↔ (cstr map.dbName, cstr map.tableName) ∈ o.pairs := by
  simp only [Listener.watches, Listener.pairs, List.any_eq_true, List.mem_map, ListeningTable.names,
    ListeningTable.pair, Bool.and_eq_true, beq_iff_eq, Prod.mk.injEq]
  exact exists_congr fun t => and_congr_right fun _ => and_congr eq_comm eq_comm

namespace Listener.At

theorem mapOf (h : o.At s) (ev : RowsLogEvent2) : o.mapOf ev = s.maps ev.tableId := by
  unfold Listener.mapOf
  rw [h.maps]
  cases hm : s.maps ev.tableId with
  | none => rfl
  | some map =>
    have hid : map.tableId = ev.tableId := h.keyed.find_tableId ((h.maps _).trans hm)
    simp [hid]

theorem table_eq (h : o.At s) (hm : o.mapOf ev = some map) :
    s.table o.pairs ev = if o.watches map then some map else none := by
  rw [h.mapOf] at hm
  by_cases hw : o.watches map = true
  · rw [StreamState.table, hm, if_pos hw]
    simp [Listener.watches_iff.mp hw]
  · rw [StreamState.table, hm, if_neg hw]
    simp [mt Listener.watches_iff.mpr hw]

theorem closing (h : o.At s) : o.closing = (decide (s.bracket = .reported) && o.onTransaction) := by
  rw [Listener.closing, h.state, h.bracket]
  cases s.bracket <;> rfl

theorem commits (h : o.At s) (when : Nat) : o.Tells (o.commits when) s.commits := by
  rw [Listener.Tells, Listener.commits, h.closing, StreamState.commits]
  cases hb : s.bracket <;> cases ho : o.onTransaction <;>
    simp [Call.isHeartbeat, Listener.shows, ho, Call.Tells.commit]

theorem of_eq (h : o.At s) {o' : Listener} {s' : StreamState} (hs : o'.state = .inprocess)
    (hb : o'.inTransaction = s'.bracket.flag) (hm : o'.globTableMapEvents = o.globTableMapEvents)
    (hm' : s'.maps = s.maps) : o'.At s' where
  state := hs
  bracket := hb
  maps id := by rw [hm, hm']; exact h.maps id
  keyed := by rw [hm]; exact h.keyed

theorem settle_state (h : o.At s) : o.settle.state = .inprocess := by
  simp [Listener.settle, h.state]

theorem ended (h : o.At s) : o.ended.At { s with bracket := .outside } :=
  h.of_eq (by simp [Listener.ended, Listener.settle, h.state]) rfl rfl rfl

theorem opened (h : o.At s) : o.opened.At { s with bracket := .opened } :=
  h.of_eq h.settle_state rfl rfl rfl

theorem settle (h : o.At s) : o.settle.At s := h.of_eq h.settle_state h.bracket rfl rfl

end Listener.At

theorem Listener.tells_nil : o.Tells [] [] := List.Forall₂.nil

theorem Listener.tells_heartbeats {cs : List Call} (h : ∀ c ∈ cs, c.isHeartbeat = true) :
    o.Tells cs [] := by
  have : cs.filter (fun c => !c.isHeartbeat) = [] := by
    rw [List.filter_eq_nil_iff]
    intro c hc
    simp [h c hc]
  rw [Listener.Tells, this]
  exact List.Forall₂.nil

theorem Listener.Tells.append {cs cs' : List Call} {items items' : List Item}
    (h : o.Tells cs items) (h' : o.Tells cs' items') : o.Tells (cs ++ cs') (items ++ items') := by
  rw [Listener.Tells, List.filter_append, List.filter_append]
  exact List.rel_append h h'

theorem Kept.tells {cs : List Call} {items : List Item} (hk : Kept w w')
    (h : w'.obj.Tells cs items) : w.obj.Tells cs items := by
  have : w'.obj.shows = w.obj.shows := by
    funext i
    cases i with
    | row ev map => exact hk.onRow
    | start | commit => exact hk.onTransaction
  rwa [Listener.Tells, this] at h

theorem Delivery.tells {x : ReplLogXRows} (h : w.obj.At s) (hx : x.Of ev map) :
    w.obj.Tells (w.obj.starts ev.when ++ w.obj.rowCalls (some x))
      ((if s.bracket = .opened then [.start] else []) ++ [.row ev map]) := by
  refine Listener.Tells.append ?_ ?_
  · rw [Listener.Tells, Listener.starts, h.bracket]
    cases s.bracket <;> cases ho : w.obj.onTransaction <;>
      simp [Bracket.flag, Call.isHeartbeat, Listener.shows, ho, Call.Tells.start]
  · rw [Listener.Tells, Listener.rowCalls]
    cases ho : w.obj.onRow <;>
      simp [Call.isHeartbeat, Listener.shows, ho, Call.Tells.row hx]

theorem RowsStep.follows (h : RowsStep w ev w') (isRows : ev.typeCode.firstImage.isSome)
    (herr : w'.error = none) (hat : w.obj.At s) :
    (s.maps ev.tableId).isSome ∧
      w'.obj.At (s.next w.obj.pairs (.event (.rows ev isRows))) ∧
      ∃ cs, w'.calls = w.calls ++ cs ∧
        w.obj.Tells cs (s.out w.obj.pairs (.event (.rows ev isRows))) := by
  simp only [StreamState.next, StreamState.out]
  cases h with
  | early h => exact absurd hat.state h
  | noMap => cases herr
  | unwatched _ hm hw =>
    have ht := hat.table_eq hm
    rw [hw] at ht
    rw [ht, ← hat.mapOf, hm]
    exact ⟨rfl, by simpa using hat, [], (List.append_nil _).symm, Listener.tells_nil⟩
  | @delivery map d _ _ hm hw hd hiff =>
    obtain ⟨x, rfl⟩ := Option.isSome_iff_exists.mp (hiff.mp herr)
    have ht := hat.table_eq hm
    rw [hw, if_pos rfl] at ht
    rw [ht, ← hat.mapOf, hm]
    refine ⟨rfl, ?_, _, hd.calls.trans (List.append_assoc ..), Delivery.tells hat (hd.of x rfl)⟩
    rw [hd.obj]
    refine hat.of_eq hat.state ?_ rfl ?_
    · simp only [Listener.started, hat.bracket]
      cases hb : s.bracket <;> simp [Bracket.flag, hb]
    · split <;> rfl

/-- A step without an error tells what the stream says, and stays with it. -/
theorem Step.follows {x : Handled} (h : Step os w x w') (herr : w'.error = none) (hat : w.obj.At s) :
    s.Resolves x ∧ w'.obj.At (s.next w.obj.pairs x) ∧
      ∃ cs, w'.calls = w.calls ++ cs ∧ w.obj.Tells cs (s.out w.obj.pairs x) := by
  have silent : ∃ cs, w.calls = w.calls ++ cs ∧ w.obj.Tells cs [] :=
    ⟨[], (List.append_nil _).symm, Listener.tells_nil⟩
  cases h with
  | noMem => cases herr
  | noDescription => cases herr
  | opens hg ho =>
    simp only [StreamState.next, StreamState.out, if_pos ho,
      if_neg fun hc => not_opens_of_closes hc ho]
    exact ⟨trivial, hat.opened, silent⟩
  | @commits when _ hg hc hclose =>
    simp only [StreamState.next, StreamState.out, if_pos hc, if_neg (not_opens_of_closes hc)]
    have hcommits := (hat.commits when).append
      (@Listener.tells_heartbeats w.obj [.onHeartbeat when] (by simp [Call.isHeartbeat]))
    rw [Listener.commits, hclose, if_pos rfl, List.append_nil] at hcommits
    exact ⟨trivial, hat.ended, _, rfl, hcommits⟩
  | closes hg hc hclose =>
    simp only [StreamState.next, StreamState.out, if_pos hc, if_neg (not_opens_of_closes hc)]
    refine ⟨trivial, hat.ended, [], (List.append_nil _).symm, ?_⟩
    have hcommits := hat.commits 0
    rwa [Listener.commits, hclose, if_neg Bool.false_ne_true] at hcommits
  | query hg ho hc =>
    simp only [StreamState.next, StreamState.out, if_neg ho, if_neg hc]
    exact ⟨trivial, hat, silent⟩
  | formatDescription | rotate => exact ⟨trivial, hat.of_eq hat.state hat.bracket rfl rfl, silent⟩
  | tableMap =>
    refine ⟨trivial, ⟨hat.state, hat.bracket, fun id => ?_, hat.keyed.store _⟩, silent⟩
    simp only [World.put_obj, TableMapEvents.find_store, StreamState.next, Function.update_apply,
      hat.maps id]
  | @rows ev isRows _ h => exact h.follows isRows herr hat
  | xid | xaPrepareLog => exact ⟨trivial, hat.ended, _, rfl, hat.commits _⟩
  | @other type when unlisted =>
    refine ⟨trivial, ?_, _, rfl, Listener.tells_heartbeats ?_⟩
    · cases type.isGtid
      · exact hat
      · exact hat.settle
    · simp only [Listener.heartbeats]
      split <;> simp [Call.isHeartbeat]
  | heartbeat =>
    refine ⟨trivial, hat.settle, _, rfl, Listener.tells_heartbeats ?_⟩
    split <;> simp [Call.isHeartbeat]

def Resolved (pairs : List (List UInt8 × List UInt8)) : StreamState → List Handled → Prop
  | _, [] => True
  | s, x :: xs => s.Resolves x ∧ Resolved pairs (s.next pairs x) xs

theorem resolved_append {pairs : List (List UInt8 × List UInt8)} {xs ys : List Handled} :
    Resolved pairs s (xs ++ ys) ↔
      Resolved pairs s xs ∧ Resolved pairs ((stream pairs).after s xs) ys := by
  induction xs generalizing s with
  | nil => simp [Resolved]
  | cons x xs ih => simp only [List.cons_append, Resolved, ih, and_assoc]; rfl

/-- Without an error the listener has told what the stream says. -/
theorem stream_invariant (w₀ : World) (s : StreamState) :
    Invariant lib os (fun w h => w.error = none →
        Kept w₀ w ∧ Resolved w₀.obj.pairs s (handledOf h) ∧
        w.obj.At ((stream w₀.obj.pairs).after s (handledOf h)) ∧
        ∃ cs, w.calls = w₀.calls ++ cs ∧
          w₀.obj.Tells cs ((stream w₀.obj.pairs).trace s (handledOf h)))
      (fun _ => True) fun _ _ _ => True where
  rpl _ h he := by
    obtain ⟨hkept, hres, hat, hcalls⟩ := h he
    exact ⟨⟨hkept.onRow, hkept.onHeartbeat, hkept.onTransaction, hkept.pairs, hkept.state⟩, hres,
      hat.of_eq hat.state hat.bracket rfl rfl, hcalls⟩
  fail _ _ he := by cases he
  step := by
    intro w h x he hw _
    obtain ⟨hkept, hres, hat, cs, hcs, htells⟩ := hw he
    refine (handle_step he x).mono (fun _ w' hstep herr => ?_) fun _ _ _ => trivial
    obtain ⟨hres', hat', cs', hcs', htells'⟩ := hstep.follows herr hat
    rw [hkept.pairs] at hat' htells'
    refine ⟨hkept.trans hstep.kept, ?_, ?_, cs ++ cs', ?_, ?_⟩
    · rw [handledOf_append, resolved_append]
      exact ⟨hres, hres', trivial⟩
    · rw [handledOf_append, Transducer.after_append]
      exact hat'
    · rw [hcs', hcs, List.append_assoc]
    · rw [handledOf_append, Transducer.trace_append]
      refine htells.append ?_
      rw [handledOf_cons, handledOf_nil, Transducer.trace_cons, Transducer.trace_nil,
        List.append_nil]
      exact hkept.tells htells'
  memory _ := trivial

-- ---------------------------------------------------------------------------
-- Where a listener is
-- ---------------------------------------------------------------------------

/-- What holds of a listener from its constructor on. -/
structure Listener.Sane (o : Listener) : Prop where
  keyed : o.globTableMapEvents.Keyed
  flag : o.inTransaction ≤ 2

def Listener.streamState (o : Listener) : StreamState where
  maps := o.globTableMapEvents.find
  bracket := match o.inTransaction with
    | 0 => .outside
    | 1 => .opened
    | _ => .reported

theorem Listener.Sane.at_streamState (h : o.Sane) (hs : o.state = .inprocess) : o.At o.streamState where
  state := hs
  bracket := by
    have hflag := h.flag
    match hb : o.inTransaction with
    | 0 | 1 | 2 => simp [Listener.streamState, hb, Bracket.flag]
    | n + 3 => omega
  maps _ := rfl
  keyed := h.keyed

theorem Step.sane {x : Handled} (h : Step os w x w') (hw : w.obj.Sane) : w'.obj.Sane := by
  cases h with
  | opens => exact ⟨hw.keyed, Nat.le_succ 1⟩
  | commits | closes | xid | xaPrepareLog => exact ⟨hw.keyed, Nat.zero_le 2⟩
  | tableMap => exact ⟨hw.keyed.store _, hw.flag⟩
  | @other type =>
    cases type.isGtid
    · exact hw
    · exact ⟨hw.keyed, hw.flag⟩
  | rows h =>
    cases h with
    | early | noMap | unwatched => exact hw
    | delivery _ _ _ hd =>
      rw [hd.obj]
      refine ⟨hw.keyed, ?_⟩
      simp only [Listener.started]
      split
      · exact Nat.le_refl 2
      · exact hw.flag
  | noMem | query | noDescription => exact hw
  | formatDescription | rotate | heartbeat => exact ⟨hw.keyed, hw.flag⟩

theorem sane_invariant : Invariant lib os (fun w _ => w.obj.Sane) (fun _ => True) fun _ _ _ => True where
  rpl _ h := ⟨h.keyed, h.flag⟩
  fail _ h := h
  step x he hw _ :=
    (handle_step he x).mono (fun _ _ hstep => hstep.sane hw) fun _ _ _ => trivial
  memory _ := trivial

/-- The loop keeps a listener sane, so that `INPROCESS` is a place in the stream
whenever it is reached. -/
theorem replicationLoop_sane {packets : List Packet} {k : Nat} {t : Turn} (he : w.error = none)
    (hw : w.obj.Sane) (hrun : (replicationLoop lib os needStop k packets).run w = .ok t w') :
    w'.obj.Sane :=
  (sane_invariant.replicationLoop (h := []) packets k he hw fun _ _ => trivial).ok hrun

/-- In `INPROCESS` a run without an error tells what the stream says. -/
theorem replicationLoop_tells {packets : List Packet} {k : Nat} {t : Turn} (he : w.error = none)
    (hat : w.obj.At s) (hrun : (replicationLoop lib os needStop k packets).run w = .ok t w')
    (herr : w'.error = none) :
    let xs := handledOf (loopVisits lib os needStop k packets w)
    Resolved w.obj.pairs s xs ∧
      ∃ cs, w'.calls = w.calls ++ cs ∧ w.obj.Tells cs ((stream w.obj.pairs).trace s xs) := by
  have hloop : Triple (replicationLoop lib os needStop k packets) w _ _ :=
    (stream_invariant w s).replicationLoop (h := []) packets k he
    (fun _ => ⟨Kept.refl w, trivial, hat, [], (List.append_nil _).symm, Listener.tells_nil⟩)
    fun _ _ => trivial
  obtain ⟨-, hres, -, hcalls⟩ := hloop.ok hrun herr
  exact ⟨hres, hcalls⟩

end RplListener
