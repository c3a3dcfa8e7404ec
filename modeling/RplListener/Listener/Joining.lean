import RplListener.Listener.Transactions

/-!
# Joining a log

A listener without a position starts at some event of the log, in `INPROCESS_1`,
where it handles no rows. The log is made of groups, each introduced by a GTID
event, in which a rows event comes after the table map of its id. The first event
that tells where a group begins or ends takes the listener to `INPROCESS`, and
from there on it has every table map it needs.
-/

namespace RplListener

open Bytes Refine

variable {lib : Library} {os : Allocator} {needStop : Nat → Bool} {w w₀ w' : World}
variable {pairs : List (List UInt8 × List UInt8)} {s s' : StreamState}
variable {x : Handled} {xs : List Handled} {v : Visit} {h : List Visit}

-- ---------------------------------------------------------------------------
-- Logs
-- ---------------------------------------------------------------------------

/-- A place in a log; a group has the table maps of `ids` so far. -/
inductive Place where
  | between
  | group (ids : List Nat)

def Place.ids : Place → List Nat
  | .between => []
  | .group ids => ids

/-- A group ends with `XID`, `XA_PREPARE` or a query: `COMMIT`, `ROLLBACK` or a
statement that commits. Heartbeats come between groups. -/
inductive Place.Next : Place → Handled → Place → Prop
  | gtid {type when unlisted} (h : LogEventType.isGtid type = true) :
    Next .between (.event (.other type when unlisted)) (.group [])
  | begins {when query} (h : opensTransaction query) :
    Next (.group []) (.event (.query when query)) (.group [])
  | tableMap {ids when map} :
    Next (.group ids) (.event (.tableMap when map)) (.group (map.tableId :: ids))
  | rows {ids ev isRows} (h : ev.tableId ∈ ids) :
    Next (.group ids) (.event (.rows ev isRows)) (.group ids)
  | statement {ids when query} (ho : ¬ opensTransaction query) (hc : ¬ closesTransaction query) :
    Next (.group ids) (.event (.query when query)) (.group ids)
  | ends {ids when query} (ho : ¬ opensTransaction query) :
    Next (.group ids) (.event (.query when query)) .between
  | xid {ids when} : Next (.group ids) (.event (.xid when)) .between
  | xaPrepareLog {ids when} : Next (.group ids) (.event (.xaPrepareLog when)) .between
  | heartbeat {when} : Next .between (.heartbeat when) .between
  | other {p type when unlisted} (h : LogEventType.isGtid type = false) :
    Next p (.event (.other type when unlisted)) p
  | formatDescription {p when event} : Next p (.event (.formatDescription when event)) p
  | rotate {p when newLogIdent} : Next p (.event (.rotate when newLogIdent)) p

/-- An event after which no table map of its group can have been missed. -/
def Handled.settles : Handled → Bool
  | .event (.query _ query) => decide (opensTransaction query ∨ closesTransaction query)
  | .event (.xid _) | .event (.xaPrepareLog _) | .heartbeat _ => true
  | .event (.other type ..) => type.isGtid
  | _ => false

theorem Place.Next.ids_of_settles {p q : Place} (h : p.Next x q) (hx : x.settles = true) :
    q.ids = [] := by
  cases h with
  | statement ho hc => simp [Handled.settles, ho, hc] at hx
  | other hg => simp [Handled.settles, hg] at hx
  | tableMap | rows | formatDescription | rotate => cases hx
  | gtid | begins | ends | xid | xaPrepareLog | heartbeat => rfl

theorem Place.Next.ids_from {p q : Place} (h : p.Next x q) {id : Nat} (hid : id ∈ q.ids) :
    id ∈ p.ids ∨ ∃ when map, x = .event (.tableMap when map) ∧ map.tableId = id := by
  cases h with
  | tableMap =>
    rcases List.mem_cons.mp hid with rfl | hid
    · exact .inr ⟨_, _, rfl, rfl⟩
    · exact .inl hid
  | begins | rows | statement | other | formatDescription | rotate => exact .inl hid
  | gtid | ends | xid | xaPrepareLog | heartbeat => cases hid

-- ---------------------------------------------------------------------------
-- What is handled and what is not
-- ---------------------------------------------------------------------------

def Visit.Resolves (v : Visit) : Prop :=
  match v.1 with
  | .event (.rows ev _) => (v.2.obj.mapOf ev).isSome
  | _ => True

/-- Nothing is told in `INPROCESS_1`; `INPROCESS` is not left again, and starts
after an event that settles at the latest; in it every rows event has a table
map. -/
structure Synchronises (w₀ : World) (visits : List Visit) : Prop where
  silent : ∀ v ∈ visits, v.2.obj.state ≠ .inprocess → v.2.obj.state = .inprocess1 ∧ v.2.calls = w₀.calls
  stays : visits.Pairwise fun v v' =>
    v.2.obj.state = .inprocess ∨ v.1.settles = true → v'.2.obj.state = .inprocess
  found : ∀ v ∈ visits, v.2.obj.state = .inprocess → v.Resolves

def Listener.Saves (o : Listener) (id : Nat) : Prop :=
  ∃ map, o.globTableMapEvents.find id = some map ∧ map.tableId = id

theorem Listener.Saves.mapOf {ev : RowsLogEvent2} {o : Listener} (h : o.Saves ev.tableId) :
    (o.mapOf ev).isSome := by
  obtain ⟨map, hfind, hid⟩ := h
  simp [Listener.mapOf, hfind, hid]

/-- The listener at place `p`, without an error. -/
inductive Place.Fits (p : Place) (w₀ w : World) : Prop
  | early (state : w.obj.state = .inprocess1) (calls : w.calls = w₀.calls)
  | settled (state : w.obj.state = .inprocess) (saves : ∀ id ∈ p.ids, w.obj.Saves id)

theorem Step.settled (h : Step os w x w') (herr : w'.error = none) (hx : x.settles = true)
    (hs : w.obj.state = .inprocess1 ∨ w.obj.state = .inprocess) : w'.obj.state = .inprocess := by
  have hsettle : w.obj.settle.state = .inprocess := by
    rcases hs with hs | hs <;> simp [Listener.settle, hs]
  cases h with
  | noMem | noDescription => cases herr
  | query hg ho hc => simp [Handled.settles, ho, hc] at hx
  | formatDescription | tableMap | rotate | rows => cases hx
  | @other type => rw [show type.isGtid = true from hx]; exact hsettle
  | opens | commits | closes | xid | xaPrepareLog | heartbeat => exact hsettle

theorem Step.quiet (h : Step os w x w') (hx : x.settles = false) (hs : w.obj.state = .inprocess1) :
    w'.obj.state = .inprocess1 ∧ w'.calls = w.calls := by
  cases h with
  | noMem | query | formatDescription | tableMap | rotate => exact ⟨hs, rfl⟩
  | opens hg ho => simp [Handled.settles, ho] at hx
  | commits hg hc | closes hg hc => simp [Handled.settles, hc] at hx
  | rows h =>
    cases h with
    | early => exact ⟨hs, rfl⟩
    | noMap h | unwatched h | delivery h => rw [hs] at h; cases h
  | xid | xaPrepareLog | heartbeat | noDescription => cases hx
  | @other type =>
    rw [show type.isGtid = false from hx]
    exact ⟨hs, by simp [Listener.heartbeats, hs]⟩

theorem Step.saves {id : Nat} (h : Step os w x w')
    (hid : w.obj.Saves id ∨ ∃ when map, x = .event (.tableMap when map) ∧ map.tableId = id) :
    w'.obj.Saves id := by
  cases h with
  | @tableMap when map =>
    by_cases heq : id = map.tableId
    · exact ⟨map, by simp [TableMapEvents.find_store, heq], heq.symm⟩
    · rcases hid with ⟨map', hfind, hid⟩ | ⟨_, _, ⟨⟩, rfl⟩
      · exact ⟨map', by simp [TableMapEvents.find_store, heq, hfind], hid⟩
      · exact absurd rfl heq
  | rows h =>
    have hsaves : w.obj.Saves id := hid.resolve_right (by rintro ⟨_, _, ⟨⟩, -⟩)
    cases h with
    | early | noMap | unwatched => exact hsaves
    | delivery _ _ _ hd => rw [hd.obj]; exact hsaves
  | @other type => cases type.isGtid <;> exact hid.resolve_right (by rintro ⟨_, _, ⟨⟩, -⟩)
  | _ => exact hid.resolve_right (by rintro ⟨_, _, ⟨⟩, -⟩)

theorem Step.fits {p q : Place} (h : Step os w x w') (herr : w'.error = none) (hn : p.Next x q)
    (hf : p.Fits w₀ w) : q.Fits w₀ w' := by
  cases hf with
  | early hs hcalls =>
    cases hx : x.settles with
    | true =>
      refine .settled (h.settled herr hx (.inl hs)) ?_
      rw [hn.ids_of_settles hx]
      exact fun id hid => absurd hid List.not_mem_nil
    | false =>
      obtain ⟨hs', hcalls'⟩ := h.quiet hx hs
      exact .early hs' (hcalls'.trans hcalls)
  | settled hs hsaves =>
    exact .settled (h.kept.state hs) fun id hid => h.saves ((hn.ids_from hid).imp_left (hsaves id))

theorem Place.Fits.resolves {p q : Place} (hf : p.Fits w₀ w) (hn : p.Next x q)
    (hs : w.obj.state = .inprocess) : Visit.Resolves (x, w) := by
  cases hf with
  | early h => rw [hs] at h; cases h
  | settled _ hsaves =>
    cases hn with
    | rows hid => exact (hsaves _ hid).mapOf
    | _ => trivial

theorem Synchronises.extend {p q : Place} (hsync : Synchronises w₀ h) (hf : p.Fits w₀ w)
    (hn : p.Next x q)
    (hstays : ∀ v ∈ h, v.2.obj.state = .inprocess ∨ v.1.settles = true → w.obj.state = .inprocess) :
    Synchronises w₀ (h ++ [(x, w)]) where
  silent := by
    refine List.forall_mem_append.mpr ⟨hsync.silent, ?_⟩
    rintro v hv hne
    cases List.mem_singleton.mp hv
    cases hf with
    | early hs hcalls => exact ⟨hs, hcalls⟩
    | settled hs => exact absurd hs hne
  stays := by
    refine List.pairwise_append.mpr ⟨hsync.stays, List.pairwise_singleton .., ?_⟩
    intro v hv v' hv'
    cases List.mem_singleton.mp hv'
    exact hstays v hv
  found := by
    refine List.forall_mem_append.mpr ⟨hsync.found, ?_⟩
    intro v hv
    cases List.mem_singleton.mp hv
    exact hf.resolves hn

def Place.Follows (p : Place) (w₀ w : World) (h : List Visit) : Prop :=
  ∀ q, Path Place.Next p (handledOf h) q → Synchronises w₀ h ∧ (w.error = none → q.Fits w₀ w ∧
    ∀ v ∈ h, v.2.obj.state = .inprocess ∨ v.1.settles = true → w.obj.state = .inprocess)

theorem follows_invariant (p : Place) (w₀ : World) : Invariant lib os (p.Follows w₀) (fun _ => True)
    fun _ _ h => ∀ q, Path Place.Next p (handledOf h) q → Synchronises w₀ h where
  rpl _ hw q hq := by
    obtain ⟨hsync, hrest⟩ := hw q hq
    refine ⟨hsync, fun he => ?_⟩
    obtain ⟨hf, hstays⟩ := hrest he
    refine ⟨?_, hstays⟩
    cases hf with
    | early hs hcalls => exact .early hs hcalls
    | settled hs hsaves => exact .settled hs hsaves
  fail _ hw q hq := ⟨(hw q hq).1, fun he => by cases he⟩
  step := by
    intro w h x he hw _
    have hextend {q : Place} (hq : Path Place.Next p (handledOf (h ++ [(x, w)])) q) :
        ∃ q₁ : Place, q₁.Next x q ∧ q₁.Fits w₀ w ∧ Synchronises w₀ (h ++ [(x, w)]) ∧
          ∀ v ∈ h, v.2.obj.state = .inprocess ∨ v.1.settles = true → w.obj.state = .inprocess := by
      rw [handledOf_append] at hq
      obtain ⟨q₁, hq₁, hx⟩ := hq.append_inv
      obtain ⟨hsync, hrest⟩ := hw q₁ hq₁
      obtain ⟨hf, hstays⟩ := hrest he
      exact ⟨q₁, hx.singleton_inv, hf, hsync.extend hf hx.singleton_inv hstays, hstays⟩
    refine (handle_step he x).mono ?_ ?_
    · intro _ w' hstep q hq
      obtain ⟨q₁, hn, hf, hsync, hstays⟩ := hextend hq
      refine ⟨hsync, fun herr => ⟨hstep.fits herr hn hf, List.forall_mem_append.mpr ⟨?_, ?_⟩⟩⟩
      · exact fun v hv hs => hstep.kept.state (hstays v hv hs)
      · intro v hv hs
        cases List.mem_singleton.mp hv
        rcases hs with hs | hx
        · exact hstep.kept.state hs
        · refine hstep.settled herr hx ?_
          cases hf with
          | early hs => exact .inl hs
          | settled hs => exact .inr hs
    · intro _ _ _ q hq
      obtain ⟨_, _, _, hsync, -⟩ := hextend hq
      exact hsync
  memory hw q hq := (hw q hq).1

-- ---------------------------------------------------------------------------
-- What a run handles of a stream
-- ---------------------------------------------------------------------------

def NeverReset (needStop : Nat → Bool) : Prop := ∀ j, needStop j = true → needStop (j + 1) = true

mutual

/-- A stop that ends a loop inside of an event also ends the loops around it. -/
theorem LogEvent.Cut.needStop (hset : NeverReset needStop) {k k' : Nat} {ev : LogEvent} {w w' : World}
    (hcut : ev.Cut lib os needStop k w)
    (hrun : (processEvent lib os needStop k ev).run w = .ok k' w') (herr : w'.error = none) :
    needStop k' = true := by
  match hcut with
  | .payload hcut =>
    unfold processEvent at hrun
    obtain ⟨_, _, hclear, hrun⟩ := run_bind_inv hrun
    cases hclear
    rw [run_get_bind] at hrun
    split at hrun
    · cases hrun
    · exact Payload.Cut.needStop hset hcut hrun herr

theorem Payload.Cut.needStop (hset : NeverReset needStop) {k k' : Nat} {payload : Payload}
    {w w' : World} (hcut : payload.Cut lib os needStop k w)
    (hrun : (processPayload lib os needStop k payload).run w = .ok k' w') (herr : w'.error = none) :
    needStop k' = true := by
  match hcut with
  | .here hev herr₁ hstop _ =>
    unfold processPayload at hrun
    rw [run_bind_ok hev, run_get_bind, herr₁, if_neg (by simp), if_pos hstop] at hrun
    obtain ⟨rfl, -⟩ := run_pure_inv hrun
    exact hset _ hstop
  | .head hcut =>
    unfold processPayload at hrun
    obtain ⟨k₁, w₁, hev, hrun⟩ := run_bind_inv hrun
    rw [run_get_bind] at hrun
    split at hrun
    case isTrue hsome =>
      obtain ⟨-, rfl⟩ := run_pure_inv hrun
      simp [herr] at hsome
    case isFalse hnone =>
      have hstop := LogEvent.Cut.needStop hset hcut hev (by simpa using hnone)
      rw [if_pos hstop] at hrun
      obtain ⟨rfl, -⟩ := run_pure_inv hrun
      exact hset _ hstop
  | .tail hev hcut =>
    unfold processPayload at hrun
    rw [run_bind_ok hev, run_get_bind] at hrun
    split at hrun
    case isTrue hsome =>
      obtain ⟨-, rfl⟩ := run_pure_inv hrun
      simp [herr] at hsome
    case isFalse =>
      split at hrun
      case isTrue hstop =>
        obtain ⟨rfl, -⟩ := run_pure_inv hrun
        exact hset _ hstop
      case isFalse => exact Payload.Cut.needStop hset hcut hrun herr

end

theorem LogEvent.visits_whole (hset : NeverReset needStop) {k k' : Nat} {ev : LogEvent}
    (hrun : (processEvent lib os needStop k ev).run w = .ok k' w') (herr : w'.error = none)
    (hgoes : needStop k' = false) : handledOf (ev.visits lib os needStop k w) = ev.leaves := by
  refine LogEvent.handledOf_visits (fun hcut => ?_) hrun herr
  rw [LogEvent.Cut.needStop hset hcut hrun herr] at hgoes
  cases hgoes

mutual

theorem LogEvent.visits_later (hset : NeverReset needStop) (k : Nat) (ev : LogEvent) (w : World) :
    handledOf (ev.visits lib os needStop k w) <+: ev.leaves := by
  match ev with
  | .leaf ev =>
    unfold LogEvent.visits LogEvent.leaves
    exact List.prefix_rfl
  | .transactionPayload when payload =>
    unfold LogEvent.visits LogEvent.leaves
    split
    · exact List.nil_prefix
    · exact Payload.visits_later hset k payload _

theorem Payload.visits_later (hset : NeverReset needStop) (k : Nat) (payload : Payload) (w : World) :
    handledOf (payload.visits lib os needStop k w) <+: payload.leaves := by
  match payload with
  | .nil =>
    unfold Payload.visits
    exact List.nil_prefix
  | .failed desc =>
    unfold Payload.visits
    exact List.nil_prefix
  | .cons ev rest =>
    unfold Payload.visits Payload.leaves
    have hfirst : handledOf (ev.visits lib os needStop k w ++ []) <+: ev.leaves ++ rest.leaves := by
      rw [List.append_nil]
      exact (LogEvent.visits_later hset k ev w).trans (List.prefix_append ..)
    cases hev : (processEvent lib os needStop k ev).run w with
    | error => exact hfirst
    | ok k' w' =>
      dsimp only
      split
      case isTrue => exact hfirst
      case isFalse hnone =>
        split
        case isTrue => exact hfirst
        case isFalse hgoes =>
          rw [handledOf_append, LogEvent.visits_whole hset hev (by simpa using hnone)
            (Bool.eq_false_iff.mpr hgoes)]
          exact (List.prefix_append_right_inj _).mpr (Payload.visits_later hset _ rest _)

end

theorem Packet.visits_later (hset : NeverReset needStop) (k : Nat) (w : World) (p : Packet) :
    handledOf (p.visits lib os needStop k w) <+: p.leaves := by
  cases p with
  | fetchError | eof | failed => exact List.nil_prefix
  | heartbeat => exact List.prefix_rfl
  | event size ev => exact LogEvent.visits_later hset k ev _

theorem Packet.visits_whole (hset : NeverReset needStop) {k k' : Nat} {p : Packet}
    (hrun : (turn lib os needStop k p).run w = .ok (.next k') w') :
    handledOf (p.visits lib os needStop k w) = p.leaves := by
  cases p with
  | fetchError | eof | failed => cases hrun
  | heartbeat => rfl
  | event size ev =>
    unfold turn at hrun
    obtain ⟨_, _, hsize, hrun⟩ := run_bind_inv hrun
    cases hsize
    obtain ⟨k₁, w₁, hev, hrun⟩ := run_bind_inv hrun
    rw [run_get_bind] at hrun
    split at hrun
    case isTrue => cases hrun
    case isFalse hnone =>
      refine LogEvent.visits_whole hset hev (by simpa using hnone) (Bool.eq_false_iff.mpr fun hstop => ?_)
      obtain ⟨_, _, -, hrun⟩ := run_bind_inv hrun
      rw [lookAgain, if_pos hstop] at hrun
      cases hrun

theorem loopVisits_later (hset : NeverReset needStop) (k : Nat) (packets : List Packet) (w : World) :
    handledOf (loopVisits lib os needStop k packets w) <+: packets.flatMap Packet.leaves := by
  induction packets generalizing k w with
  | nil => exact List.nil_prefix
  | cons p ps ih =>
    unfold loopVisits
    rw [List.flatMap_cons]
    have hfirst : handledOf (p.visits lib os needStop k w ++ []) <+:
        p.leaves ++ ps.flatMap Packet.leaves := by
      rw [List.append_nil]
      exact (Packet.visits_later hset k w p).trans (List.prefix_append ..)
    cases hrun : (turn lib os needStop k p).run w with
    | error => exact hfirst
    | ok t w' =>
      cases t with
      | done => exact hfirst
      | next k' =>
        dsimp only
        rw [handledOf_append, Packet.visits_whole hset hrun]
        exact (List.prefix_append_right_inj _).mpr (ih k' w')

-- ---------------------------------------------------------------------------
-- Joining is sound
-- ---------------------------------------------------------------------------

/-- A listener that joins a log at place `p`. -/
theorem Place.synchronises {p q : Place} {packets : List Packet} {k : Nat}
    (hset : NeverReset needStop) (he : w.error = none) (hs : w.obj.state = .inprocess1)
    (hlog : Path Place.Next p (packets.flatMap Packet.leaves) q) :
    Synchronises w (loopVisits lib os needStop k packets w) := by
  obtain ⟨later, hlater⟩ := @loopVisits_later lib os needStop hset k packets w
  rw [← hlater] at hlog
  obtain ⟨p', hpath, -⟩ := hlog.append_inv
  have hloop : Triple (replicationLoop lib os needStop k packets) w _ _ :=
    (follows_invariant p w).replicationLoop (h := []) packets k he
      (fun q hq => ⟨⟨by simp, List.Pairwise.nil, by simp⟩, fun _ => ⟨.early hs rfl, by simp⟩⟩)
      fun _ _ => trivial
  rw [List.nil_append] at hloop
  cases hrun : (replicationLoop lib os needStop k packets).run w with
  | ok t w' => exact (hloop.ok hrun p' hpath).1
  | error c w' => exact hloop.error hrun p' hpath

/-- A listener that joins a log after `pre` tells nothing in `INPROCESS_1` and
misses no table map afterwards, whatever the end of the run. -/
theorem loopVisits_synchronises {pre : List Handled} {q : Place} {packets : List Packet} {k : Nat}
    (hset : NeverReset needStop) (he : w.error = none) (hs : w.obj.state = .inprocess1)
    (hlog : Path Place.Next .between (pre ++ packets.flatMap Packet.leaves) q) :
    Synchronises w (loopVisits lib os needStop k packets w) := by
  obtain ⟨p, -, hlog⟩ := hlog.append_inv
  exact p.synchronises hset he hs hlog

def joiningWorld : World :=
  (sampleWorld true true true).put
    { (sampleWorld true true true).obj with state := .inprocess1, positionWasSetted := false }

def gtid : LeafEvent := .other .gtidLog 4 gtidLog_unlisted

def groupStart : List LeafEvent := [gtid, .query 5 (ascii "BEGIN"), .tableMap 6 sampleTable]

def groupEnd : List LeafEvent := [sampleRows, .xid 8]

def cutPackets : List Packet :=
  groupEnd.map samplePacket ++ .heartbeat 40 9 :: (groupStart ++ groupEnd).map samplePacket

theorem cutPackets_log :
    Path Place.Next .between (groupStart.map Handled.event ++ cutPackets.flatMap Packet.leaves) .between :=
  have group {xs : List Handled} {q : Place} (h : Path Place.Next .between xs q) :
      Path Place.Next .between ((groupStart ++ groupEnd).map Handled.event ++ xs) q :=
    .cons (.gtid rfl) <| .cons (.begins (by decide)) <| .cons .tableMap <|
      .cons (.rows (List.mem_singleton.mpr rfl)) <| .cons .xid h
  group (.cons .heartbeat (group .nil))

theorem loopVisits_synchronises_sample : Synchronises joiningWorld
    (loopVisits sampleLibrary sampleAllocator (fun _ => false) 0 cutPackets joiningWorld) :=
  loopVisits_synchronises (by rintro _ ⟨⟩) rfl rfl cutPackets_log

/-- A heartbeat inside of a group is taken for the sign that none is open. -/
example : returned (fun _ w' => w'.error == some rowsEventError)
    ((replicationLoop sampleLibrary sampleAllocator (fun _ => false) 0
      [.heartbeat 40 9, samplePacket sampleRows]).run joiningWorld) = true := by
  decide +kernel

-- ---------------------------------------------------------------------------
-- Groups that are met from their beginning
-- ---------------------------------------------------------------------------

def Handled.isGtid : Handled → Bool
  | .event (.other type ..) => type.isGtid
  | _ => false

theorem Handled.settles_of_isGtid (h : x.isGtid = true) : x.settles = true := by
  cases x with
  | heartbeat => rfl
  | event ev => cases ev <;> first | exact h | cases h

/-- The rows event has no table map, and the listener asks for it. -/
def Visit.Misses (v : Visit) : Prop :=
  ∃ ev isRows, v.1 = .event (.rows ev isRows) ∧ v.2.obj.state = .inprocess ∧ v.2.obj.mapOf ev = none

/-- The rows event has its table map, and its rows are delivered if the table is
watched and they can be decoded. -/
def Visit.Delivers (lib : Library) (os : Allocator) (v : Visit) : Prop :=
  ∀ ev isRows, v.1 = .event (.rows ev isRows) → ∃ map, v.2.obj.mapOf ev = some map ∧
    (v.2.obj.watches map = true →
      ∀ w', (handle lib os v.1).run v.2 = .ok () w' → w'.error = none →
        ∃ x : ReplLogXRows, x.Of ev map ∧
          w'.calls = v.2.calls ++ v.2.obj.starts ev.when ++ v.2.obj.rowCalls (some x))

/-- Nothing is called in `INPROCESS_1`, which is not entered again; no table map is
missed; and behind a GTID event all rows of watched tables are delivered. -/
structure JoinsGroups (lib : Library) (os : Allocator) (w₀ : World) (visits : List Visit) : Prop where
  silent : ∀ v ∈ visits, v.2.obj.state = .inprocess1 → v.2.calls = w₀.calls
  stays : visits.Pairwise fun v v' => v.2.obj.state = .inprocess → v'.2.obj.state = .inprocess
  mapped : ∀ v ∈ visits, ¬ v.Misses
  delivered : visits.Pairwise fun v v' => v.1.isGtid = true → v'.Delivers lib os

theorem Visit.Resolves.not_misses (h : v.2.obj.state = .inprocess → v.Resolves) : ¬ v.Misses := by
  obtain ⟨x, w⟩ := v
  rintro ⟨ev, isRows, rfl, hs, hm⟩
  have hres : (w.obj.mapOf ev).isSome := h hs
  rw [show w.obj.mapOf ev = none from hm] at hres
  cases hres

theorem Visit.Resolves.delivers (hr : v.Resolves) (he : v.2.error = none)
    (hs : v.2.obj.state = .inprocess) : v.Delivers lib os := by
  obtain ⟨x, w⟩ := v
  rintro ev isRows rfl
  obtain ⟨map, hm⟩ := Option.isSome_iff_exists.mp (show (w.obj.mapOf ev).isSome from hr)
  refine ⟨map, hm, fun hw w' hrun herr => ?_⟩
  cases (handle_step he (.event (.rows ev isRows))).ok hrun with
  | rows h =>
    cases h with
    | early h => exact absurd hs h
    | noMap => cases herr
    | unwatched _ hm' hw' =>
      cases hm.symm.trans hm'
      rw [hw'] at hw
      cases hw
    | delivery _ hm' _ hd hiff =>
      cases hm.symm.trans hm'
      obtain ⟨y, rfl⟩ := Option.isSome_iff_exists.mp (hiff.mp herr)
      exact ⟨y, hd.of y rfl, hd.calls⟩

theorem errorless_invariant : Invariant lib os (fun _ h => ∀ v ∈ h, v.2.error = none) (fun _ => True)
    fun _ _ h => ∀ v ∈ h, v.2.error = none where
  rpl _ hw := hw
  fail _ hw := hw
  step {w h} x he hw _ := by
    have hsnoc : ∀ v ∈ h ++ [(x, w)], v.2.error = none :=
      List.forall_mem_append.mpr ⟨hw, List.forall_mem_singleton.mpr he⟩
    exact (handle_step he x).mono (fun _ _ _ => hsnoc) fun _ _ _ => hsnoc
  memory hw := hw

theorem loopVisits_errorless {packets : List Packet} {k : Nat} (he : w.error = none) :
    ∀ v ∈ loopVisits lib os needStop k packets w, v.2.error = none := by
  have hloop : Triple (replicationLoop lib os needStop k packets) w _ _ :=
    errorless_invariant.replicationLoop (h := []) packets k he (by simp) fun _ _ => trivial
  cases hrun : (replicationLoop lib os needStop k packets).run w with
  | ok t w' => exact hloop.ok hrun
  | error c w' => exact hloop.error hrun

theorem Synchronises.joinsGroups {visits : List Visit} (h : Synchronises w₀ visits)
    (he : ∀ v ∈ visits, v.2.error = none) : JoinsGroups lib os w₀ visits where
  silent v hv hs := (h.silent v hv (by rw [hs]; decide)).2
  stays := h.stays.imp fun hvv' hs => hvv' (.inl hs)
  mapped v hv := Visit.Resolves.not_misses (h.found v hv)
  delivered := by
    refine h.stays.imp_of_mem fun {v v'} _ hv' hvv' hg => ?_
    have hs := hvv' (.inr (Handled.settles_of_isGtid hg))
    exact (h.found v' hv' hs).delivers (he v' hv') hs

theorem Listener.settle_ne (o : Listener) : o.settle.state ≠ .inprocess1 := by
  unfold Listener.settle
  split
  case isTrue => exact fun h => by cases h
  case isFalse h => exact h

theorem Step.silent (h : Step os w x w') (hs : w'.obj.state = .inprocess1) :
    w.obj.state = .inprocess1 ∧ w'.calls = w.calls := by
  cases h with
  | noMem | query | formatDescription | tableMap | rotate | noDescription => exact ⟨hs, rfl⟩
  | opens | commits | closes | xid | xaPrepareLog | heartbeat => exact absurd hs (Listener.settle_ne _)
  | @other type =>
    cases hg : type.isGtid with
    | true =>
      rw [hg] at hs
      exact absurd hs (Listener.settle_ne _)
    | false =>
      rw [hg] at hs
      have hs : w.obj.state = .inprocess1 := hs
      exact ⟨hs, by simp [Listener.heartbeats, hs]⟩
  | rows h =>
    cases h with
    | early => exact ⟨hs, rfl⟩
    | noMap h | unwatched h =>
      rw [show w.obj.state = .inprocess1 from hs] at h
      cases h
    | delivery h _ _ hd =>
      rw [hd.obj] at hs
      rw [show w.obj.state = .inprocess1 from hs] at h
      cases h

theorem Broken.not_early {c : Crash} (h : Broken os w x c w') : w'.obj.state ≠ .inprocess1 := by
  cases h with
  | nullHeartbeat => exact Listener.settle_ne _
  | rows h hd =>
    rw [hd.obj]
    rw [show _ = ReplState.inprocess from h]
    decide

theorem silent_invariant (w₀ : World) : Invariant lib os
    (fun w _ => w.obj.state = .inprocess1 → w.calls = w₀.calls) (fun _ => True)
    fun _ w _ => w.obj.state = .inprocess1 → w.calls = w₀.calls where
  rpl _ hw := hw
  fail _ hw := hw
  step x he hw _ := by
    refine (handle_step he x).mono (fun _ w' h hs' => ?_) fun _ _ h hs' => absurd hs' h.not_early
    obtain ⟨hs, hcalls⟩ := h.silent hs'
    exact hcalls.trans (hw hs)
  memory hw := hw

/-- A listener that joins a log after `pre` calls nothing in `INPROCESS_1`, has every
table map it asks for, and delivers the rows of each group whose GTID event it meets. -/
theorem replicationLoop_joins_groups {pre : List Handled} {q : Place} {packets : List Packet} {k : Nat}
    (hset : NeverReset needStop) (he : w.error = none) (hs : w.obj.state = .inprocess1)
    (hlog : Path Place.Next .between (pre ++ packets.flatMap Packet.leaves) q) :
    JoinsGroups lib os w (loopVisits lib os needStop k packets w) ∧
      Triple (replicationLoop lib os needStop k packets) w
        (fun _ w' => w'.obj.state = .inprocess1 → w'.calls = w.calls)
        fun _ w' => w'.obj.state = .inprocess1 → w'.calls = w.calls := by
  obtain ⟨p, -, hlog⟩ := hlog.append_inv
  refine ⟨(p.synchronises hset he hs hlog).joinsGroups (loopVisits_errorless he), ?_⟩
  exact (silent_invariant w).replicationLoop (h := []) packets k he (fun _ => rfl) fun _ _ => trivial

theorem replicationLoop_joins_groups_sample : JoinsGroups sampleLibrary sampleAllocator joiningWorld
    (loopVisits sampleLibrary sampleAllocator (fun _ => false) 0 cutPackets joiningWorld) :=
  (replicationLoop_joins_groups (by rintro _ ⟨⟩) rfl rfl cutPackets_log).1

-- ---------------------------------------------------------------------------
-- What is told
-- ---------------------------------------------------------------------------

/-- The listener in `INPROCESS_1` at a place of the stream. -/
structure Listener.Joining (o : Listener) (s : StreamState) : Prop where
  state : o.state = .inprocess1
  bracket : s.bracket = .outside
  flag : o.inTransaction = 0
  maps : ∀ id, o.globTableMapEvents.find id = s.maps id
  keyed : o.globTableMapEvents.Keyed

theorem Listener.Joining.settle {o : Listener} (h : o.Joining s) : o.settle.At s where
  state := by simp [Listener.settle, h.state]
  bracket := by rw [h.bracket]; exact h.flag
  maps := h.maps
  keyed := h.keyed

theorem Listener.Joining.commits {o : Listener} (h : o.Joining s) (when : Nat) :
    o.commits when = [] ∧ s.commits = [] := by
  simp [Listener.commits, Listener.closing, h.state, StreamState.commits, h.bracket]

theorem Step.joins (h : Step os w x w') (herr : w'.error = none) (hx : x.settles = true)
    (hj : w.obj.Joining s) :
    w'.obj.At (s.next w.obj.pairs x) ∧
      ∃ cs, w'.calls = w.calls ++ cs ∧ w.obj.Tells cs (s.out w.obj.pairs x) := by
  have silent : ∃ cs, w.calls = w.calls ++ cs ∧ w.obj.Tells cs [] :=
    ⟨[], (List.append_nil _).symm, Listener.tells_nil⟩
  have hended : w.obj.ended.At { s with bracket := .outside } :=
    hj.settle.of_eq hj.settle.state rfl rfl rfl
  cases h with
  | noMem | noDescription => cases herr
  | formatDescription | tableMap | rotate | rows => cases hx
  | query hg ho hc => simp [Handled.settles, ho, hc] at hx
  | opens hg ho =>
    simp only [StreamState.next, StreamState.out, if_pos ho,
      if_neg fun hc => not_opens_of_closes hc ho]
    exact ⟨hj.settle.of_eq hj.settle.state rfl rfl rfl, silent⟩
  | commits hg hc hclose => simp [Listener.closing, hj.state] at hclose
  | closes hg hc =>
    simp only [StreamState.next, StreamState.out, if_pos hc, if_neg (not_opens_of_closes hc),
      (hj.commits 0).2]
    exact ⟨hended, silent⟩
  | @xid when | @xaPrepareLog when =>
    simp only [StreamState.next, StreamState.out, (hj.commits when).2, (hj.commits when).1,
      World.say_nil]
    exact ⟨hended, silent⟩
  | @other type when unlisted =>
    rw [show type.isGtid = true from hx]
    refine ⟨hj.settle, w.obj.heartbeats when, rfl, Listener.tells_heartbeats ?_⟩
    simp [Listener.heartbeats, hj.state]
  | heartbeat =>
    refine ⟨hj.settle, _, rfl, Listener.tells_heartbeats ?_⟩
    split <;> simp [Call.isHeartbeat]

theorem Step.waits (h : Step os w x w') (herr : w'.error = none) (hx : x.settles = false)
    (hj : w.obj.Joining s) :
    w'.obj.Joining (s.next w.obj.pairs x) ∧ w'.calls = w.calls := by
  refine ⟨?_, (h.quiet hx hj.state).2⟩
  cases h with
  | noMem => cases herr
  | opens hg ho => simp [Handled.settles, ho] at hx
  | commits hg hc | closes hg hc => simp [Handled.settles, hc] at hx
  | xid | xaPrepareLog | heartbeat | noDescription => cases hx
  | query hg ho hc => simpa only [StreamState.next, if_neg ho, if_neg hc, World.ask_obj] using hj
  | formatDescription | rotate => exact ⟨hj.state, hj.bracket, hj.flag, hj.maps, hj.keyed⟩
  | tableMap =>
    refine ⟨hj.state, hj.bracket, hj.flag, fun id => ?_, hj.keyed.store _⟩
    simp only [World.put_obj, TableMapEvents.find_store, StreamState.next, Function.update_apply,
      hj.maps id]
  | @rows ev isRows _ h =>
    have hnext : s.next w.obj.pairs (.event (.rows ev isRows)) = s :=
      if_neg fun hs => by simp [hj.bracket] at hs
    rw [hnext]
    cases h with
    | early => exact hj
    | noMap h | unwatched h | delivery h => rw [hj.state] at h; cases h
  | @other type =>
    rw [show type.isGtid = false from hx]
    exact hj

/-- The events before the first that settles, and those from it on. -/
def early (xs : List Handled) : List Handled := xs.takeWhile fun x => !x.settles

def late (xs : List Handled) : List Handled := xs.dropWhile fun x => !x.settles

theorem early_late (xs : List Handled) : early xs ++ late xs = xs := List.takeWhile_append_dropWhile

theorem late_snoc_of_nil (h : late xs = []) (x : Handled) :
    late (xs ++ [x]) = if x.settles then [x] else [] := by
  rw [late] at h ⊢
  rw [List.dropWhile_append, h]
  cases hx : x.settles <;> simp [hx]

theorem late_snoc_of_ne (h : late xs ≠ []) (x : Handled) : late (xs ++ [x]) = late xs ++ [x] := by
  rw [late] at h ⊢
  rw [List.dropWhile_append, if_neg (by simpa using h), late]

theorem early_of_late {ys : List Handled} (h : late (xs ++ ys) = late xs ++ ys) :
    early (xs ++ ys) = early xs := by
  have hsplit : early (xs ++ ys) ++ (late xs ++ ys) = early xs ++ (late xs ++ ys) :=
    calc early (xs ++ ys) ++ (late xs ++ ys)
      _ = xs ++ ys := by rw [← h, early_late]
      _ = early xs ++ (late xs ++ ys) := by rw [← List.append_assoc, early_late]
  exact List.append_cancel_right hsplit

/-- Without an error: the listener waits at the place of the stream, or it told
what the stream says from the first event that settles on. -/
inductive Joined (w₀ : World) (s : StreamState) (w : World) (xs : List Handled) : Prop
  | waits (late_nil : late xs = []) (joining : w.obj.Joining ((stream w₀.obj.pairs).after s xs))
    (calls : w.calls = w₀.calls)
  | tells {cs : List Call} (late_ne : late xs ≠ [])
    (at_end : w.obj.At ((stream w₀.obj.pairs).after s xs)) (calls : w.calls = w₀.calls ++ cs)
    (told : w₀.obj.Tells cs
      ((stream w₀.obj.pairs).trace ((stream w₀.obj.pairs).after s (early xs)) (late xs)))

theorem Joined.step (hj : Joined w₀ s w xs) (hkept : Kept w₀ w) (h : Step os w x w')
    (herr : w'.error = none) : Joined w₀ s w' (xs ++ [x]) := by
  have hafter : (stream w₀.obj.pairs).after s (xs ++ [x]) =
      ((stream w₀.obj.pairs).after s xs).next w.obj.pairs x := by
    rw [Transducer.after_append, hkept.pairs]
    rfl
  cases hj with
  | waits hnil hjoin hcalls =>
    have hlate := late_snoc_of_nil hnil x
    cases hx : x.settles with
    | false =>
      rw [hx, if_neg Bool.false_ne_true] at hlate
      obtain ⟨hjoin', hcalls'⟩ := h.waits herr hx hjoin
      exact .waits hlate (hafter ▸ hjoin') (hcalls'.trans hcalls)
    | true =>
      rw [hx, if_pos rfl] at hlate
      obtain ⟨hat, cs, hcs, htells⟩ := h.joins herr hx hjoin
      have hearly : early (xs ++ [x]) = xs := by
        rw [early_of_late (by rw [hlate, hnil]; rfl)]
        simpa [hnil] using early_late xs
      refine .tells (by simp [hlate]) (hafter ▸ hat) (hcs.trans (by rw [hcalls])) ?_
      rw [hearly, hlate, Transducer.trace_cons, Transducer.trace_nil, List.append_nil]
      exact hkept.tells (hkept.pairs ▸ htells)
  | tells hne hat hcalls htold =>
    have hlate := late_snoc_of_ne hne x
    obtain ⟨-, hat', cs', hcs', htells'⟩ := h.follows herr hat
    refine .tells (by simp [hlate]) (hafter ▸ hat') (by rw [hcs', hcalls, List.append_assoc]) ?_
    rw [early_of_late hlate, hlate, Transducer.trace_append]
    refine htold.append ?_
    rw [← Transducer.after_append, early_late, Transducer.trace_cons, Transducer.trace_nil,
      List.append_nil]
    exact hkept.tells (hkept.pairs ▸ htells')

theorem joined_invariant (w₀ : World) (s : StreamState) :
    Invariant lib os (fun w h => w.error = none → Kept w₀ w ∧ Joined w₀ s w (handledOf h))
      (fun _ => True) fun _ _ _ => True where
  rpl _ h he := by
    obtain ⟨hkept, hj⟩ := h he
    refine ⟨⟨hkept.onRow, hkept.onHeartbeat, hkept.onTransaction, hkept.pairs, hkept.state⟩, ?_⟩
    cases hj with
    | waits hnil hjoin hcalls =>
      exact .waits hnil ⟨hjoin.state, hjoin.bracket, hjoin.flag, hjoin.maps, hjoin.keyed⟩ hcalls
    | tells hne hat hcalls htold =>
      exact .tells hne (hat.of_eq hat.state hat.bracket rfl rfl) hcalls htold
  fail _ _ he := by cases he
  step := by
    intro w h x he hw _
    obtain ⟨hkept, hj⟩ := hw he
    refine (handle_step he x).mono (fun _ w' hstep herr => ?_) fun _ _ _ => trivial
    rw [handledOf_append]
    exact ⟨hkept.trans hstep.kept, hj.step hkept hstep herr⟩
  memory _ := trivial

-- ---------------------------------------------------------------------------
-- Joining is complete
-- ---------------------------------------------------------------------------

theorem StreamState.next_maps (hx : ∀ when map, x ≠ .event (.tableMap when map)) :
    (s.next pairs x).maps = s.maps := by
  cases x with
  | heartbeat => rfl
  | event ev =>
    cases ev with
    | tableMap when map => exact absurd rfl (hx when map)
    | query =>
      simp only [StreamState.next]
      split
      · rfl
      · split <;> rfl
    | rows =>
      simp only [StreamState.next]
      split <;> rfl
    | formatDescription | rotate | xid | xaPrepareLog | other => rfl

theorem StreamState.commits_rows : s.commits.filterMap Item.row? = [] := by
  unfold StreamState.commits
  split <;> rfl

theorem StreamState.out_rows : (s.out pairs x).filterMap Item.row? =
    match x with
    | .event (.rows ev _) => (s.table pairs ev).toList.map (ev, ·)
    | _ => [] := by
  cases x with
  | heartbeat => rfl
  | event ev =>
    cases ev with
    | query =>
      simp only [StreamState.out]
      split
      · exact StreamState.commits_rows
      · rfl
    | xid | xaPrepareLog => exact StreamState.commits_rows
    | rows ev isRows =>
      simp only [StreamState.out]
      cases s.table pairs ev with
      | none => rfl
      | some map => dsimp only; split <;> rfl
    | formatDescription | tableMap | rotate | other => rfl

/-- The rows of a log depend on the table maps of the first group only. -/
theorem Place.watchedRows_eq {p q : Place} (hlog : Path Place.Next p xs q)
    (h : ∀ id ∈ p.ids, s.maps id = s'.maps id) : watchedRows pairs s xs = watchedRows pairs s' xs := by
  induction hlog generalizing s s' with
  | nil => rfl
  | @cons p r q x xs first rest ih =>
    have hout : (s.out pairs x).filterMap Item.row? = (s'.out pairs x).filterMap Item.row? := by
      rw [StreamState.out_rows, StreamState.out_rows]
      cases first with
      | @rows ids ev isRows hid => simp only [StreamState.table, h ev.tableId hid]
      | _ => rfl
    have hnext : ∀ id ∈ r.ids, (s.next pairs x).maps id = (s'.next pairs x).maps id := by
      intro id hid
      cases first with
      | @tableMap ids when map =>
        simp only [StreamState.next, Function.update_apply]
        split
        case isTrue => rfl
        case isFalse hne => exact h id ((List.mem_cons.mp hid).resolve_left hne)
      | begins | rows | statement | other | formatDescription | rotate =>
        rw [StreamState.next_maps (by simp), StreamState.next_maps (by simp)]
        exact h id hid
      | gtid | ends | xid | xaPrepareLog | heartbeat => cases hid
    rw [watchedRows_cons, watchedRows_cons, hout, ih hnext]

theorem settles_of_late {rest : List Handled} (h : late xs = x :: rest) : x.settles = true := by
  have hhead := List.head?_dropWhile_not (fun x => !x.settles) xs
  rw [late] at h
  rw [h] at hhead
  simpa using hhead

theorem Place.watchedRows_late {p q : Place} (hlog : Path Place.Next p (late xs) q)
    (s s' : StreamState) : watchedRows pairs s (late xs) = watchedRows pairs s' (late xs) := by
  cases hx : late xs with
  | nil => rfl
  | cons x rest =>
    have hsettles := settles_of_late hx
    have hout (s : StreamState) : (s.out pairs x).filterMap Item.row? = [] := by
      rw [StreamState.out_rows]
      cases x with
      | heartbeat => rfl
      | event ev => cases ev <;> first | rfl | cases hsettles
    rw [hx] at hlog
    cases hlog with
    | cons first hrest =>
      rw [watchedRows_cons, watchedRows_cons, hout, hout, Place.watchedRows_eq hrest]
      rw [first.ids_of_settles hsettles]
      exact fun id hid => absurd hid List.not_mem_nil

/-- The listener that joins a log after `pre` tells, from the first event that
settles on, the rows that the log has for one that is there from its beginning. -/
theorem replicationLoop_joins {pre : List Handled} {q : Place} {packets : List Packet} {k : Nat}
    {t : Turn} (hset : NeverReset needStop) (he : w.error = none) (hs : w.obj.state = .inprocess1)
    (hflag : w.obj.inTransaction = 0) (hkeyed : w.obj.globTableMapEvents.Keyed)
    (hrow : w.obj.onRow = true)
    (hlog : Path Place.Next .between (pre ++ packets.flatMap Packet.leaves) q)
    (hrun : (replicationLoop lib os needStop k packets).run w = .ok t w') (herr : w'.error = none)
    (s : StreamState) :
    let xs := handledOf (loopVisits lib os needStop k packets w)
    ∃ cs, w'.calls = w.calls ++ cs ∧
      List.Forall₂ (fun x d => ReplLogXRows.Of x d.1 d.2) (cs.filterMap Call.row?)
        (watchedRows w.obj.pairs ((stream w.obj.pairs).after s (pre ++ early xs)) (late xs)) := by
  intro xs
  have hj : w.obj.Joining ⟨w.obj.globTableMapEvents.find, .outside⟩ :=
    ⟨hs, rfl, hflag, fun _ => rfl, hkeyed⟩
  have hloop : Triple (replicationLoop lib os needStop k packets) w _ _ :=
    (joined_invariant w ⟨w.obj.globTableMapEvents.find, .outside⟩).replicationLoop (h := []) packets k
      he (fun _ => ⟨Kept.refl w, .waits rfl hj rfl⟩) fun _ _ => trivial
  obtain ⟨-, hjoined⟩ := hloop.ok hrun herr
  rw [List.nil_append] at hjoined
  obtain ⟨later, hlater⟩ := @loopVisits_later lib os needStop hset k packets w
  obtain ⟨p, -, hpath⟩ := hlog.append_inv
  rw [← hlater, ← early_late (handledOf (loopVisits lib os needStop k packets w)),
    List.append_assoc] at hpath
  obtain ⟨p', -, hpath⟩ := hpath.append_inv
  obtain ⟨q', hpath, -⟩ := hpath.append_inv
  cases hjoined with
  | waits hnil hjoin hcalls =>
    refine ⟨[], by rw [hcalls, List.append_nil], ?_⟩
    rw [show late xs = [] from hnil]
    exact List.Forall₂.nil
  | @tells cs hne hat hcalls htold =>
    refine ⟨cs, hcalls, ?_⟩
    rw [Place.watchedRows_late hpath _ ((stream w.obj.pairs).after
      ⟨w.obj.globTableMapEvents.find, .outside⟩ (early xs))]
    exact htold.rows hrow

theorem replicationLoop_joins_sample : ∃ t w',
    (replicationLoop sampleLibrary sampleAllocator (fun _ => false) 0 cutPackets).run joiningWorld =
      .ok t w' ∧
    ∃ cs, w'.calls = cs ∧ List.Forall₂ (fun x d => ReplLogXRows.Of x d.1 d.2)
      (cs.filterMap Call.row?) [(sampleInsert, sampleTable)] := by
  obtain ⟨t, w', hrun, herr⟩ := exists_of_returned (show returned (fun _ w' => w'.error.isNone)
    ((replicationLoop sampleLibrary sampleAllocator (fun _ => false) 0 cutPackets).run joiningWorld) =
      true by decide +kernel)
  have herr : w'.error = none := by simpa using herr
  obtain ⟨cs, hcs, htold⟩ := @replicationLoop_joins sampleLibrary sampleAllocator (fun _ => false)
    joiningWorld w' (groupStart.map Handled.event) .between cutPackets 0 t (by rintro _ ⟨⟩) rfl rfl rfl
    (fun _ h => absurd h List.not_mem_nil) rfl cutPackets_log hrun herr ⟨fun _ => none, .outside⟩
  rw [handledOf_loopVisits (fun _ => rfl) hrun herr] at htold
  exact ⟨t, w', hrun, cs, hcs, htold⟩

end RplListener
