import RplListener.Lib.Beside
import RplListener.Listener.Events
import RplListener.Listener.Stream

/-!
# Every event has one owner

Between two steps the events that exist are those the listener keeps and those in
flight. Handling an event gives it up or keeps it in the place of an older one, and
no event is looked at that does not exist. The world is changed as the listener
without its events changes it.
-/

namespace RplListener

open Bytes Refine

variable {lib : Library} {os : Allocator} {needStop : Nat → Bool} {e : EventWorld}
variable {flight : List Nat} {id tableId : Nat}

-- ---------------------------------------------------------------------------
-- Pointers
-- ---------------------------------------------------------------------------

namespace Keeper

variable {k : Keeper} {old t : Nat}

def Keyed (k : Keeper) : Prop := (k.tableMaps.map Prod.fst).Nodup

theorem find_insert : (k.insert tableId id).find t = if t = tableId then some id else k.find t := by
  unfold find insert
  rw [List.find?_cons]
  split
  case h_1 heq =>
    simp only [beq_iff_eq] at heq
    simp [heq]
  case h_2 heq =>
    simp only [beq_eq_false_iff_ne] at heq
    rw [if_neg (Ne.symm heq)]

theorem find_without (h : t ≠ tableId) : (k.without tableId).find t = k.find t := by
  unfold find without
  rw [List.find?_filter]
  congr 2
  funext x
  by_cases hx : x.1 = t
  · simp [hx, h]
  · simp [hx]

theorem Keyed.without (h : k.Keyed) (tableId : Nat) : (k.without tableId).Keyed :=
  (List.filter_sublist.map Prod.fst).nodup h

theorem Keyed.insert (h : k.Keyed) (hn : k.find tableId = none) : (k.insert tableId id).Keyed := by
  unfold find at hn
  rw [Option.map_eq_none_iff, List.find?_eq_none] at hn
  apply List.nodup_cons.mpr
  constructor
  · intro hmem
    obtain ⟨x, hx, heq⟩ := List.mem_map.mp hmem
    exact hn x hx (by simpa using heq)
  · exact h

theorem find_without_self : (k.without tableId).find tableId = none := by
  unfold find without
  simp

theorem ids_insert : (k.insert tableId id).ids.Perm (id :: k.ids) := by
  unfold ids insert mapIds
  simp

theorem ids_without (h : k.Keyed) (hf : k.find tableId = some old) :
    k.ids.Perm (old :: (k.without tableId).ids) := by
  unfold ids mapIds without
  unfold find at hf
  unfold Keyed at h
  generalize k.tableMaps = maps at h hf
  suffices hmaps : (maps.map Prod.snd).Perm
      (old :: (maps.filter fun x => x.1 != tableId).map Prod.snd) from
    (hmaps.append_left _).trans List.perm_middle
  induction maps with
  | nil => simp at hf
  | cons x maps ih =>
    obtain ⟨hx, h⟩ := List.nodup_cons.mp h
    by_cases heq : x.1 = tableId
    · -- The other tables are all of `maps`.
      have hrest : maps.filter (fun y => y.1 != tableId) = maps := by
        apply List.filter_eq_self.mpr
        intro y hy
        have hne : y.1 ≠ tableId := by
          rintro rfl
          exact hx (List.mem_map.mpr ⟨y, hy, heq.symm⟩)
        simpa using hne
      have hold : x.2 = old := by simpa [heq] using hf
      simp [heq, hrest, hold]
    · have hf : (maps.find? fun y => y.1 == tableId).map Prod.snd = some old := by
        simpa [heq] using hf
      simp only [List.map_cons, bne_iff_ne, ne_eq, heq, not_false_eq_true, List.filter_cons_of_pos]
      exact ((ih h hf).cons x.2).trans (List.Perm.swap ..)

theorem mem_of_find (h : k.find tableId = some id) : id ∈ k.ids := by
  unfold find at h
  obtain ⟨x, hx, rfl⟩ := Option.map_eq_some_iff.mp h
  exact List.mem_append_right _ (List.mem_map_of_mem (List.mem_of_find?_eq_some hx))

end Keeper

-- ---------------------------------------------------------------------------
-- Owners
-- ---------------------------------------------------------------------------

/-- The connection is open only while `my_conn` points to it. -/
def Client.Tidy (c : Client) : Prop := c.conn = .closed ∨ c.myConn = true

namespace EventWorld

/-- The events are those that are kept and those in flight. -/
structure Held (flight : List Nat) (e : EventWorld) : Prop where
  owned : e.events.Owned (e.keeper.ids ++ flight)
  keyed : e.keeper.Keyed

/-- The thread has a description event, and the object of every table map it finds. -/
structure Serves (flight : List Nat) (e : EventWorld) : Prop extends Held flight e where
  description : e.keeper.description.isSome = true
  maps : ∀ t, (e.world.obj.globTableMapEvents.find t).isSome → (e.keeper.find t).isSome
  tidy : e.client.Tidy

end EventWorld

open EventWorld

theorem EventWorld.Held.live (h : e.Held flight) (hid : id ∈ e.keeper.ids ++ flight) :
    id ∈ e.events.live := h.owned.live.mem_iff.mpr hid

namespace Events

theorem useEvent_run (h : id ∈ e.events.live) : (useEvent id).run e = .ok () e := by
  unfold useEvent
  rw [run_get_bind, if_pos h]
  rfl

theorem useDescription_run (h : e.Serves flight) : useDescription.run e = .ok () e := by
  obtain ⟨id, hid⟩ := Option.isSome_iff_exists.mp h.description
  unfold useDescription
  rw [run_get_bind, hid]
  exact useEvent_run (h.live (by simp [Keeper.ids, hid]))

theorem setKeeper_run (f : Keeper → Keeper) :
    (setKeeper f).run e = .ok () { e with keeper := f e.keeper } := rfl

theorem newEvent_run :
    newEvent.run e = .ok e.events.asked { e with events := e.events.granted } := rfl

theorem newEvent_triple {E : Crash → EventWorld → Prop} (h : e.Held flight) :
    Triple newEvent e (fun id e' => e'.client = e.client ∧ e'.keeper = e.keeper ∧
      e'.Held (id :: flight)) E :=
  Triple.of_run newEvent_run ⟨rfl, rfl, h.owned.granted.perm List.perm_middle.symm, h.keyed⟩

theorem deleteEvent_triple {E : Crash → EventWorld → Prop} {ids : List Nat}
    (h : e.events.Owned (id :: ids)) :
    Triple (deleteEvent id) e (fun _ e' => e'.client = e.client ∧ e'.keeper = e.keeper ∧
      e'.events.Owned ids) E := by
  have hfree := Heap.free_owned (E := fun (_ : Crash) _ => False) (Ptr.tame_block id ()) h
  refine (Triple.zoom (p := EventWorld.eventsPart) hfree).mono ?_ ?_
  · rintro _ _ ⟨h', ho, rfl⟩
    exact ⟨rfl, rfl, ho⟩
  · rintro _ _ ⟨_, hf, -⟩
    exact hf.elim

theorem dropEvent_triple {E : Crash → EventWorld → Prop} (h : e.Held (id :: flight)) :
    Triple (deleteEvent id) e (fun _ e' => e'.client = e.client ∧ e'.keeper = e.keeper ∧
      e'.Held flight) E := by
  refine (deleteEvent_triple (h.owned.perm List.perm_middle)).mono ?_ fun _ _ h => h
  rintro _ e' ⟨hc, hk, ho⟩
  exact ⟨hc, hk, by rwa [hk], hk ▸ h.keyed⟩

theorem dropTableMap_triple {E : Crash → EventWorld → Prop} (h : e.Held flight) :
    Triple (dropTableMap tableId) e (fun _ e' => e'.client = e.client ∧
      e'.keeper.description = e.keeper.description ∧ e'.Held flight ∧
      e'.keeper.find tableId = none ∧ ∀ t, t ≠ tableId → e'.keeper.find t = e.keeper.find t) E := by
  unfold dropTableMap
  apply Triple.get_bind
  cases hf : e.keeper.find tableId with
  | none => exact Triple.pure ⟨rfl, rfl, h, hf, fun _ _ => rfl⟩
  | some old =>
    have ho := h.owned.perm ((Keeper.ids_without h.keyed hf).append_right flight)
    refine Triple.bind (deleteEvent_triple ho) ?_
    rintro _ e₁ ⟨hc, hk, ho₁⟩
    have hkeyed : e₁.keeper.Keyed := hk ▸ h.keyed
    rw [← hk] at ho₁ ⊢
    exact Triple.of_run (setKeeper_run _) ⟨hc, rfl, ⟨ho₁, hkeyed.without tableId⟩,
      Keeper.find_without_self, fun _ => Keeper.find_without⟩

theorem keepTableMap_triple {E : Crash → EventWorld → Prop} (h : e.Held (id :: flight)) :
    Triple (keepTableMap tableId id) e (fun _ e' => e'.client = e.client ∧
      e'.keeper.description = e.keeper.description ∧ e'.Held flight ∧
      ∀ t, e'.keeper.find t = if t = tableId then some id else e.keeper.find t) E := by
  refine Triple.bind (dropTableMap_triple h) ?_
  rintro _ e₁ ⟨hc, hd, h₁, hnone, hfind⟩
  refine Triple.of_run (setKeeper_run _) ⟨hc, hd, ⟨?_, h₁.keyed.insert hnone⟩, fun t => ?_⟩
  · exact h₁.owned.perm (List.perm_middle.trans (Keeper.ids_insert.symm.append_right flight))
  · dsimp only
    rw [Keeper.find_insert]
    split
    · rfl
    · exact hfind t ‹_›

theorem dropDescription_triple {E : Crash → EventWorld → Prop} (h : e.Held flight) :
    Triple dropDescription e (fun _ e' => e'.client = e.client ∧
      e'.keeper = { e.keeper with description := none } ∧ e'.Held flight) E := by
  unfold dropDescription
  apply Triple.get_bind
  cases hd : e.keeper.description with
  | none =>
    refine Triple.pure ⟨rfl, ?_, h⟩
    rw [← hd]
  | some old =>
    have ho : e.events.Owned (old :: (e.keeper.mapIds ++ flight)) := by
      have := h.owned
      rwa [Keeper.ids, hd] at this
    refine Triple.bind (deleteEvent_triple ho) ?_
    rintro _ e₁ ⟨hc, hk, ho₁⟩
    have hkeyed : e₁.keeper.Keyed := hk ▸ h.keyed
    rw [← hk] at ho₁ ⊢
    exact Triple.of_run (setKeeper_run _) ⟨hc, rfl, ho₁, hkeyed⟩

theorem keepDescription_triple {E : Crash → EventWorld → Prop} (h : e.Held (id :: flight)) :
    Triple (keepDescription id) e (fun _ e' => e'.client = e.client ∧
      e'.keeper = { e.keeper with description := some id } ∧ e'.Held flight) E := by
  refine Triple.bind (dropDescription_triple h) ?_
  rintro _ e₁ ⟨hc, hk, h₁⟩
  have ho := h₁.owned
  rw [hk] at ho
  refine Triple.of_run (setKeeper_run _) ⟨hc, by rw [hk], ?_, h₁.keyed⟩
  rw [hk]
  exact ho.perm List.perm_middle

end Events

-- ---------------------------------------------------------------------------
-- Handling
-- ---------------------------------------------------------------------------

def Handled.maps (x : Handled) (m : TableMapEvents) : TableMapEvents :=
  match x with
  | .event (.tableMap _ ev) => m.store ev
  | _ => m

theorem Step.maps {w w' : World} {x : Handled} (h : Step os w x w') :
    w'.obj.globTableMapEvents = x.maps w.obj.globTableMapEvents := by
  cases h with
  | rows h =>
    cases h with
    | delivery _ _ _ hd => rw [hd.obj]; rfl
    | early | unwatched | noMap => rfl
  | @other type =>
    cases type.isGtid <;> rfl
  | _ => rfl

def EventsSound (_ : Crash) (e : EventWorld) : Prop := e.events.badFree = false

/-- The world is changed; no table map comes in that has no object. -/
theorem EventWorld.Serves.withWorld (h : e.Serves flight) {w : World}
    (hmaps : ∀ t, (w.obj.globTableMapEvents.find t).isSome → (e.keeper.find t).isSome) :
    (EventWorld.worldPart.set w e).Serves flight :=
  ⟨⟨h.owned, h.keyed⟩, h.description, hmaps, h.tidy⟩

theorem EventWorld.Serves.of_client {e' : EventWorld} (h : e.Serves flight)
    (hc : e'.client = e.client) (hk : e'.keeper = e.keeper) {flight' : List Nat}
    (h' : e'.Held flight') : e'.Serves flight' where
  toHeld := h'
  description := hk ▸ h.description
  maps t ht := by
    rw [EventWorld.world, hc] at ht
    rw [hk]
    exact h.maps t ht
  tidy := hc ▸ h.tidy

namespace Events

theorem onWorld_handle {x : Handled} (he : e.world.error = none) (h : e.Serves flight)
    (hx : ∀ t, ((x.maps e.world.obj.globTableMapEvents).find t).isSome → (e.keeper.find t).isSome) :
    Beside EventWorld.worldPart (onWorld (handle lib os x)) (handle lib os x) e
      (fun _ e' => e'.Serves flight) EventsSound := by
  apply Beside.zoom
  apply (handle_step he x).mono
  · intro _ w hw
    apply h.withWorld
    rw [hw.maps]
    exact hx
  · exact fun _ _ _ => h.owned.sound

theorem useTableMap_run {ev : RowsLogEvent2} (h : e.Serves flight) :
    (useTableMap ev).run e = .ok () e := by
  unfold useTableMap
  rw [run_get_bind]
  split
  case isTrue hfound =>
    obtain ⟨id, hid⟩ := Option.isSome_iff_exists.mp (h.maps _ hfound.2)
    rw [hid]
    exact useEvent_run (h.live (List.mem_append_left _ (Keeper.mem_of_find hid)))
  case isFalse => rfl

theorem drop_beside {α : Type} {a : α} (h : e.Serves (id :: flight)) :
    Beside EventWorld.worldPart (do deleteEvent id; pure a) (pure a) e
      (fun _ e' => e'.Serves flight) EventsSound := by
  apply Beside.aside (P := fun _ e' => e'.Serves flight)
  · apply (dropEvent_triple (E := fun _ _ => False) h.toHeld).mono
    · rintro _ e' ⟨hc, hk, h'⟩
      exact ⟨congrArg Client.world hc, h.of_client hc hk h'⟩
    · exact fun _ _ hf => hf
  · exact fun _ e' h' => Beside.pure h'

theorem handleLeaf_beside (he : e.world.error = none) (h : e.Serves (id :: flight)) (ev : LeafEvent) :
    Beside EventWorld.worldPart (handleLeaf lib os id ev) (RplListener.handleLeaf lib os ev) e
      (fun _ e' => e'.Serves flight) EventsSound := by
  have hlive : id ∈ e.events.live := h.live (by simp)
  have hother {ev : LeafEvent} (hev : ∀ when map, ev ≠ .tableMap when map) :
      Beside EventWorld.worldPart (do onWorld (RplListener.handleLeaf lib os ev); deleteEvent id)
        (RplListener.handleLeaf lib os ev) e (fun _ e' => e'.Serves flight) EventsSound := by
    apply Beside.finish (onWorld_handle (x := .event ev) he h ?_)
    · intro _ e' h'
      exact drop_beside h'
    · cases ev with
      | tableMap when map => exact absurd rfl (hev when map)
      | _ => exact h.maps
  apply Beside.aside_run (useEvent_run hlive) rfl
  cases ev with
  | formatDescription when event =>
    apply Beside.aside (P := fun _ e' => e'.world = e.world ∧ e'.Serves flight)
    · apply (keepDescription_triple (E := fun _ _ => False) h.toHeld).mono
      · rintro _ e' ⟨hc, hk, h'⟩
        refine ⟨congrArg Client.world hc, congrArg Client.world hc, h', by rw [hk]; rfl, fun t ht => ?_,
          hc ▸ h.tidy⟩
        rw [EventWorld.world, hc] at ht
        rw [hk]
        exact h.maps t ht
      · exact fun _ _ hf => hf
    · rintro _ e' ⟨hw, h'⟩
      exact onWorld_handle (x := .event (.formatDescription when event)) (hw ▸ he) h' h'.maps
  | tableMap when map =>
    apply Beside.aside (P := fun _ e' => e'.world = e.world ∧ e'.Serves flight ∧
      (e'.keeper.find map.tableId).isSome)
    · apply (keepTableMap_triple (E := fun _ _ => False) h.toHeld).mono
      · rintro _ e' ⟨hc, hd, h', hfind⟩
        refine ⟨congrArg Client.world hc, congrArg Client.world hc,
          ⟨h', hd ▸ h.description, fun t ht => ?_, hc ▸ h.tidy⟩, by simp [hfind]⟩
        rw [EventWorld.world, hc] at ht
        rw [hfind]
        split
        · rfl
        · exact h.maps t ht
      · exact fun _ _ hf => hf
    · rintro _ e' ⟨hw, h', hself⟩
      apply onWorld_handle (x := .event (.tableMap when map)) (hw ▸ he) h'
      intro t ht
      rw [Handled.maps, TableMapEvents.find_store] at ht
      split at ht
      case isTrue heq => exact heq ▸ hself
      case isFalse => exact h'.maps t ht
  | rows ev isRows =>
    apply Beside.aside_run (useTableMap_run h) rfl
    exact hother (by simp)
  | query | rotate | xid | xaPrepareLog | other => exact hother (by simp)

theorem onWorld_plain {α : Type} {x : ListenM α} (h : e.Serves flight)
    (hx : Keeps (fun w => w.obj.globTableMapEvents) x) :
    Beside EventWorld.worldPart (onWorld x) x e (fun _ e' => e'.Serves flight) EventsSound := by
  apply Beside.zoom
  apply (hx e.world).mono
  · intro _ w hw
    apply h.withWorld
    rw [show w.obj.globTableMapEvents = e.world.obj.globTableMapEvents from hw]
    exact h.maps
  · exact fun _ _ _ => h.owned.sound

theorem newEvent_beside {α : Type} {f : Nat → EventM α} {y : ListenM α}
    {Q : α → EventWorld → Prop} (h : e.Serves flight)
    (hf : ∀ id e', e'.world = e.world → e'.Serves (id :: flight) →
      Beside EventWorld.worldPart (f id) y e' Q EventsSound) :
    Beside EventWorld.worldPart (newEvent >>= f) y e Q EventsSound := by
  apply Beside.aside (P := fun id e' => e'.world = e.world ∧ e'.Serves (id :: flight))
  · apply (newEvent_triple (E := fun _ _ => False) h.toHeld).mono
    · rintro id e' ⟨hc, hk, h'⟩
      exact ⟨congrArg Client.world hc, congrArg Client.world hc, h.of_client hc hk h'⟩
    · exact fun _ _ hf => hf
  · rintro id e' ⟨hw, h'⟩
    exact hf id e' hw h'

theorem setError_plain (desc : String) :
    Keeps (fun w => w.obj.globTableMapEvents) (setError desc) := Keeps.modify fun _ => rfl

theorem clearError_beside (h : e.Serves flight) :
    Beside EventWorld.worldPart (onWorld clearError) clearError e
      (fun _ e' => e'.world.error = none ∧ e'.Serves flight) EventsSound := by
  apply Beside.zoom
  exact Triple.of_run (a := ()) rfl ⟨rfl, h.withWorld h.maps⟩

mutual

theorem processEvent_beside (k : Nat) (ev : LogEvent) {e : EventWorld} {id : Nat} {flight : List Nat}
    (he : e.world.error = none) (h : e.Serves (id :: flight)) :
    Beside EventWorld.worldPart (processEvent lib os needStop k id ev)
      (RplListener.processEvent lib os needStop k ev) e (fun _ e' => e'.Serves flight) EventsSound := by
  match ev with
  | .leaf ev =>
    unfold processEvent RplListener.processEvent
    apply (handleLeaf_beside he h ev).bind
    exact fun _ _ h' => Beside.pure h'
  | .transactionPayload when payload =>
    unfold processEvent RplListener.processEvent
    apply Beside.aside_run (useEvent_run (h.live (by simp))) rfl
    apply (clearError_beside h).bind
    rintro _ e₁ ⟨he₁, h₁⟩
    apply Beside.get_bind
    apply Beside.ite
    · exact fun _ => Beside.throw h₁.owned.sound
    · intro _
      apply Beside.aside_run (useDescription_run h₁) rfl
      apply (processPayload_beside k payload he₁ h₁).finish
      exact fun _ _ h' => drop_beside h'

theorem processPayload_beside (k : Nat) (payload : Payload) {e : EventWorld} {flight : List Nat}
    (he : e.world.error = none) (h : e.Serves flight) :
    Beside EventWorld.worldPart (processPayload lib os needStop k payload)
      (RplListener.processPayload lib os needStop k payload) e (fun _ e' => e'.Serves flight)
      EventsSound := by
  match payload with
  | .nil =>
    unfold processPayload RplListener.processPayload
    exact Beside.pure h
  | .failed desc =>
    unfold processPayload RplListener.processPayload
    apply (onWorld_plain h (setError_plain desc)).bind
    exact fun _ _ h' => Beside.pure h'
  | .cons ev rest =>
    unfold processPayload RplListener.processPayload
    apply Beside.aside_run (useDescription_run h) rfl
    apply newEvent_beside h
    intro id e' hw h'
    apply (processEvent_beside k ev (hw ▸ he) h').bind
    intro k' e'' h''
    apply Beside.get_bind
    apply Beside.ite
    · exact fun _ => Beside.pure h''
    · intro hn
      apply Beside.ite
      · exact fun _ => Beside.pure h''
      · exact fun _ => processPayload_beside (k' + 1) rest (by simpa using hn) h''

end

-- ---------------------------------------------------------------------------
-- The loop
-- ---------------------------------------------------------------------------

theorem modifyObj_beside {f : Listener → Listener} (h : e.Serves flight)
    (hf : (f e.world.obj).globTableMapEvents = e.world.obj.globTableMapEvents) :
    Beside EventWorld.worldPart (onWorld (modifyObj f)) (modifyObj f) e
      (fun _ e' => e'.world.error = e.world.error ∧ e'.Serves flight) EventsSound := by
  apply Beside.zoom
  exact Triple.of_run (a := ()) rfl ⟨rfl, h.withWorld fun t ht => h.maps t (hf ▸ ht)⟩

theorem processHeartbeat_beside (h : e.Serves flight) (when : Nat) :
    Beside EventWorld.worldPart (processHeartbeat when) (RplListener.processHeartbeat when) e
      (fun _ e' => e'.Serves flight) EventsSound := by
  have hworld {e : EventWorld} {flight : List Nat} (h : e.Serves flight) :
      Beside EventWorld.worldPart (onWorld (RplListener.processHeartbeat when))
        (RplListener.processHeartbeat when) e (fun _ e' => e'.Serves flight) EventsSound := by
    apply onWorld_plain h
    intro w
    apply Triple.of_run (handle_heartbeat when)
    cases w.obj.globDescriptionEvent <;> rfl
  unfold processHeartbeat
  apply Beside.look
  split
  case isTrue => exact hworld h
  case isFalse =>
    apply Beside.aside_run (useDescription_run h) rfl
    apply newEvent_beside h
    intro id e' _ h'
    apply (hworld h').finish
    exact fun _ _ h'' => drop_beside h''

def Turned (flight : List Nat) (t : Turn) (e : EventWorld) : Prop :=
  e.Serves flight ∧ ∀ k, t = .next k → e.world.error = none

theorem turn_beside (k : Nat) (p : Packet) (he : e.world.error = none) (h : e.Serves flight) :
    Beside EventWorld.worldPart (turn lib os needStop k p) (RplListener.turn lib os needStop k p) e
      (Turned flight) EventsSound := by
  have hdone {x : ListenM Turn} {w : World} (hrun : x.run e.world = .ok .done w)
      (hmaps : w.obj.globTableMapEvents = e.world.obj.globTableMapEvents) :
      Beside EventWorld.worldPart (onWorld x) x e (Turned flight) EventsSound := by
    apply Beside.zoom
    exact Triple.of_run hrun ⟨h.withWorld fun t ht => h.maps t (hmaps ▸ ht), by simp⟩
  cases p with
  | fetchError | eof | failed =>
    unfold turn
    exact hdone rfl rfl
  | heartbeat size when =>
    unfold turn RplListener.turn
    apply (modifyObj_beside h rfl).bind
    rintro _ e₁ ⟨-, h₁⟩
    apply (processHeartbeat_beside h₁ when).bind
    intro _ e₂ h₂
    apply Beside.get_bind
    apply Beside.ite
    · exact fun _ => Beside.pure ⟨h₂, by simp⟩
    · intro hn
      exact Beside.pure ⟨h₂, fun _ _ => by simpa using hn⟩
  | event size ev =>
    unfold turn RplListener.turn
    apply (modifyObj_beside h rfl).bind
    rintro _ e₁ ⟨he₁, h₁⟩
    apply Beside.aside_run (useDescription_run h₁) rfl
    apply newEvent_beside h₁
    intro id e₂ hw h₂
    apply (processEvent_beside k ev (hw ▸ he₁.trans he) h₂).bind
    intro k' e₃ h₃
    apply Beside.get_bind
    apply Beside.ite
    · exact fun _ => Beside.pure ⟨h₃, by simp⟩
    · intro hn
      apply (modifyObj_beside h₃ rfl).bind
      rintro _ e₄ ⟨he₄, h₄⟩
      exact Beside.pure ⟨h₄, fun _ _ => he₄.trans (by simpa using hn)⟩

theorem replicationLoop_beside (k : Nat) (packets : List Packet) {e : EventWorld}
    (he : e.world.error = none) (h : e.Serves flight) :
    Beside EventWorld.worldPart (replicationLoop lib os needStop k packets)
      (RplListener.replicationLoop lib os needStop k packets) e (fun _ e' => e'.Serves flight)
      EventsSound := by
  induction packets generalizing k e with
  | nil => exact Beside.pure h
  | cons p packets ih =>
    unfold replicationLoop RplListener.replicationLoop
    apply (turn_beside k p he h).bind
    rintro t e' ⟨h', he'⟩
    cases t with
    | done => exact Beside.pure h'
    | next k' => exact ih k' (he' k' rfl) h'

end Events

end RplListener
