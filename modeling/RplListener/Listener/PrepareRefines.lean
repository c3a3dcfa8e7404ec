import RplListener.Listener.Prepared

/-!
# Preparing without the connection

What `prepare_replication` does to the listener alone is the preparation of
`LifeCycle`, with the answers of the calls put together: a preparation that
returns leaves the same world in both.
-/

namespace RplListener

open Bytes Refine

-- ---------------------------------------------------------------------------
-- The answers
-- ---------------------------------------------------------------------------

def Answer.toExcept {ρ : Type} : Answer ρ → Except String (List ρ)
  | .queryError desc => .error desc
  | .storeError desc => .error desc
  | .rows all => .ok all

def plainRow (row : Field × Field) : List UInt8 × List UInt8 := (row.1.getD [], row.2.getD [])

def ServerCalls.server (calls : ServerCalls) : Server where
  init := calls.init
  connect := calls.connect
  version := calls.version.toExcept
  showVariables := calls.showVariables.toExcept.map (List.map plainRow)
  checksum := calls.checksum
  heartbeatPeriod := calls.heartbeatPeriod
  masterStatus :=
    match calls.masterStatus with
    | .queryError desc => .error desc
    | .storeError desc => .error desc
    | .rows [] => .error calls.noStatus
    | .rows (row :: _) => .ok row

-- ---------------------------------------------------------------------------
-- Programs that differ in the connection
-- ---------------------------------------------------------------------------

/-- A return of `x` is a return of `y` on the world. -/
def Shows {α : Type} (x : ClientM α) (y : ListenM α) : Prop :=
  ∀ c a c', x.run c = .ok a c' → y.run c.world = .ok a c'.world

namespace Shows

variable {α β : Type} {x : ClientM α} {y : ListenM α} {f : α → ClientM β} {g : α → ListenM β}

theorem onWorld (y : ListenM α) : Shows (RplListener.onWorld y) y := by
  intro c a c' h
  obtain ⟨w, hw, rfl⟩ := onWorld_inv h
  exact hw

theorem bind (hx : Shows x y) (hf : ∀ a, Shows (f a) (g a)) : Shows (x >>= f) (y >>= g) := by
  intro c b c'' h
  obtain ⟨a, c', hrun, hrest⟩ := run_bind_inv h
  rw [run_bind_ok (hx c a c' hrun)]
  exact hf a c' b c'' hrest

theorem conn_bind {z : ClientM Unit} {x : ClientM α} {u : Client → Client}
    (hz : ∀ c, z.run c = .ok () (u c)) (hu : ∀ c, (u c).world = c.world) (hx : Shows x y) :
    Shows (z >>= fun _ => x) y := by
  intro c a c' h
  rw [run_bind_ok (hz c)] at h
  exact hu c ▸ hx (u c) a c' h

theorem get_bind {f : Client → ClientM α} {g : World → ListenM α}
    (hf : ∀ c, Shows (f c) (g c.world)) : Shows (get >>= f) (get >>= g) :=
  fun c a c' h => hf c c a c' h

theorem ite {p : Prop} [Decidable p] {x' : ClientM α} {y' : ListenM α} (hx : Shows x y)
    (hx' : Shows x' y') : Shows (if p then x else x') (if p then y else y') := by
  split
  · exact hx
  · exact hx'

theorem giveUp (fail : ListenM Unit) : Shows (RplListener.giveUp fail) (abandon fail) :=
  (onWorld fail).bind fun _ => conn_bind (z := closeConn) (fun _ => rfl) (fun _ => rfl) (onWorld _)

theorem unlessError {error : Option String} {x : ClientM Unit} {y : ListenM Unit} (h : Shows x y) :
    Shows (RplListener.unlessError error x) (checked error y) := by
  cases error with
  | none => exact h
  | some desc => exact giveUp _

theorem demand {ok : Bool} {desc : String} {x : ClientM Unit} {y : ListenM Unit} (h : Shows x y) :
    Shows (RplListener.demand ok desc x) (required ok desc y) := ite h (giveUp _)

end Shows

-- ---------------------------------------------------------------------------
-- The stages
-- ---------------------------------------------------------------------------

variable {calls : ServerCalls}

theorem preparePosition_shows :
    Shows (Client.preparePosition calls) (preparePosition calls.server) := by
  refine Shows.get_bind fun c => Shows.ite ?_ ?_
  · refine (Shows.onWorld _).bind fun _ => ?_
    unfold ServerCalls.server
    cases calls.masterStatus with
    | queryError desc => exact Shows.giveUp _
    | storeError desc => exact Shows.onWorld _
    | rows rows =>
      match rows with
      | [] => exact Shows.giveUp _
      | (none, _) :: _ | (some _, none) :: _ => exact Shows.giveUp _
      | (some _, some _) :: _ => exact (Shows.onWorld _).bind fun _ => Shows.onWorld _
  · exact (Shows.onWorld _).bind fun _ => Shows.onWorld _

/-- Without a NULL where the loop compares, both readings report the same. -/
theorem hasVariable_plain {rows : List (Field × Field)} {name value : String}
    (h : ∀ row ∈ rows, ¬ NullAt row name) :
    hasVariable (rows.map plainRow) name value = rows.any (rowReports name value) := by
  unfold hasVariable
  induction rows with
  | nil => rfl
  | cons row rows ih =>
    rw [List.map_cons, List.any_cons, List.any_cons, ih fun r hr => h r (List.mem_cons_of_mem _ hr)]
    congr 1
    have hrow := h row List.mem_cons_self
    obtain ⟨_ | n, v⟩ := row
    · exact absurd (.inl rfl) hrow
    cases v with
    | some v => rfl
    | none =>
      have hn : cstr n ≠ ascii name := fun hn => hrow (.inr ⟨congrArg some hn, rfl⟩)
      simp [plainRow, rowReports, hn]

theorem prepareVariables_shows :
    Shows (Client.prepareVariables calls) (prepareVariables calls.server) := by
  unfold Client.prepareVariables prepareVariables withRows ServerCalls.server
  cases calls.showVariables with
  | queryError desc => exact Shows.giveUp _
  | storeError desc => exact Shows.giveUp _
  | rows rows =>
    intro c a c' h
    by_cases hnull : ∃ row ∈ rows, NullRow row
    · rw [run_bind_error (readVariables_null hnull _)] at h
      cases h
    have hrow : ∀ row ∈ rows, ¬ NullRow row := fun row hr hn => hnull ⟨row, hr, hn⟩
    rw [run_bind_ok (readVariables_run hrow _)] at h
    have hplain : ∀ name ∈ ["binlog_format", "binlog_row_image", "binlog_row_metadata", "gtid_mode"],
        ∀ value, rows.any (rowReports name value) = hasVariable (rows.map plainRow) name value :=
      fun name hm value => (hasVariable_plain fun row hr hn => hrow row hr ⟨name, hm, hn⟩).symm
    rw [Bool.false_or, Bool.false_or, Bool.false_or, Bool.false_or, hplain _ (by simp),
      hplain _ (by simp), hplain _ (by simp), hplain _ (by simp)] at h
    exact (Shows.demand <| Shows.demand <| Shows.demand <| Shows.demand <| Shows.unlessError <|
      Shows.unlessError preparePosition_shows) c a c' h

theorem prepareVersion_shows :
    Shows (Client.prepareVersion calls) (prepareVersion calls.server) := by
  unfold Client.prepareVersion prepareVersion withRows
  have hversion : calls.server.version = calls.version.toExcept := rfl
  rw [hversion]
  cases calls.version with
  | queryError desc => exact Shows.giveUp _
  | storeError desc => exact Shows.giveUp _
  | rows rows =>
    match rows with
    | [] | none :: _ => exact Shows.giveUp _
    | some text :: rest =>
      intro c a c' h
      have hcut : decide ((cstr text).take 59 ≠ []) = decide (cstr text ≠ []) := by simp
      change (demand (decide ((cstr text).take 59 ≠ [])) _ (Client.prepareVariables calls)).run
        { c with serverVersion := (cstr text).take 59 } = _ at h
      rw [hcut] at h
      exact Shows.demand prepareVariables_shows { c with serverVersion := (cstr text).take 59 } a c' h

/-- A preparation that returns is one of the listener without its connection. -/
theorem prepareReplication_shows :
    Shows (Client.prepareReplication calls) (prepareReplication calls.server) := by
  refine (Shows.onWorld _).bind fun _ => Shows.get_bind fun c => Shows.ite (Shows.onWorld _) ?_
  refine (Shows.onWorld _).bind fun _ => Shows.get_bind fun c => Shows.ite (Shows.onWorld _) ?_
  refine Shows.conn_bind (fun _ => rfl) (fun _ => rfl) (Shows.ite ?_ (Shows.onWorld _))
  refine Shows.conn_bind (fun _ => rfl) (fun _ => rfl) (Shows.unlessError ?_)
  exact Shows.conn_bind (fun _ => rfl) (fun _ => rfl) prepareVersion_shows

end RplListener
