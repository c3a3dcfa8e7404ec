import Mathlib.Data.List.TakeDrop
import RplListener.Listener.Prepare

/-!
# How a preparation ends

A listener is prepared, ended or left as it is. The checks of
`prepare_replication` are followed one after the other: each either gives up,
which is a clean end, or hands over to the next, so that only the last of them
and the reading of the variables can break the contract.
-/

namespace RplListener

open Bytes Refine

variable {given : Option (List UInt8)} {calls : ServerCalls} {c c' c'' : Client}

-- ---------------------------------------------------------------------------
-- The three ends
-- ---------------------------------------------------------------------------

/-- The log name the constructor was given, unless it is empty. -/
def givenName (given : Option (List UInt8)) : Option (List UInt8) :=
  (given.map cstr).filter fun name => !name.isEmpty

def ServerCalls.logName (calls : ServerCalls) (given : Option (List UInt8)) :
    Option (List UInt8) :=
  match givenName given, calls.masterStatus with
  | some name, _ => some name
  | none, .rows ((some name, some _) :: _) => some (cstr name)
  | none, _ => none

/-- What the constructor leaves to a listener in `CREATED`. -/
structure Client.Fresh (given : Option (List UInt8)) (c : Client) : Prop where
  myConn : c.myConn = false
  conn : c.conn = .closed
  name : c.world.obj.mLogNm = ((given.map cstr).getD []).take 511
  nameSet : given.isSome → c.world.obj.rpl.fileNameSet = true

structure Client.Prepared (given : Option (List UInt8)) (calls : ServerCalls) (c : Client) :
    Prop where
  state : c.world.obj.state = .prepared
  error : c.world.error = none
  myConn : c.myConn = true
  conn : c.conn = .connected
  nameSet : c.world.obj.rpl.fileNameSet = true
  name : some c.world.obj.mLogNm = calls.logName given

structure Client.Ended (c : Client) : Prop where
  state : c.world.obj.state = .ended
  error : c.world.error.isSome
  myConn : c.myConn = false
  conn : c.conn = .closed

structure Client.Refused (c c' : Client) : Prop where
  error : c'.world.error.isSome
  obj : c'.world.obj = c.world.obj
  myConn : c'.myConn = c.myConn
  conn : c'.conn = c.conn

inductive PrepareEnd where
  | prepared | ended | refused
  deriving DecidableEq, Repr

def EndsIn (given : Option (List UInt8)) (calls : ServerCalls) (c c' : Client) : PrepareEnd → Prop
  | .prepared => c'.Prepared given calls
  | .ended => c.world.obj.state = .created ∧ c'.Ended
  | .refused => c.world.obj.state ≠ .created ∧ c.Refused c'


-- ---------------------------------------------------------------------------
-- Conditions on the answers
-- ---------------------------------------------------------------------------

def rowReports (name value : String) (row : Field × Field) : Bool :=
  row.1.any (fun s => cstr s == ascii name) && row.2.any (fun s => cstr s == ascii value)

def reports (rows : List (Field × Field)) (name value : String) : Prop :=
  ∃ row ∈ rows, rowReports name value row = true

/-- The test for this variable compares with NULL. -/
def NullAt (row : Field × Field) (name : String) : Prop :=
  row.1 = none ∨ row.1.map cstr = some (ascii name) ∧ row.2 = none

def NullRow (row : Field × Field) : Prop :=
  ∃ name ∈ ["binlog_format", "binlog_row_image", "binlog_row_metadata", "gtid_mode"],
    NullAt row name

/-- The result of `SHOW MASTER STATUS` is not stored, or the log name does not fit
`m_log_nm`. -/
def ServerCalls.PositionBreaks (calls : ServerCalls) (given : Option (List UInt8)) : Prop :=
  (givenName given = none ∧ ∃ desc, calls.masterStatus = .storeError desc) ∨
    ∃ name, calls.logName given = some name ∧ 512 ≤ name.length

/-- The variables are as they should be, and the two settings are accepted. -/
structure ServerCalls.Suits (calls : ServerCalls) (rows : List (Field × Field)) : Prop where
  format : reports rows "binlog_format" "ROW"
  image : reports rows "binlog_row_image" "FULL"
  metadata : reports rows "binlog_row_metadata" "FULL"
  gtid : reports rows "gtid_mode" "OFF"
  checksum : calls.checksum = none
  heartbeatPeriod : calls.heartbeatPeriod = none

def ServerCalls.VariablesBreak (calls : ServerCalls) (given : Option (List UInt8)) : Prop :=
  ∃ rows, calls.showVariables = .rows rows ∧
    ((∃ row ∈ rows, NullRow row) ∨ calls.Suits rows ∧ calls.PositionBreaks given)

structure ServerCalls.Asks (calls : ServerCalls) (c : Client) : Prop where
  created : c.world.obj.state = .created
  tables : c.world.obj.tables ≠ []
  init : calls.init = true
  connect : calls.connect = none
  version : ∃ text rest, calls.version = .rows (some text :: rest) ∧ cstr text ≠ []

-- ---------------------------------------------------------------------------
-- EndsClean ends
-- ---------------------------------------------------------------------------

/-- A part of the preparation that ends one of the two ways a listener in `CREATED`
should. -/
def EndsClean (given : Option (List UInt8)) (calls : ServerCalls) (x : ClientM Unit) (c : Client) :
    Prop :=
  ∃ c', x.run c = .ok () c' ∧ (c'.Ended ∨ c'.Prepared given calls)

theorem EndsClean.of_run {x : ClientM Unit} (h : x.run c = .ok () c') :
    EndsClean given calls x c ↔ c'.Ended ∨ c'.Prepared given calls := by
  constructor
  · rintro ⟨c'', hx, hc⟩
    rw [h] at hx
    cases hx
    exact hc
  · exact fun hc => ⟨c', h, hc⟩

theorem EndsClean.bind_run {α : Type} {x : ClientM α} {f : α → ClientM Unit} {a : α}
    (h : x.run c = .ok a c') : EndsClean given calls (x >>= f) c ↔ EndsClean given calls (f a) c' := by
  unfold EndsClean
  rw [run_bind_ok h]

theorem EndsClean.get_bind {f : Client → ClientM Unit} :
    EndsClean given calls (get >>= f) c ↔ EndsClean given calls (f c) c := Iff.rfl

theorem EndsClean.modify_bind {u : Client → Client} {f : Unit → ClientM Unit} :
    EndsClean given calls (modify u >>= f) c ↔ EndsClean given calls (f ()) (u c) := Iff.rfl

theorem not_clean_of_error {x : ClientM Unit} {e : Crash} (h : x.run c = .error e c') :
    ¬ EndsClean given calls x c := by
  rintro ⟨c'', hx, -⟩
  rw [h] at hx
  cases hx

def Client.withObj (c : Client) (o : Listener) : Client :=
  { c with world := { c.world with obj := o } }

theorem onWorld_modifyObj_run (f : Listener → Listener) :
    (onWorld (modifyObj f)).run c = .ok () (c.withObj (f c.world.obj)) := rfl

theorem onWorld_swapState_run {old new : ReplState} (h : c.world.obj.state = old) :
    (onWorld (swapState old new)).run c =
      .ok () (c.withObj { c.world.obj with state := new }) := by
  unfold swapState
  rw [onWorld_modifyObj_run, if_pos h]

def Client.cleared (c : Client) : Client := { c with world := { c.world with error := none } }

theorem onWorld_clearError_run : (onWorld clearError).run c = .ok () c.cleared := rfl

theorem giveUp_clean {fail : ListenM Unit} {e : ReplLogXError}
    (hf : fail = modify fun w => { w with error := some e })
    (h : c.world.obj.state = .postCreated) : EndsClean given calls (giveUp fail) c := by
  subst hf
  refine ⟨_, rfl, .inl ⟨?_, rfl, rfl, rfl⟩⟩
  change (if c.world.obj.state = _ then _ else _ : Listener).state = _
  rw [if_pos h]

theorem unlessError_clean {error : Option String} {rest : ClientM Unit}
    (h : c.world.obj.state = .postCreated) :
    EndsClean given calls (unlessError error rest) c ↔ (error = none → EndsClean given calls rest c) := by
  cases error with
  | none => simp [unlessError]
  | some desc => exact iff_of_true (giveUp_clean rfl h) fun h => (nomatch h)

theorem demand_clean {ok : Bool} {desc : String} {rest : ClientM Unit}
    (h : c.world.obj.state = .postCreated) :
    EndsClean given calls (demand ok desc rest) c ↔ (ok = true → EndsClean given calls rest c) := by
  cases ok with
  | true => simp [demand]
  | false => exact iff_of_true (giveUp_clean rfl h) fun h => (nomatch h)

theorem withRows_clean {ρ : Type} {answer : Answer ρ} {rest : List ρ → ClientM Unit}
    (h : c.world.obj.state = .postCreated) :
    EndsClean given calls (withRows answer rest) c ↔
      ∀ rows, answer = .rows rows → EndsClean given calls (rest rows) c := by
  cases answer with
  | rows rows => simp [withRows]
  | queryError desc => exact iff_of_true (giveUp_clean rfl h) fun _ h => (nomatch h)
  | storeError desc => exact iff_of_true (giveUp_clean rfl h) fun _ h => (nomatch h)

-- ---------------------------------------------------------------------------
-- The variables
-- ---------------------------------------------------------------------------

theorem testVariable_run {row : Field × Field} {name value : String} {ok : Bool}
    (h : ¬ NullAt row name) :
    (testVariable row name value ok).run c = .ok (ok || rowReports name value row) c := by
  obtain ⟨_ | n, v⟩ := row
  · exact absurd (.inl rfl) h
  by_cases hn : cstr n = ascii name
  · cases v with
    | none => exact absurd (.inr ⟨congrArg some hn, rfl⟩) h
    | some v => by_cases hv : cstr v = ascii value <;>
        simp [testVariable, strcmpEq, rowReports, hn, hv]
  · simp [testVariable, strcmpEq, rowReports, hn]

theorem testVariable_null {row : Field × Field} {name value : String} {ok : Bool}
    (h : NullAt row name) : (testVariable row name value ok).run c = .error .memory c := by
  obtain ⟨n, v⟩ := row
  obtain hn | ⟨hn, hv⟩ := h
  · cases hn
    rfl
  · cases n with
    | none => cases hn
    | some n =>
      cases hv
      simp only [Option.map_some, Option.some.injEq] at hn
      simp [testVariable, strcmpEq, hn]

theorem readVariables_run {rows : List (Field × Field)} (h : ∀ row ∈ rows, ¬ NullRow row)
    (v : VariablesOk) : (readVariables rows v).run c = .ok
      { binlogFormat := v.binlogFormat || rows.any (rowReports "binlog_format" "ROW")
        binlogRowImage := v.binlogRowImage || rows.any (rowReports "binlog_row_image" "FULL")
        binlogRowMetadata :=
          v.binlogRowMetadata || rows.any (rowReports "binlog_row_metadata" "FULL")
        gtidMode := v.gtidMode || rows.any (rowReports "gtid_mode" "OFF") } c := by
  induction rows generalizing v with
  | nil => simp [readVariables]
  | cons row rows ih =>
    have hrow : ∀ name, name ∈ _ → ¬ NullAt row name := fun name hm hn =>
      h row List.mem_cons_self ⟨name, hm, hn⟩
    rw [readVariables, run_bind_ok (testVariable_run (hrow _ (by simp))),
      run_bind_ok (testVariable_run (hrow _ (by simp))),
      run_bind_ok (testVariable_run (hrow _ (by simp))),
      run_bind_ok (testVariable_run (hrow _ (by simp))),
      ih fun r hr => h r (List.mem_cons_of_mem _ hr)]
    simp only [List.any_cons, Bool.or_assoc]

/-- A row of NULLs is compared at the first test that needs it. -/
theorem testVariable_cases (row : Field × Field) (name value : String) (ok : Bool) (c : Client) :
    (testVariable row name value ok).run c = .error .memory c ∨
      ¬ NullAt row name ∧ ∃ ok', (testVariable row name value ok).run c = .ok ok' c := by
  by_cases h : NullAt row name
  · exact .inl (testVariable_null h)
  · exact .inr ⟨h, _, testVariable_run h⟩

theorem readVariables_null {rows : List (Field × Field)} (h : ∃ row ∈ rows, NullRow row)
    (v : VariablesOk) : (readVariables rows v).run c = .error .memory c := by
  induction rows generalizing v with
  | nil =>
    obtain ⟨row, hr, -⟩ := h
    cases hr
  | cons row rows ih =>
    rw [readVariables]
    obtain he | ⟨h₁, _, hok⟩ := testVariable_cases row "binlog_format" "ROW" v.binlogFormat c
    · exact run_bind_error he _
    rw [run_bind_ok hok]
    obtain he | ⟨h₂, _, hok⟩ := testVariable_cases row "binlog_row_image" "FULL" v.binlogRowImage c
    · exact run_bind_error he _
    rw [run_bind_ok hok]
    obtain he | ⟨h₃, _, hok⟩ :=
      testVariable_cases row "binlog_row_metadata" "FULL" v.binlogRowMetadata c
    · exact run_bind_error he _
    rw [run_bind_ok hok]
    obtain he | ⟨h₄, _, hok⟩ := testVariable_cases row "gtid_mode" "OFF" v.gtidMode c
    · exact run_bind_error he _
    rw [run_bind_ok hok]
    refine ih ?_ _
    obtain ⟨r, hr, hnull⟩ := h
    obtain rfl | hr := List.mem_cons.mp hr
    · obtain ⟨name, hm, hn⟩ := hnull
      simp only [List.mem_cons, List.not_mem_nil, or_false] at hm
      obtain rfl | rfl | rfl | rfl := hm
      · exact absurd hn h₁
      · exact absurd hn h₂
      · exact absurd hn h₃
      · exact absurd hn h₄
    · exact ⟨r, hr, hnull⟩

-- ---------------------------------------------------------------------------
-- The stages
-- ---------------------------------------------------------------------------

structure Client.Connected (c : Client) : Prop where
  state : c.world.obj.state = .postCreated
  error : c.world.error = none
  myConn : c.myConn = true
  conn : c.conn = .connected

structure Client.Midway (given : Option (List UInt8)) (c : Client) : Prop extends c.Connected where
  name : c.world.obj.mLogNm = ((given.map cstr).getD []).take 511
  nameSet : given.isSome → c.world.obj.rpl.fileNameSet = true

theorem take_eq_self_iff_lt {name : List UInt8} : name.take 511 = name ↔ ¬ 512 ≤ name.length := by
  rw [List.take_eq_self_iff]
  omega

theorem givenName_of_nil (h : ((given.map cstr).getD []).take 511 = []) : givenName given = none := by
  cases given with
  | none => rfl
  | some name =>
    have hn : cstr name = [] := by simpa using h
    simp [givenName, hn]

theorem givenName_of_ne_nil (h : ((given.map cstr).getD []).take 511 ≠ []) :
    ∃ name, given = some name ∧ givenName given = some (cstr name) := by
  cases given with
  | none => exact absurd rfl h
  | some name =>
    have hn : cstr name ≠ [] := fun hn => h (by simp [hn])
    exact ⟨name, rfl, by simp [givenName, hn]⟩

theorem swapPrepared_clean (h : c.Connected) :
    EndsClean given calls (onWorld (swapState .postCreated .prepared)) c ↔
      c.world.obj.rpl.fileNameSet = true ∧ some c.world.obj.mLogNm = calls.logName given := by
  rw [EndsClean.of_run (onWorld_swapState_run h.state)]
  constructor
  · rintro (he | hp)
    · cases he.state
    · exact ⟨hp.nameSet, hp.name⟩
  · rintro ⟨hset, hname⟩
    exact .inr ⟨rfl, h.error, h.myConn, h.conn, hset, hname⟩

/-- `ENDED` with its error, but the connection is still there. -/
theorem abandon_not_clean {desc : String} (h : c.myConn = true) :
    ¬ EndsClean given calls (onWorld (abandon (setErrorMySQL desc))) c := by
  rintro ⟨c', hrun, he | hp⟩
  · cases hrun
    exact Bool.noConfusion (h.symm.trans he.myConn)
  · cases hrun
    cases hp.error

theorem name_fits_iff {name : List UInt8} :
    some (name.take 511) = some name ↔ ¬ ∃ n, some name = some n ∧ 512 ≤ n.length := by
  simp only [Option.some.injEq, exists_eq_left', take_eq_self_iff_lt]

theorem preparePosition_clean (h : c.Midway given) :
    EndsClean given calls (Client.preparePosition calls) c ↔ ¬ calls.PositionBreaks given := by
  unfold Client.preparePosition ServerCalls.PositionBreaks
  rw [EndsClean.get_bind]
  by_cases hnil : c.world.obj.mLogNm = []
  · have hgiven := givenName_of_nil (h.name ▸ hnil)
    rw [if_pos hnil, EndsClean.bind_run (onWorld_modifyObj_run _)]
    cases hs : calls.masterStatus with
    | queryError desc =>
      refine iff_of_true (giveUp_clean rfl h.state) ?_
      simp [ServerCalls.logName, hgiven, hs]
    | storeError desc =>
      exact iff_of_false (abandon_not_clean h.myConn) fun hb => hb (.inl ⟨hgiven, desc, rfl⟩)
    | rows rows =>
      have hstore : ¬ (givenName given = none ∧
          ∃ desc, Answer.rows rows = .storeError desc) := fun hd => (nomatch hd.2)
      rw [or_iff_right hstore]
      have hnone : calls.logName given = none → ¬ ∃ name, calls.logName given = some name ∧
          512 ≤ name.length := by
        rintro hl ⟨name, hn, -⟩
        rw [hl] at hn
        cases hn
      match rows, hs with
      | [], hs =>
        exact iff_of_true (giveUp_clean rfl h.state) (hnone (by simp [ServerCalls.logName, hgiven, hs]))
      | (none, _) :: _, hs | (some _, none) :: _, hs =>
        exact iff_of_true (giveUp_clean rfl h.state) (hnone (by simp [ServerCalls.logName, hgiven, hs]))
      | (some name, some pos) :: rows, hs =>
        have hlog : calls.logName given = some (cstr name) := by
          simp [ServerCalls.logName, hgiven, hs]
        refine (EndsClean.bind_run (onWorld_modifyObj_run _)).trans ?_
        refine Iff.trans (swapPrepared_clean ⟨h.state, h.error, h.myConn, h.conn⟩) ?_
        rw [hlog]
        exact (and_iff_right rfl).trans name_fits_iff
  · obtain ⟨name, rfl, hname⟩ := givenName_of_ne_nil (h.name ▸ hnil)
    have hlog : calls.logName (some name) = some (cstr name) := by
      simp [ServerCalls.logName, hname]
    rw [if_neg hnil, EndsClean.bind_run (onWorld_modifyObj_run _)]
    refine Iff.trans (swapPrepared_clean ⟨h.state, h.error, h.myConn, h.conn⟩) ?_
    rw [hlog, hname, or_iff_right fun hd => nomatch hd.1]
    change c.world.obj.rpl.fileNameSet = true ∧ some c.world.obj.mLogNm = _ ↔ _
    rw [h.name, and_iff_right (h.nameSet rfl)]
    exact name_fits_iff

theorem any_iff_reports {rows : List (Field × Field)} {name value : String} :
    rows.any (rowReports name value) = true ↔ reports rows name value := List.any_eq_true

theorem prepareVariables_clean (h : c.Midway given) :
    EndsClean given calls (Client.prepareVariables calls) c ↔ ¬ calls.VariablesBreak given := by
  unfold Client.prepareVariables ServerCalls.VariablesBreak
  rw [withRows_clean h.state, not_exists]
  refine forall_congr' fun rows => ?_
  rw [not_and]
  refine imp_congr_right fun _ => ?_
  rw [not_or]
  by_cases hnull : ∃ row ∈ rows, NullRow row
  · refine iff_of_false ?_ fun hb => hb.1 hnull
    exact not_clean_of_error (run_bind_error (readVariables_null hnull _) _)
  · rw [EndsClean.bind_run (readVariables_run (fun row hr hn => hnull ⟨row, hr, hn⟩) _),
      demand_clean h.state, demand_clean h.state, demand_clean h.state, demand_clean h.state,
      unlessError_clean h.state, unlessError_clean h.state, preparePosition_clean h,
      and_iff_right hnull]
    simp only [Bool.false_or, any_iff_reports]
    constructor
    · exact fun hc ⟨⟨h₁, h₂, h₃, h₄, h₅, h₆⟩, hb⟩ => hc h₁ h₂ h₃ h₄ h₅ h₆ hb
    · exact fun hc h₁ h₂ h₃ h₄ h₅ h₆ hb => hc ⟨⟨h₁, h₂, h₃, h₄, h₅, h₆⟩, hb⟩

theorem prepareVersion_clean (h : c.Midway given) :
    EndsClean given calls (Client.prepareVersion calls) c ↔
      ((∃ text rest, calls.version = .rows (some text :: rest) ∧ cstr text ≠ []) →
        ¬ calls.VariablesBreak given) := by
  unfold Client.prepareVersion
  rw [withRows_clean h.state]
  constructor
  · rintro hc ⟨text, rest, hv, htext⟩
    have hrest := EndsClean.get_bind.mp (EndsClean.modify_bind.mp (hc _ hv))
    rw [demand_clean, prepareVariables_clean] at hrest
    · exact hrest (by simp [htext])
    · exact ⟨⟨h.state, h.error, h.myConn, h.conn⟩, h.name, h.nameSet⟩
    · exact h.state
  · intro hc rows hv
    match rows with
    | [] | none :: _ => exact giveUp_clean rfl h.state
    | some text :: rest =>
      refine EndsClean.modify_bind.mpr (EndsClean.get_bind.mpr ?_)
      rw [demand_clean, prepareVariables_clean]
      · exact fun htext => hc ⟨text, rest, hv, by simpa using htext⟩
      · exact ⟨⟨h.state, h.error, h.myConn, h.conn⟩, h.name, h.nameSet⟩
      · exact h.state

theorem abandon_clean {desc : String} (hs : c.world.obj.state = .postCreated)
    (hm : c.myConn = false) (hc : c.conn = .closed) :
    EndsClean given calls (onWorld (abandon (setError desc))) c := by
  refine ⟨_, rfl, .inl ⟨?_, rfl, hm, hc⟩⟩
  change (if c.world.obj.state = _ then _ else _ : Listener).state = _
  rw [if_pos hs]

theorem prepareConnection_clean (hs : c.world.obj.state = .postCreated)
    (he : c.world.error = none) (hf : c.Fresh given) :
    EndsClean given calls (Client.prepareConnection calls) c ↔
      (calls.init = true → calls.connect = none →
        (∃ text rest, calls.version = .rows (some text :: rest) ∧ cstr text ≠ []) →
        ¬ calls.VariablesBreak given) := by
  unfold Client.prepareConnection
  rw [EndsClean.modify_bind]
  cases calls.init with
  | false => exact iff_of_true (abandon_clean hs rfl hf.conn) fun h => nomatch h
  | true =>
    refine Iff.trans ?_ ⟨fun hc _ => hc, fun hc => hc rfl⟩
    rw [if_pos rfl, EndsClean.modify_bind, unlessError_clean, EndsClean.modify_bind, prepareVersion_clean]
    · exact ⟨⟨hs, he, rfl, rfl⟩, hf.name, hf.nameSet⟩
    · exact hs

def Client.entered (c : Client) : Client :=
  c.cleared.withObj { c.world.obj with state := .postCreated }

theorem prepareReplication_run_created (hs : c.world.obj.state = .created) :
    (Client.prepareReplication calls).run c =
      (if c.world.obj.tables.isEmpty then
        onWorld (abandon
          (setError "tables are empry!!! call method table_add() to fill list of tables!!!"))
      else Client.prepareConnection calls).run c.entered := by
  have hs' : c.cleared.world.obj.state = .created := hs
  unfold Client.prepareReplication
  rw [run_bind_ok onWorld_clearError_run, run_get_bind, if_neg (not_not_intro hs'),
    run_bind_ok (onWorld_swapState_run hs'), run_get_bind]
  rfl

theorem prepareReplication_run_other (hs : c.world.obj.state ≠ .created) :
    (Client.prepareReplication calls).run c = .ok ()
      { c with world := { c.world with
          error := some ⟨false, clip 1024 "prepare_replication() ERROR ORDER!!!"⟩ } } := by
  have hs' : c.cleared.world.obj.state ≠ .created := hs
  unfold Client.prepareReplication
  rw [run_bind_ok onWorld_clearError_run, run_get_bind, if_pos hs']
  rfl

/-- A listener in `CREATED` ends as it should unless a stage it gets to breaks the
contract. -/
theorem prepareReplication_clean (h : c.Fresh given) (hs : c.world.obj.state = .created) :
    EndsClean given calls (Client.prepareReplication calls) c ↔
      ¬ (calls.Asks c ∧ calls.VariablesBreak given) := by
  have hrun : EndsClean given calls (Client.prepareReplication calls) c ↔
      EndsClean given calls (if c.world.obj.tables.isEmpty then
        onWorld (abandon
          (setError "tables are empry!!! call method table_add() to fill list of tables!!!"))
      else Client.prepareConnection calls) c.entered := by
    unfold EndsClean
    rw [prepareReplication_run_created hs]
  rw [hrun]
  cases ht : c.world.obj.tables with
  | nil => exact iff_of_true (abandon_clean rfl h.myConn h.conn) fun hb => hb.1.tables ht
  | cons t ts =>
    have hf : c.entered.Fresh given := ⟨h.myConn, h.conn, h.name, h.nameSet⟩
    refine Iff.trans (prepareConnection_clean rfl rfl hf) ?_
    have hne : c.world.obj.tables ≠ [] := by rw [ht]; exact List.cons_ne_nil t ts
    constructor
    · exact fun hc ⟨ha, hb⟩ => hc ha.init ha.connect ha.version hb
    · exact fun hc hi hcon hv hb => hc ⟨⟨hs, hne, hi, hcon, hv⟩, hb⟩

-- ---------------------------------------------------------------------------
-- The call
-- ---------------------------------------------------------------------------

/-- A call of `prepare_replication` ends in exactly one of the three ways, and
`mysql_rpl_listener__prepare` returns 0 for the first of them only. -/
def PreparesCleanly (given : Option (List UInt8)) (calls : ServerCalls) (c : Client) : Prop :=
  ∃ c', (Client.prepareReplication calls).run c = .ok () c' ∧
    (∃! e, EndsIn given calls c c' e) ∧
    ∃ rc, (mysqlRplListenerPrepare true calls).run c = .ok rc c' ∧
      (rc = 0 ↔ EndsIn given calls c c' .prepared)

theorem prepare_run (h : (Client.prepareReplication calls).run c = .ok () c') :
    (mysqlRplListenerPrepare true calls).run c =
      .ok (if c'.world.error.isSome then 1020 else 0) c' := by
  have hclear : (Client.prepareReplication calls).run c.cleared = .ok () c' := h
  unfold mysqlRplListenerPrepare
  rw [run_bind_ok onWorld_clearError_run, if_pos rfl, run_bind_ok hclear, run_get_bind]
  cases c'.world.error <;> rfl

theorem endsIn_unique {e e' : PrepareEnd} (h : EndsIn given calls c c' e)
    (h' : EndsIn given calls c c' e') : e = e' := by
  cases e <;> cases e'
  case prepared.prepared | ended.ended | refused.refused => rfl
  case prepared.ended => exact (nomatch h.state.symm.trans h'.2.state)
  case ended.prepared => exact (nomatch h'.state.symm.trans h.2.state)
  case prepared.refused => exact (nomatch h.error ▸ h'.2.error)
  case refused.prepared => exact (nomatch h'.error ▸ h.2.error)
  case ended.refused => exact absurd h.1 h'.1
  case refused.ended => exact absurd h'.1 h.1

theorem endsIn_prepared_iff {e : PrepareEnd} (h : EndsIn given calls c c' e) :
    (if c'.world.error.isSome then 1020 else 0) = 0 ↔ EndsIn given calls c c' .prepared := by
  cases e with
  | prepared => exact iff_of_true (by rw [h.error]; rfl) h
  | ended =>
    refine iff_of_false (by rw [if_pos h.2.error]; decide) fun hp => ?_
    exact (nomatch endsIn_unique h hp)
  | refused =>
    refine iff_of_false (by rw [if_pos h.2.error]; decide) fun hp => ?_
    exact (nomatch endsIn_unique h hp)

theorem preparesCleanly_iff : PreparesCleanly given calls c ↔
    ∃ c' e, (Client.prepareReplication calls).run c = .ok () c' ∧ EndsIn given calls c c' e := by
  constructor
  · rintro ⟨c', hrun, ⟨e, he, -⟩, -⟩
    exact ⟨c', e, hrun, he⟩
  · rintro ⟨c', e, hrun, he⟩
    exact ⟨c', hrun, ⟨e, he, fun e' he' => endsIn_unique he' he⟩, _, prepare_run hrun,
      endsIn_prepared_iff he⟩

theorem prepare_cleanly_iff (h : c.world.obj.state = .created → c.Fresh given) :
    PreparesCleanly given calls c ↔ ¬ (calls.Asks c ∧ calls.VariablesBreak given) := by
  rw [preparesCleanly_iff]
  by_cases hs : c.world.obj.state = .created
  · rw [← prepareReplication_clean (h hs) hs]
    constructor
    · rintro ⟨c', e, hrun, he⟩
      cases e with
      | prepared => exact ⟨c', hrun, .inr he⟩
      | ended => exact ⟨c', hrun, .inl he.2⟩
      | refused => exact absurd hs he.1
    · rintro ⟨c', hrun, he | hp⟩
      · exact ⟨c', .ended, hrun, hs, he⟩
      · exact ⟨c', .prepared, hrun, hp⟩
  · refine iff_of_true ?_ fun hb => hs hb.1.created
    exact ⟨_, .refused, prepareReplication_run_other hs, hs, rfl, rfl, rfl, rfl⟩

-- ---------------------------------------------------------------------------
-- The listeners there are
-- ---------------------------------------------------------------------------

section

variable (os : Allocator) (deserialize : Deserialize) (args : InitArgs)

/-- A listener as the constructor returns it, or with tables added, or in any state
but `CREATED`. -/
inductive Client.Reached : Client → Prop where
  | constructed {c : Client} {heap heap' : Heap} (myConn : c.myConn = false)
      (conn : c.conn = .closed)
      (run : (newListener os deserialize args).run heap = .ok c.world.obj heap') : Reached c
  | added {c c' : Client} {dbName tblName : List UInt8} {rc : Nat} (before : Reached c)
      (run : (onWorld (tableAdd os dbName tblName)).run c = .ok rc c') : Reached c'
  | past {c : Client} (state : c.world.obj.state ≠ .created) : Reached c

end

variable {os : Allocator} {deserialize : Deserialize} {args : InitArgs}

theorem newListener_position {heap heap' : Heap} {o : Listener}
    (h : (newListener os deserialize args).run heap = .ok o heap') :
    o.mLogNm = args.listener.mLogNm ∧ o.rpl = args.listener.rpl := by
  unfold newListener at h
  split at h
  · obtain ⟨ok, heap₁, -, h⟩ := run_bind_inv h
    cases ok with
    | false =>
      obtain ⟨rfl, -⟩ := run_pure_inv h
      exact ⟨rfl, rfl⟩
    | true =>
      obtain ⟨m, heap₂, -, h⟩ := run_bind_inv h
      obtain ⟨rfl, -⟩ := run_pure_inv h
      exact ⟨rfl, rfl⟩
  · obtain ⟨rfl, -⟩ := run_pure_inv h
    exact ⟨rfl, rfl⟩

theorem listener_position : args.listener.mLogNm = ((args.masterFileName.map cstr).getD []).take 511 ∧
    (args.masterFileName.isSome → args.listener.rpl.fileNameSet = true) := by
  unfold InitArgs.listener
  cases args.masterFileName with
  | none => exact ⟨rfl, fun h => nomatch h⟩
  | some name => exact ⟨rfl, fun _ => rfl⟩

theorem onWorld_inv {α : Type} {x : ListenM α} {a : α} (h : (onWorld x).run c = .ok a c') :
    ∃ w, x.run c.world = .ok a w ∧ c' = { c with world := w } := by
  unfold onWorld at h
  rw [run_zoom] at h
  cases hx : x.run (Client.worldPart.get c) with
  | ok a w =>
    rw [hx] at h
    cases h
    exact ⟨w, hx, rfl⟩
  | error e w =>
    rw [hx] at h
    cases h

theorem tableAdd_keeps (os : Allocator) (dbName tblName : List UInt8) :
    Keeps (fun w : World => (w.obj.mLogNm, w.obj.rpl, w.obj.state)) (tableAdd os dbName tblName) := by
  refine Keeps.bind .get fun w => ?_
  split
  · exact .pure _
  refine Keeps.bind (.zoom fun _ _ => rfl) fun ok => ?_
  split
  · exact Keeps.bind (.modify fun _ => rfl) fun _ => .pure _
  · exact .pure _

theorem Client.Reached.fresh (h : Client.Reached os deserialize args c)
    (hs : c.world.obj.state = .created) : c.Fresh args.masterFileName := by
  induction h with
  | constructed myConn conn run =>
    obtain ⟨hname, hrpl⟩ := newListener_position run
    obtain ⟨hcut, hset⟩ := @listener_position args
    exact ⟨myConn, conn, hname.trans hcut, fun hg => hrpl ▸ hset hg⟩
  | added before run ih =>
    obtain ⟨w, hrun, rfl⟩ := onWorld_inv run
    have hkept := (tableAdd_keeps os _ _).ok hrun
    simp only [Prod.mk.injEq] at hkept
    obtain ⟨hname, hrpl, hstate⟩ := hkept
    have hf := ih (hstate.symm.trans hs)
    exact ⟨hf.myConn, hf.conn, hname.trans hf.name, fun hg => hrpl ▸ hf.nameSet hg⟩
  | past state => exact absurd hs state

/-- A call of `prepare_replication` has one of its outcomes exactly when the variables
are not asked for, or no row of theirs is NULL where it is compared and, once the
variables suit, `SHOW MASTER STATUS` is stored and the log name has less than 512
bytes. -/
theorem prepare_outcomes (h : Client.Reached os deserialize args c) :
    PreparesCleanly args.masterFileName calls c ↔
      ¬ (calls.Asks c ∧ calls.VariablesBreak args.masterFileName) :=
  prepare_cleanly_iff h.fresh

-- ---------------------------------------------------------------------------
-- A listener
-- ---------------------------------------------------------------------------

def grantingAllocator : Allocator := ⟨fun _ => true, fun _ _ => 0⟩

def unplacedArgs : InitArgs :=
  { onRow := true, onHeartbeat := true, onTransaction := true, disp := ⟨false, false, false⟩ }

def sampleClient : Client where
  world :=
    { obj := { unplacedArgs.listener with tables := [{ dbName := ascii "d", tblName := ascii "t" }] }
      heap := { asked := 1 } }

def variableRow (name value : String) : Field × Field := (some (ascii name), some (ascii value))

def sampleCalls (masterStatus : Answer (Field × Field)) : ServerCalls where
  init := true
  connect := none
  version := .rows [some (ascii "8.0.30")]
  showVariables := .rows
    [variableRow "binlog_format" "ROW", variableRow "binlog_row_image" "FULL",
      variableRow "binlog_row_metadata" "FULL", variableRow "gtid_mode" "OFF"]
  checksum := none
  heartbeatPeriod := none
  masterStatus
  noStatus := ""

theorem sampleClient_reached :
    Client.Reached grantingAllocator (fun _ => none) unplacedArgs sampleClient := by
  have hnew : Client.Reached grantingAllocator (fun _ => none) unplacedArgs
      { world := { obj := unplacedArgs.listener } } :=
    @Client.Reached.constructed _ _ _ _ {} {} rfl rfl rfl
  exact @Client.Reached.added _ _ _ _ _ (ascii "d") (ascii "t") 0 hnew rfl

def sampleStatus : Answer (Field × Field) :=
  .rows [(some (ascii "binlog.000001"), some (ascii "157"))]

theorem variableRow_not_null (name value : String) : ¬ NullRow (variableRow name value) := by
  rintro ⟨_, -, hnull⟩
  rcases hnull with hfst | ⟨-, hsnd⟩
  · cases hfst
  · cases hsnd

theorem sampleStatus_position : ¬ (sampleCalls sampleStatus).PositionBreaks none := by
  rintro (⟨-, _, hstore⟩ | ⟨name, hname, hlong⟩)
  · cases hstore
  · have hlog : (sampleCalls sampleStatus).logName none = some (ascii "binlog.000001") := by
      decide +kernel
    rw [hlog] at hname
    cases hname
    exact absurd hlong (by decide +kernel)

theorem prepare_outcomes_sample : PreparesCleanly none (sampleCalls sampleStatus) sampleClient := by
  refine (prepare_outcomes sampleClient_reached).mpr fun ⟨_, rows, hrows, hbreak⟩ => ?_
  cases hrows
  rcases hbreak with ⟨row, hrow, hnull⟩ | ⟨-, hposition⟩
  · simp only [List.mem_cons, List.not_mem_nil, or_false] at hrow
    rcases hrow with rfl | rfl | rfl | rfl <;> exact variableRow_not_null _ _ hnull
  · exact sampleStatus_position hposition

/-- The answer to `SHOW MASTER STATUS` cannot be stored: the listener has ended, but
its connection is open. -/
theorem lostStatus_connected :
    (∃ c', (Client.prepareReplication (sampleCalls (.storeError "Lost connection"))).run sampleClient =
        .ok () c' ∧ c'.world.obj.state = .ended ∧ c'.myConn = true ∧ c'.conn = .connected) ∧
      ¬ PreparesCleanly none (sampleCalls (.storeError "Lost connection")) sampleClient := by
  have hrun : returned
      (fun _ c' => decide (c'.world.obj.state = .ended) && c'.myConn && decide (c'.conn = .connected))
      ((Client.prepareReplication (sampleCalls (.storeError "Lost connection"))).run
        sampleClient) = true := by
    decide +kernel
  obtain ⟨_, c', hc, hends⟩ := exists_of_returned hrun
  simp only [Bool.and_eq_true, decide_eq_true_eq] at hends
  obtain ⟨⟨hstate, hmy⟩, hconn⟩ := hends
  refine ⟨⟨c', hc, hstate, hmy, hconn⟩, ?_⟩
  rintro ⟨c'', hrun', ⟨e, he, -⟩, -⟩
  cases hc.symm.trans hrun'
  cases e with
  | prepared => exact (nomatch hstate.symm.trans he.state)
  | ended => exact Bool.noConfusion (hmy.symm.trans he.2.myConn)
  | refused => exact he.1 rfl

end RplListener
