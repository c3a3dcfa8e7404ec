import RplListener.Listener.Watched

/-!
# The column cache

What a table map says about its columns, and what the cache of a watched table
holds after it was brought up to date: the records of the new columns, whatever
was there before. The recorded count never exceeds the block that was allocated.
-/

namespace RplListener

open Bytes Refine

variable {lib : Library} {os : Allocator} {s : FillState}
variable {ev : RowsLogEvent2} {map : TableMapLogEvent}

-- ---------------------------------------------------------------------------
-- What a table map says
-- ---------------------------------------------------------------------------

def signednessShort : FillStop := .failed "ERROR opt metadata SIGNEDESS parsing !!!"

/-- The signedness of a column: a numeric one takes a bit of the vector. -/
def takeSign (type : UInt8) (signedness : List Bool) : Except FillStop (Bool × List Bool) :=
  if isNumericType type then
    match signedness with
    | [] => .error signednessShort
    | b :: bits => .ok (b, bits)
  else .ok (false, signedness)

def describeColumns : (types : List UInt8) → (names : List (List UInt8)) →
    (signedness : List Bool) → Except FillStop (List ColInfo)
  | type :: types, name :: names, signedness => do
    let (isUnsigned, rest) ← takeSign type signedness
    let cols ← describeColumns types names rest
    pure (⟨type, (cstr name).take 127, isUnsigned⟩ :: cols)
  | _, _, _ => .ok []

/-- The names and the signedness vector, when the metadata is complete. -/
def TableMapLogEvent.metadata (lib : Library) (map : TableMapLogEvent) :
    Except FillStop (List (List UInt8) × List Bool) :=
  if map.mOptionalMetadata = [] then .error (.failed (fullMetadata 1))
  else
    match lib.optionalMetadata map.mOptionalMetadata with
    | .throws what => .error (.thrown what .junk)
    | .invalid => .error (.failed (fullMetadata 2))
    | .fields names signedness =>
      if names.length ≠ map.mColcnt then .error (.failed
        "ERROR opt metadata parsing ( may be binlog_row_metadata is not set to FULL ) ")
      else .ok (names, signedness)

def TableMapLogEvent.described (lib : Library) (map : TableMapLogEvent) :
    Except FillStop (List ColInfo) := do
  let (names, signedness) ← map.metadata lib
  describeColumns map.mColtype names signedness

theorem TableMapLogEvent.metadata_ok {names : List (List UInt8)} {signedness : List Bool}
    (h : map.metadata lib = .ok (names, signedness)) :
    lib.optionalMetadata map.mOptionalMetadata = .fields names signedness ∧
      names.length = map.mColcnt := by
  unfold TableMapLogEvent.metadata at h
  split at h
  · cases h
  · cases hf : lib.optionalMetadata map.mOptionalMetadata with
    | throws what => simp [hf] at h
    | invalid => simp [hf] at h
    | fields names' signedness' =>
      simp only [hf] at h
      split at h
      case isTrue => cases h
      case isFalse hlen =>
        cases h
        exact ⟨rfl, not_not.mp hlen⟩

theorem describeColumns_error {types : List UInt8} {names : List (List UInt8)}
    {signedness : List Bool} {e : FillStop}
    (h : describeColumns types names signedness = .error e) : e = signednessShort := by
  induction types generalizing names signedness with
  | nil => cases h
  | cons type types ih =>
    cases names with
    | nil => cases h
    | cons name names =>
      rcases bind_eq_error.mp h with htake | ⟨⟨isUnsigned, rest⟩, -, h⟩
      · unfold takeSign at htake
        split at htake
        · split at htake
          · exact (Except.error.inj htake).symm
          · cases htake
        · cases htake
      · rcases bind_eq_error.mp h with hrest | ⟨cols, -, h⟩
        · exact ih hrest
        · cases h

theorem TableMapLogEvent.metadata_error {e : FillStop} (h : map.metadata lib = .error e) :
    (∃ desc, e = .failed desc) ∨ ∃ what, e = .thrown what .junk := by
  unfold TableMapLogEvent.metadata at h
  split at h
  · cases h
    exact .inl ⟨_, rfl⟩
  · split at h
    · cases h
      exact .inr ⟨_, rfl⟩
    · cases h
      exact .inl ⟨_, rfl⟩
    · split at h
      · cases h
        exact .inl ⟨_, rfl⟩
      · cases h

theorem TableMapLogEvent.described_error {e : FillStop} (h : map.described lib = .error e) :
    (∃ desc, e = .failed desc) ∨ ∃ what, e = .thrown what .junk ∧ map.metadata lib = .error e := by
  obtain hmeta | ⟨x, -, hdescribe⟩ := bind_eq_error.mp h
  · obtain h | ⟨what, rfl⟩ := metadata_error hmeta
    · exact .inl h
    · exact .inr ⟨what, rfl, hmeta⟩
  · exact .inl ⟨_, describeColumns_error hdescribe⟩

theorem readMetadata_run : (readMetadata lib map).run s = match map.metadata lib with
    | .ok r => .ok r s
    | .error e => .error e s := by
  unfold readMetadata TableMapLogEvent.metadata
  split
  · rfl
  · cases lib.optionalMetadata map.mOptionalMetadata with
    | throws what => rfl
    | invalid => rfl
    | fields names signedness => dsimp only; split <;> rfl

-- ---------------------------------------------------------------------------
-- Capacity
-- ---------------------------------------------------------------------------

/-- The block has room for the columns that are recorded. -/
def TblInfo.Roomy (info : TblInfo) : Prop :=
  match info.columns with
  | .null => True
  | .wild => False
  | .block _ cols => info.colCount ≤ cols.length

def TblInfo.Begins (info : TblInfo) (cols : List ColInfo) : Prop :=
  ∃ id rest, info.columns = .block id (cols ++ rest)

def fillHalts (spare : FillStop → Prop) : Halts FillStop FillStop := ⟨spare, Eq⟩

/-- A failure the table map does not speak of is one of an allocation; a block
that is too short is found out by an access. -/
def cacheSpare (os : Allocator) (info : TblInfo) (e : FillStop) : Prop :=
  ((∃ desc, e = .failed desc) ∧ ¬ os.Succeeds) ∨ (e = .memory ∧ ¬ info.Roomy)

theorem request_fill_triple :
    Triple (zoom FillState.heapPart (Heap.request os) : FillM (Option Nat)) s
      (fun r s' => s'.info = s.info ∧ (r = none → ¬ os.Succeeds)) fun _ _ => False := by
  refine (Triple.zoom (Heap.request_triple (E := fun _ _ => False))).mono ?_ ?_
  · rintro r s' ⟨h', hr, rfl⟩
    exact ⟨rfl, hr⟩
  · rintro e s' ⟨h', he, -⟩
    exact he

theorem free_fill_triple {α : Type} (p : Ptr α) :
    Triple (zoom FillState.heapPart (Heap.free p) : FillM Unit) s
      (fun _ s' => s'.info = s.info) fun _ _ => False := by
  exact Triple.of_run (a := ()) rfl rfl

theorem allocColumns_triple (count : Nat) :
    Triple (allocColumns os count) s
      (fun _ s' => ∃ id cols, s'.info.columns = .block id cols ∧ count ≤ cols.length)
      fun e s' => ((∃ desc, e = .failed desc) ∧ ¬ os.Succeeds) ∧ s'.info.Roomy := by
  unfold allocColumns
  refine Triple.bind (request_fill_triple.mono (fun _ _ h => h) fun _ _ h => h.elim) ?_
  rintro r s₁ ⟨-, hr⟩
  cases r with
  | some id => exact Triple.of_run rfl ⟨id, _, rfl, by simp⟩
  | none => exact Triple.of_run_error rfl ⟨⟨⟨_, rfl⟩, hr rfl⟩, trivial⟩

theorem reserveColumns_triple (count : Nat) :
    Triple (reserveColumns os count) s
      (fun _ s' => s.info.Roomy → ∃ id cols, s'.info.columns = .block id cols ∧ count ≤ cols.length)
      fun e s' => ((∃ desc, e = .failed desc) ∧ ¬ os.Succeeds) ∧ s'.info.Roomy := by
  have halloc {s : FillState} {P : Prop} : Triple (allocColumns os count) s
      (fun _ s' => P → ∃ id cols, s'.info.columns = .block id cols ∧ count ≤ cols.length)
      fun e s' => ((∃ desc, e = .failed desc) ∧ ¬ os.Succeeds) ∧ s'.info.Roomy :=
    (allocColumns_triple count).mono (fun _ _ h _ => h) fun _ _ h => h
  unfold reserveColumns
  refine Triple.get_bind ?_
  dsimp only
  split
  case isTrue => exact halloc
  case isFalse hnull =>
    split
    case isTrue hle =>
      refine Triple.pure fun h => ?_
      unfold TblInfo.Roomy at h
      cases hc : s.info.columns with
      | null => exact absurd (by rw [hc]; rfl) hnull
      | wild => simp [hc] at h
      | block id cols => exact ⟨id, cols, rfl, hle.trans (by simpa [hc] using h)⟩
    case isFalse =>
      refine Triple.bind ((free_fill_triple _).mono (fun _ _ _ => trivial) fun _ _ h => h.elim)
        fun _ s' (_ : True) => ?_
      exact halloc

-- ---------------------------------------------------------------------------
-- Writing the records
-- ---------------------------------------------------------------------------

def FillState.withColumns (s : FillState) (p : Ptr (List ColInfo)) : FillState :=
  { s with info := { s.info with columns := p } }

@[simp] theorem FillState.withColumns_info (p : Ptr (List ColInfo)) :
    (s.withColumns p).info = { s.info with columns := p } := rfl

@[simp] theorem FillState.withColumns_withColumns (p q : Ptr (List ColInfo)) :
    (s.withColumns p).withColumns q = s.withColumns q := rfl

theorem writeColumns_run {id : Nat} {cols cols' : List ColInfo}
    {write : List ColInfo → Option (List ColInfo)} (hc : s.info.columns = .block id cols)
    (hw : write cols = some cols') :
    (writeColumns write).run s = .ok () (s.withColumns (.block id cols')) := by
  unfold writeColumns
  rw [run_get_bind]
  simp only [hc, hw]
  rfl

theorem modify_append_cons {α : Type} (f : α → α) (done rest : List α) (c : α) :
    (done ++ c :: rest).modify done.length f = done ++ f c :: rest := by
  induction done with
  | nil => rfl
  | cons d done ih => simpa using ih

theorem modifyColumn_run {id : Nat} {done rest : List ColInfo} {c : ColInfo}
    (f : ColInfo → ColInfo) (hc : s.info.columns = .block id (done ++ c :: rest)) :
    (modifyColumn done.length f).run s =
      .ok () (s.withColumns (.block id (done ++ f c :: rest))) := by
  refine writeColumns_run hc ?_
  rw [if_pos (by simp), modify_append_cons]

theorem clearColumns_run {id count : Nat} {cols : List ColInfo}
    (hc : s.info.columns = .block id cols) (hle : count ≤ cols.length) :
    (clearColumns count).run s = .ok () { s with info :=
      { colCount := count, columns := .block id (List.replicate count .zero ++ cols.drop count) } } := by
  unfold clearColumns
  rw [run_bind_ok (x := modifyInfo _) rfl]
  exact writeColumns_run hc (if_pos hle)

def ColInfo.untyped (c : ColInfo) : ColInfo := { c with type := 0 }

variable {spare : FillStop → Prop}

theorem storeSign_follows {id : Nat} {done rest : List ColInfo} {c : ColInfo} {type : UInt8}
    {signedness : List Bool} (hc : s.info.columns = .block id (done ++ c :: rest)) :
    Follows (fillHalts spare)
      (if isNumericType type then
        match signedness with
        | [] => throw signednessShort
        | b :: bits => do
          modifyColumn done.length fun c => { c with isUnsigned := b }
          pure bits
      else do
        modifyColumn done.length fun c => { c with isUnsigned := false }
        pure signedness : FillM (List Bool)) s (takeSign type signedness)
      fun bits s' r => bits = r.2 ∧
        s' = s.withColumns (.block id (done ++ { c with isUnsigned := r.1 } :: rest)) := by
  unfold takeSign
  split
  case isFalse => exact Follows.of_run (run_bind_ok (modifyColumn_run _ hc) _) ⟨rfl, rfl⟩
  case isTrue =>
    cases signedness with
    | nil => exact Follows.throw rfl
    | cons b bits => exact Follows.of_run (run_bind_ok (modifyColumn_run _ hc) _) ⟨rfl, rfl⟩

/-- The records from the end of `done` on, which were cleared, are written with
what is described. By induction on the types. -/
theorem storeNames_follows {id : Nat} {types : List UInt8} {names : List (List UInt8)}
    {signedness : List Bool} {done rest : List ColInfo} (hlen : names.length = types.length)
    (hc : s.info.columns = .block id (done ++ (List.replicate types.length .zero ++ rest))) :
    Follows (fillHalts spare) (storeNames types done.length names signedness) s
      (describeColumns types names signedness)
      fun _ s' cols => cols.map ColInfo.type = types ∧
        s' = s.withColumns (.block id (done ++ (cols.map ColInfo.untyped ++ rest))) := by
  induction types generalizing names signedness done s with
  | nil =>
    refine Follows.pure ⟨rfl, ?_⟩
    rw [List.map_nil, ← show s.info.columns = .block id (done ++ ([] ++ rest)) from hc]
    rfl
  | cons type types ih =>
    cases names with
    | nil => cases hlen
    | cons name names =>
      rw [List.length_cons, List.replicate_succ, List.cons_append] at hc
      refine Follows.bind (storeSign_follows hc) ?_
      rintro bits s₁ ⟨isUnsigned, bits'⟩ ⟨rfl, rfl⟩
      refine Follows.bind_run (modifyColumn_run (s := s.withColumns _) _ rfl) ?_
      have ih' := @ih (s.withColumns (.block id (done ++ (⟨0, (cstr name).take 127, isUnsigned⟩ ::
        (List.replicate types.length .zero ++ rest))))) names bits
        (done ++ [⟨0, (cstr name).take 127, isUnsigned⟩]) (by simpa using hlen) (by simp)
      rw [List.length_append, List.length_singleton] at ih'
      refine Follows.map_right ih' ?_
      rintro _ s₂ cols ⟨htypes, rfl⟩
      refine ⟨by rw [List.map_cons, htypes], ?_⟩
      simp [ColInfo.untyped]

theorem storeTypes_run {id : Nat} {cols done rest : List ColInfo}
    (hc : s.info.columns = .block id (done ++ (cols.map ColInfo.untyped ++ rest))) :
    (storeTypes (cols.map ColInfo.type) done.length).run s =
      .ok () (s.withColumns (.block id (done ++ (cols ++ rest)))) := by
  induction cols generalizing done s with
  | nil =>
    rw [List.nil_append, ← show s.info.columns = .block id (done ++ rest) from hc]
    rfl
  | cons c cols ih =>
    rw [List.map_cons, List.cons_append] at hc
    have ih' := @ih (s.withColumns (.block id (done ++ (c :: (cols.map ColInfo.untyped ++ rest)))))
      (done ++ [c]) (by simp)
    rw [List.length_append, List.length_singleton] at ih'
    rw [List.map_cons, storeTypes, run_bind_ok (modifyColumn_run _ hc)]
    refine ih'.trans ?_
    simp

theorem writeColumns_none {write : List ColInfo → Option (List ColInfo)}
    (h : ∀ id cols, s.info.columns = .block id cols → write cols = none) :
    (writeColumns write).run s = .error .memory s := by
  unfold writeColumns
  rw [run_get_bind]
  cases hc : s.info.columns with
  | block id cols =>
    simp only [h id cols hc]
    rfl
  | null | wild => rfl

theorem recordColumns_follows
    (hfits : ∃ id cols, s.info.columns = .block id cols ∧ map.mColcnt ≤ cols.length) :
    Follows (fillHalts spare)
      (do
        clearColumns map.mColcnt
        let (names, signedness) ← readMetadata lib map
        storeNames map.mColtype 0 names signedness
        storeTypes map.mColtype 0) s (map.described lib)
      fun _ s' cols => cols.map ColInfo.type = map.mColtype ∧ s'.info.colCount = map.mColcnt ∧
        s'.info.Begins cols := by
  obtain ⟨id, cols, hc, hle⟩ := hfits
  unfold TableMapLogEvent.described
  refine Follows.bind_run (clearColumns_run hc hle) ?_
  generalize hs₁ : ({ s with info := _ } : FillState) = s₁
  have hread := @readMetadata_run lib s₁ map
  cases hm : map.metadata lib with
  | error e =>
    rw [hm] at hread
    exact Follows.bind_error hread rfl
  | ok r =>
    obtain ⟨names, signedness⟩ := r
    rw [hm] at hread
    refine Follows.bind_run hread ?_
    have hlen : names.length = map.mColtype.length := (TableMapLogEvent.metadata_ok hm).2
    have hstore := @storeNames_follows s₁ spare id _ _ signedness []
      (cols.drop map.mColcnt) hlen (by rw [← hs₁]; rfl)
    refine Follows.then_silent hstore ?_
    rintro _ _ cols' ⟨htypes, rfl⟩
    have hrun := @storeTypes_run (s₁.withColumns (.block id ([] ++ (cols'.map ColInfo.untyped ++
      cols.drop map.mColcnt)))) id cols' [] _ rfl
    rw [htypes] at hrun
    exact Triple.of_run hrun ⟨htypes, by rw [← hs₁]; rfl, id, _, rfl⟩

/-- After an update the cache holds what the table map says, and nothing of what
was there before. -/
theorem updateInfo_follows : Follows (fillHalts (cacheSpare os s.info)) (updateInfo lib os map) s
    (map.described lib)
    fun _ s' cols => cols.map ColInfo.type = map.mColtype ∧ s'.info.colCount = map.mColcnt ∧
      s'.info.Begins cols := by
  unfold updateInfo
  refine Follows.bind_silent ((reserveColumns_triple map.mColcnt).mono (fun _ _ h => h)
    fun _ _ h => .inl h.1) fun _ s₁ hroom => ?_
  by_cases hfits : ∃ id cols, s₁.info.columns = .block id cols ∧ map.mColcnt ≤ cols.length
  · exact recordColumns_follows hfits
  · have hclear : (clearColumns map.mColcnt).run s₁ = .error .memory
        { s₁ with info := { s₁.info with colCount := map.mColcnt } } := by
      unfold clearColumns
      rw [run_bind_ok (x := modifyInfo _) rfl]
      refine writeColumns_none fun id cols hc => if_neg fun hle => hfits ⟨id, cols, hc, hle⟩
    exact Follows.of_run_spare (run_bind_error hclear _) (.inr ⟨rfl, fun h => hfits (hroom h)⟩)

-- ---------------------------------------------------------------------------
-- The rows structure
-- ---------------------------------------------------------------------------

theorem infoColumns_run {cols : List ColInfo} (hb : s.info.Begins cols) :
    (infoColumns cols.length).run s = .ok cols s := by
  obtain ⟨id, rest, hc⟩ := hb
  unfold infoColumns
  rw [run_get_bind]
  simp only [hc]
  rw [if_pos (by simp), List.take_left]
  rfl

theorem requestPtr_triple {α : Type} (contents : α) :
    Triple (requestPtr os contents) s
      (fun p s' => s'.info = s.info ∧ ((p = .null ∧ ¬ os.Succeeds) ∨ ∃ id, p = .block id contents))
      fun _ _ => False := by
  unfold requestPtr
  refine Triple.bind request_fill_triple ?_
  rintro r s₁ ⟨hinfo, hr⟩
  cases r with
  | some id => exact Triple.pure ⟨hinfo, .inr ⟨id, rfl⟩⟩
  | none => exact Triple.pure ⟨hinfo, .inl ⟨rfl, hr rfl⟩⟩

def ReplLogXRows.Lists (x : ReplLogXRows) (cols : List ColInfo) : Prop :=
  (∃ id, x.colNames = .block id (cols.map ColInfo.name)) ∧
    ∃ id, x.colTypes = .block id (cols.map ColInfo.type)

theorem replLogXRowsInit_triple {disp : DisplayBlobs} {cols : List ColInfo}
    (hb : s.info.Begins cols) (hlen : cols.length = map.mColcnt) :
    Triple (replLogXRowsInit os ev map disp) s
      (fun x s' => s'.info = s.info ∧ x.Lists cols ∧
        x = { ReplLogXRows.init ev map disp with colNames := x.colNames, colTypes := x.colTypes })
      fun e s' => s'.info = s.info ∧ ¬ os.Succeeds ∧
        ∃ x, e = .thrown "can not allocate memory for columns info!!!" x := by
  unfold replLogXRowsInit
  refine Triple.bind_run (hlen ▸ infoColumns_run hb) ?_
  refine Triple.bind ((requestPtr_triple _).mono (fun _ _ h => h) fun _ _ h => h.elim) ?_
  rintro colNames s₁ ⟨hinfo₁, hnames⟩
  refine Triple.bind ((requestPtr_triple _).mono (fun _ _ h => h) fun _ _ h => h.elim) ?_
  rintro colTypes s₂ ⟨hinfo₂, htypes⟩
  have hinfo : s₂.info = s.info := hinfo₂.trans hinfo₁
  dsimp only
  split
  case isTrue hnull =>
    have hos : ¬ os.Succeeds := by
      rcases hnames with ⟨-, h⟩ | ⟨id, rfl⟩
      · exact h
      · rcases htypes with ⟨-, h⟩ | ⟨id', rfl⟩
        · exact h
        · simp at hnull
    exact Triple.of_run_error rfl ⟨hinfo, hos, _, rfl⟩
  case isFalse hnull =>
    rcases hnames with ⟨rfl, -⟩ | ⟨id, rfl⟩
    · simp at hnull
    rcases htypes with ⟨rfl, -⟩ | ⟨id', rfl⟩
    · simp at hnull
    exact Triple.pure ⟨hinfo, ⟨⟨id, rfl⟩, id', rfl⟩, rfl⟩

def rowsCallOf (ev : RowsLogEvent2) (map : TableMapLogEvent) (cols : List ColInfo)
    (disp : DisplayBlobs) : RowsCall := ⟨ev, map, (map.mColcnt, cols), disp⟩

/-- How a structure that was delivered came about: the columns are those of the
table map, and the rows those `get_rows` finds with them. -/
def ReplLogXRows.FilledFrom (x : ReplLogXRows) (lib : Library) (os : Allocator) (ev : RowsLogEvent2)
    (map : TableMapLogEvent) (disp : DisplayBlobs) : Prop :=
  ∃ cols, map.described lib = .ok cols ∧ cols.map ColInfo.type = map.mColtype ∧ x.Lists cols ∧
    x = { ReplLogXRows.init ev map disp with
      colNames := x.colNames, colTypes := x.colTypes, set := x.set } ∧
    ∃ rest heap value t, (getRows lib os ev map map.mColcnt (map.mColcnt, cols ++ rest) disp).run
      ⟨heap, {}⟩ = .ok value t ∧ x.set = t.set

theorem fillRows_filled {disp : DisplayBlobs} {s' : FillState} {x : ReplLogXRows}
    (h : (fillRows lib os ev map disp).run s = .ok x s') : x.FilledFrom lib os ev map disp := by
  obtain ⟨_, s₁, hupdate, h⟩ := run_bind_inv h
  obtain ⟨y, s₂, hinit, h⟩ := run_bind_inv h
  obtain ⟨cols, hcols, htypes, hcount, hbegins⟩ := updateInfo_follows.ok hupdate
  have hlen : cols.length = map.mColcnt := by
    rw [TableMapLogEvent.mColcnt, ← htypes, List.length_map]
  obtain ⟨hinfo, hlists, hy⟩ := (replLogXRowsInit_triple hbegins hlen).ok hinit
  obtain ⟨id, rest, hc⟩ := hbegins
  simp only [callGetRows, EStateM.run] at h
  rw [hinfo, hcount, hc] at h
  split at h
  case h_1 value t hrun =>
    cases h
    rw [hy] at hrun
    refine ⟨cols, hcols, htypes, hlists, ?_, rest, s₂.heap, value, t, hrun, rfl⟩
    rw [hy]
  case h_2 => cases h
  case h_3 => cases h

end RplListener
