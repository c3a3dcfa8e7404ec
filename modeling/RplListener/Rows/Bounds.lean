import RplListener.Rows.WalkComplete
import RplListener.Rows.RoundTrip

/-!
# When a corrupted event is refused

`getRows` stays inside the event, and succeeds only on complete images, exactly
when the reads it does not check are inside.
-/

namespace RplListener

open Bytes Refine

variable {lib : Library}

/-- Whatever the allocator answers, the call ends with `OK_CONTINUE` or
`ERROR_STOP`, and with `OK_CONTINUE` only when `value` has come to the end of
the event over complete images, as many as rows were counted. -/
def RowsCall.Guarded (lib : Library) (c : RowsCall) : Prop :=
  ∀ os s, s.set.rowsCount = 0 →
    match (getRows lib os c.ev c.map c.map.mColcnt c.info c.disp).run s with
    | .ok value s' => value = c.ev.mRowsBuf.length ∧ ∃ rows : List EncodedRow,
        rows.length = s'.set.rowsCount ∧
        (∀ e ∈ rows, e.Complete lib anyDoc c.args c.update c.ev.mCols c.ev.mColsAi) ∧
        c.ev.mRowsBuf = rows.flatMap EncodedRow.bytes
    | .error (.error _) _ => True
    | .error _ _ => False

/-- The reads nobody checks are inside, unless the event is refused before the
first image. -/
def RowsCall.Inside (lib : Library) (c : RowsCall) : Prop :=
  c.accepted = true →
    RowsInside lib c.ev.mRowsBuf c.args c.update c.ev.mCols c.ev.mColsAi c.ev.mRowsBuf.length 0

/-- The table has its columns in the cache and in the bitmaps, and the library
functions are what they are documented to be. -/
structure RowsCall.Fitting (lib : Library) (c : RowsCall) : Prop where
  cached : c.Cached
  sizes : ∀ col ∈ c.map.columns, lib.FieldSize col
  cols : c.ev.mCols.length = c.map.mColcnt
  colsAi : c.ev.mColsAi.length = c.map.mColcnt
  lenenc : c.ev.typeCode = .partialUpdateRows → lib.LenencLocal

variable {c : RowsCall}

theorem RowsCall.Fitting.bounded {rule : FieldRule} (h : c.Fitting lib)
    (hwalks : ∀ col ∈ c.map.columns, lib.Walks rule c.ev.mRowsBuf col) :
    c.args.Bounded lib rule c.ev.mRowsBuf c.ev.mCols c.ev.mColsAi where
  walks := hwalks
  lenenc := h.lenenc
  cols := h.cols.trans c.map.columns_length.symm
  colsAi := h.colsAi.trans c.map.columns_length.symm

theorem RowsCall.Fitting.complete (h : c.Fitting lib)
    (hexact : ∀ col ∈ c.map.columns, lib.ExactSize col) :
    c.args.Bounded lib (FieldFits anyDoc) c.ev.mRowsBuf c.ev.mCols c.ev.mColsAi :=
  h.bounded fun col hcol => (hexact col hcol).walks c.ev.size_lt

theorem ends_scanEvent (h : c.Fitting lib) (hexact : ∀ col ∈ c.map.columns, lib.ExactSize col) :
    Ends (scanEvent lib c) (fun x => x.2 = c.ev.mRowsBuf.length) ↔ c.Inside lib := by
  unfold scanEvent RowsCall.Inside
  split
  case isTrue hacc =>
    rw [ends_scanRows (h.complete hexact) hexact c.ev.size_lt (Nat.zero_le _) (by omega)]
    simp [hacc]
  case isFalse hacc => simp [hacc]

theorem getRows_guarded_iff (h : c.Fitting lib)
    (hexact : ∀ col ∈ c.map.columns, lib.ExactSize col) : c.Guarded lib ↔ c.Inside lib := by
  rw [← ends_scanEvent h hexact]
  constructor
  · intro hg
    obtain ⟨os, hos⟩ := Allocator.exists_succeeds
    have hf := getRows_follows lib os (s := ⟨{}, {}⟩) h.cached rfl
    have hrun := hg os ⟨{}, {}⟩ rfl
    split at hrun
    case h_1 value s' heq =>
      obtain ⟨x, hx, rfl, -⟩ := hf.ok heq
      rw [hx]
      exact hrun.1
    case h_2 desc s' heq =>
      rcases hf.error heq with ⟨-, hsp⟩ | ⟨v, hv, hverdict⟩
      · exact absurd hos hsp
      · rw [hv, ← hverdict]
        trivial
    case h_3 => exact hrun.elim
  · intro hends os s hs
    have hf := getRows_follows lib os h.cached hs
    split
    case h_1 value s' heq =>
      obtain ⟨⟨rows, stop⟩, hx, rfl, -, hd⟩ := hf.ok heq
      rw [hx] at hends
      have hstop : value = c.ev.mRowsBuf.length := hends
      obtain ⟨encoded, rfl, hfits, hall, hspan⟩ : ∃ encoded : List EncodedRow, _ :=
        scanRows_complete (h.complete hexact) (Nat.zero_le _) (scanEvent_rows (hstop ▸ hx))
      refine ⟨hstop, encoded, by rw [hd.count, List.length_map], fun e he => ?_, hspan.whole⟩
      obtain ⟨_, hfit⟩ := hfits.of_mem he
      exact (hall e he).1 ▸ hfit.complete
    case h_2 => trivial
    case h_3 e s' hne heq =>
      rcases hf.error heq with ⟨hv, -⟩ | ⟨v, hv, hverdict⟩
      · cases e with
        | error desc => exact hne desc rfl
        | _ => cases hv
      · rw [hv, ← hverdict] at hends
        cases e with
        | error desc => exact hne desc rfl
        | _ => exact hends

theorem sampleLibrary_lenencLocal : sampleLibrary.LenencLocal := by
  intro avail maxLength v taken h
  cases avail with
  | nil => cases h
  | cons b bs =>
    simp only [sampleLibrary] at h
    split at h
    case isTrue => cases h
    case isFalse hb =>
      cases h
      refine ⟨Nat.one_pos, by omega, by simp, fun rest maxLength' h1 => ?_⟩
      simp only [sampleLibrary, List.take_succ_cons, List.take_zero, List.singleton_append]
      rw [if_neg (by omega)]

theorem sampleCall_fitting : sampleCall.Fitting sampleLibrary where
  cached := sampleCall_cached
  sizes := sampleCall_readable.sizes
  cols := rfl
  colsAi := rfl
  lenenc := fun _ => sampleLibrary_lenencLocal

theorem sampleCall_inside : sampleCall.Inside sampleLibrary := by
  rw [← ends_scanEvent sampleCall_fitting fun _ => sampleLibrary_exactSize,
    sampleCall_encodes.scan sampleCall_readable]
  rfl

theorem getRows_guarded_iff_sample : sampleCall.Guarded sampleLibrary :=
  (getRows_guarded_iff sampleCall_fitting fun _ => sampleLibrary_exactSize).mpr sampleCall_inside

theorem oneByte_lt : ([1] : List UInt8).length < 2 ^ 32 := by decide

theorem oneColumn : ([⟨1, 0⟩] : List Column).length = ([1] : List UInt8).length := rfl

/-- An update of a table with one column, whose event ends behind the before
image. -/
def truncatedCall : RowsCall where
  ev :=
    { typeCode := .updateRows, when := 0, tableId := 1, ndbLength := none
      mCols := [true], mColsAi := [true], mRowsBuf := [1], size_lt := oneByte_lt }
  map :=
    { tempBuf := [], tableId := 1, dbName := ascii "d", tableName := ascii "t", mColtype := [1]
      mOptionalMetadata := [], columns := [⟨1, 0⟩], columns_length := oneColumn
      colcnt_lt := oneByte_lt }
  info := (1, [⟨1, [], false⟩])
  disp := ⟨true, false, false⟩

/-- The NULL bit of the after image is read behind the event. -/
theorem truncatedCall_overread : ∃ s', (getRows sampleLibrary sampleAllocator truncatedCall.ev
    truncatedCall.map 1 truncatedCall.info truncatedCall.disp).run ⟨{}, {}⟩ = .error .overread s' :=
  ⟨_, rfl⟩

theorem truncatedCall_not_guarded : ¬ truncatedCall.Guarded sampleLibrary := by
  intro h
  obtain ⟨s', hrun⟩ := truncatedCall_overread
  have := h sampleAllocator ⟨{}, {}⟩ rfl
  rw [show truncatedCall.map.mColcnt = 1 from rfl, hrun] at this
  exact this

end RplListener
