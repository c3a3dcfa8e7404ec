import RplListener.Rows.Bounds

/-!
# The diffs of a partial update

The loop over the diffs takes a byte, a path and a value from what is left of
the payload, and subtracts what it took from `length_x`. The length of a path and
that of a value are announced in the payload and not compared with what is left.
`DiffsBounded` says that they are no more than that, up to where the loop stops.
Under this condition the loop accepts the concatenations of diffs and nothing else.
-/

namespace RplListener

open Bytes Refine

variable {lib : Library} {os : Allocator} {buf : List UInt8} {p : Nat} {bs rest : List UInt8}

/-- `net_field_length_checked` and `parse_binary` look at nothing but the bytes
they are allowed. -/
structure Library.ReadsWithin (lib : Library) : Prop where
  lenenc : lib.LenencLocal
  lenenc_take : ∀ avail maxLength, maxLength ≤ avail.length →
    lib.netFieldLengthChecked avail maxLength ≠ .outside ∧
    lib.netFieldLengthChecked avail maxLength =
      lib.netFieldLengthChecked (avail.take maxLength) maxLength
  parse_take : ∀ avail length, length ≤ avail.length →
    lib.parseBinary avail length ≠ .outside ∧
    lib.parseBinary avail length = lib.parseBinary (avail.take length) length

structure DiffsPayload where
  ev : RowsLogEvent2
  ptr : Nat
  payload : List UInt8
  rest : List UInt8
  ahead : Ahead ev.mRowsBuf ptr (payload ++ rest)

-- ---------------------------------------------------------------------------
-- What the loop takes
-- ---------------------------------------------------------------------------

/-- The loop takes the `n` bytes at `p`, or hands them to the library, and
subtracts `n` from `length_x`. -/
structure DiffMove where
  p : Nat
  n : Nat
  lengthX : Nat

/-- The bytes are before `stop`, and `length_x` does not go below zero. -/
def DiffMove.Within (stop : Nat) (m : DiffMove) : Prop := m.p + m.n ≤ stop ∧ m.n ≤ m.lengthX

section

variable (lib buf)

def lengthMoves (p lengthX : Nat) (next : (p n lengthX : Nat) → List DiffMove) : List DiffMove :=
  match lib.netFieldLengthChecked (buf.drop p) lengthX with
  | .value n taken =>
    let left := sub64 lengthX taken
    ⟨p, taken, lengthX⟩ :: ⟨p + taken, n, left⟩ :: next (p + taken) n (sub64 left n)
  | _ => []

/-- The moves of the loop, turn for turn. -/
def diffMoves : (fuel p lengthX : Nat) → List DiffMove
  | 0, _, _ => []
  | fuel + 1, p, lengthX =>
    if lengthX = 0 then []
    else ⟨p, 1, lengthX⟩ ::
      match JsonDiffOperation.ofByte (((slice? buf p 1).getD []).headD 0) with
      | none => []
      | some operation =>
        lengthMoves lib buf (p + 1) (sub64 lengthX 1) fun p pathLength lengthX =>
          let p := p + pathLength
          if operation ≠ .remove then
            lengthMoves lib buf p lengthX fun p valueLength lengthX =>
              match lib.parseBinary (buf.drop p) valueLength with
              | .value _ => diffMoves fuel (p + valueLength) lengthX
              | _ => []
          else diffMoves fuel p lengthX

def LengthBounded (bs : List UInt8) (K : (taken n : Nat) → Prop) : Prop :=
  ∀ n taken, lib.netFieldLengthChecked bs bs.length = .value n taken →
    taken + n ≤ bs.length ∧ K taken n

/-- The lengths that the diffs announce are no more than what is left, up to
where the loop stops. -/
def DiffsBounded : (fuel : Nat) → List UInt8 → Prop
  | fuel + 1, b :: bs => ∀ operation, JsonDiffOperation.ofByte b = some operation →
    LengthBounded lib bs fun taken pathLength =>
      let bs := bs.drop (taken + pathLength)
      if operation ≠ .remove then
        LengthBounded lib bs fun taken valueLength =>
          ∀ text, lib.parseBinary (bs.drop taken) valueLength = .value text →
            DiffsBounded fuel (bs.drop (taken + valueLength))
      else DiffsBounded fuel bs
  | _, _ => True

end

-- ---------------------------------------------------------------------------
-- The moves are those of the loop
-- ---------------------------------------------------------------------------

/-- Each move starts where the one before it ended, and the last leaves
`length_x` at zero. -/
def MovesFrom : (p lengthX : Nat) → List DiffMove → Prop
  | _, lengthX, [] => lengthX = 0
  | p, lengthX, m :: ms =>
    m.p = p ∧ m.lengthX = lengthX ∧ MovesFrom (p + m.n) (sub64 lengthX m.n) ms

theorem scanInt_eq_ok {lengthX : Nat} {x : Nat × Nat} (h : scanInt lib buf p lengthX = .ok x) :
    lib.netFieldLengthChecked (buf.drop p) lengthX = .value x.1 x.2 := by
  unfold scanInt at h
  cases hint : lib.netFieldLengthChecked (buf.drop p) lengthX with
  | value v taken =>
    rw [hint] at h
    cases h
    rfl
  | _ =>
    rw [hint] at h
    cases h

theorem scanDoc_eq_ok {length : Nat} {text : List UInt8} (h : scanDoc lib buf p length = .ok text) :
    lib.parseBinary (buf.drop p) length = .value text := by
  unfold scanDoc at h
  cases hdoc : lib.parseBinary (buf.drop p) length with
  | value text' =>
    rw [hdoc] at h
    cases h
    rfl
  | _ =>
    rw [hdoc] at h
    cases h

theorem lengthMoves_eq {lengthX n taken : Nat} {next : (p n lengthX : Nat) → List DiffMove}
    (h : scanInt lib buf p lengthX = .ok (n, taken)) :
    lengthMoves lib buf p lengthX next =
      ⟨p, taken, lengthX⟩ :: ⟨p + taken, n, sub64 lengthX taken⟩ ::
        next (p + taken) n (sub64 (sub64 lengthX taken) n) := by
  unfold lengthMoves
  rw [scanInt_eq_ok h]

theorem lengthMoves_from {lengthX n taken : Nat} {next : (p n lengthX : Nat) → List DiffMove}
    (h : scanInt lib buf p lengthX = .ok (n, taken))
    (hnext : MovesFrom (p + taken + n) (sub64 (sub64 lengthX taken) n)
      (next (p + taken) n (sub64 (sub64 lengthX taken) n))) :
    MovesFrom p lengthX (lengthMoves lib buf p lengthX next) := by
  rw [lengthMoves_eq h]
  exact ⟨rfl, rfl, rfl, rfl, hnext⟩

theorem scanDiffs_moves {fuel lengthX : Nat} {acc text : List UInt8}
    (h : scanDiffs lib buf fuel p lengthX acc = .ok text) :
    MovesFrom p lengthX (diffMoves lib buf fuel p lengthX) := by
  induction fuel generalizing p lengthX acc with
  | zero =>
    unfold scanDiffs at h
    split at h
    · assumption
    · cases h
  | succ fuel ih =>
    unfold scanDiffs at h
    unfold diffMoves
    split at h
    · rw [if_pos ‹_›]
      assumption
    rw [if_neg ‹_›]
    obtain ⟨byte, hbyte, h⟩ := bind_eq_ok.mp h
    rw [takeAt_eq_ok hbyte, Option.getD_some]
    refine ⟨rfl, rfl, ?_⟩
    cases hop : JsonDiffOperation.ofByte (byte.headD 0) with
    | none =>
      rw [hop] at h
      cases h
    | some operation =>
      rw [hop] at h
      obtain ⟨⟨pathLength, taken⟩, hpath, h⟩ := bind_eq_ok.mp h
      obtain ⟨path, -, h⟩ := bind_eq_ok.mp h
      refine lengthMoves_from hpath ?_
      dsimp only at h ⊢
      split at h
      · rw [if_pos ‹_›]
        obtain ⟨⟨valueLength, taken'⟩, hvalue, h⟩ := bind_eq_ok.mp h
        obtain ⟨doc, hdoc, h⟩ := bind_eq_ok.mp h
        refine lengthMoves_from hvalue ?_
        rw [scanDoc_eq_ok hdoc]
        exact ih h
      · rw [if_neg ‹_›]
        exact ih h

/-- The cursor and `length_x` of a loop that returns go as its moves say. -/
theorem diffLoop_moves {fuel lengthX : Nat} {acc text : List UInt8} {s s' : CellState}
    (h : (diffLoop lib os buf fuel p lengthX acc).run s = .ok text s') :
    MovesFrom p lengthX (diffMoves lib buf fuel p lengthX) := by
  obtain ⟨_, hscan, -⟩ := diffLoop_follows.ok h
  exact scanDiffs_moves hscan

section

variable {buf' : List UInt8}

theorem scanInt_of_move (hlib : lib.LenencLocal) {lengthX n taken : Nat}
    (h : scanInt lib buf p lengthX = .ok (n, taken))
    (hsame : slice? buf' p taken = slice? buf p taken) :
    scanInt lib buf' p lengthX = .ok (n, taken) := by
  obtain ⟨hpos, hmax, havail, hlocal⟩ := hlib _ _ _ _ (scanInt_eq_ok h)
  rw [List.length_drop] at havail
  obtain ⟨htake, -⟩ := slice?_take (hsame.trans (slice?_of_le (by omega)))
  have hint := hlocal ((buf'.drop p).drop taken) lengthX hmax
  rw [← htake, List.take_append_drop] at hint
  unfold scanInt
  rw [hint]

theorem scanDoc_of_move (hlib : lib.ReadsWithin) {n : Nat} {text : List UInt8}
    (h : scanDoc lib buf p n = .ok text) (hin : p + n ≤ buf.length)
    (hsame : slice? buf' p n = slice? buf p n) : scanDoc lib buf' p n = .ok text := by
  obtain ⟨htake, hle⟩ := slice?_take (hsame.trans (slice?_of_le hin))
  have hdoc := scanDoc_eq_ok h
  rw [(hlib.parse_take _ _ (by rw [List.length_drop]; omega)).2, ← htake,
    ← (hlib.parse_take _ _ hle).2] at hdoc
  unfold scanDoc
  rw [hdoc]

theorem takeAt_of_move {n : Nat} (h : takeAt buf p n = .ok bs)
    (hsame : slice? buf' p n = slice? buf p n) : takeAt buf' p n = .ok bs := by
  unfold takeAt at h ⊢
  rwa [hsame]

theorem scanDiffs_of_moves (hlib : lib.ReadsWithin) {fuel lengthX : Nat} {acc text : List UInt8}
    (h : scanDiffs lib buf fuel p lengthX acc = .ok text)
    (hsame : ∀ m ∈ diffMoves lib buf fuel p lengthX,
      m.p + m.n ≤ buf.length ∧ slice? buf' m.p m.n = slice? buf m.p m.n) :
    scanDiffs lib buf' fuel p lengthX acc = .ok text := by
  induction fuel generalizing p lengthX acc with
  | zero => exact h
  | succ fuel ih =>
    unfold scanDiffs at h ⊢
    unfold diffMoves at hsame
    split at h
    · rw [if_pos ‹_›]
      exact h
    rw [if_neg ‹_›]
    rw [if_neg ‹_›, List.forall_mem_cons] at hsame
    obtain ⟨byte, hbyte, h⟩ := bind_eq_ok.mp h
    refine bind_eq_ok.mpr ⟨byte, takeAt_of_move hbyte hsame.1.2, ?_⟩
    replace hsame := hsame.2
    rw [takeAt_eq_ok hbyte, Option.getD_some] at hsame
    cases hop : JsonDiffOperation.ofByte (byte.headD 0) with
    | none =>
      rw [hop] at h
      cases h
    | some operation =>
      rw [hop] at h hsame
      obtain ⟨⟨pathLength, taken⟩, hpath, h⟩ := bind_eq_ok.mp h
      dsimp only at hsame
      rw [lengthMoves_eq hpath, List.forall_mem_cons, List.forall_mem_cons] at hsame
      obtain ⟨hint, hbytes, hsame⟩ := hsame
      obtain ⟨path, htake, h⟩ := bind_eq_ok.mp h
      refine bind_eq_ok.mpr ⟨_, scanInt_of_move hlib.lenenc hpath hint.2,
        bind_eq_ok.mpr ⟨path, takeAt_of_move htake hbytes.2, ?_⟩⟩
      dsimp only at h hsame ⊢
      split at h
      · rw [if_pos ‹_›] at hsame ⊢
        obtain ⟨⟨valueLength, taken'⟩, hvalue, h⟩ := bind_eq_ok.mp h
        rw [lengthMoves_eq hvalue, List.forall_mem_cons, List.forall_mem_cons] at hsame
        obtain ⟨hint, hbytes, hsame⟩ := hsame
        obtain ⟨doc, hdoc, h⟩ := bind_eq_ok.mp h
        refine bind_eq_ok.mpr ⟨_, scanInt_of_move hlib.lenenc hvalue hint.2,
          bind_eq_ok.mpr ⟨doc, scanDoc_of_move hlib hdoc hbytes.1 hbytes.2, ?_⟩⟩
        rw [scanDoc_eq_ok hdoc] at hsame
        exact ih h hsame
      · rw [if_neg ‹_›] at hsame ⊢
        exact ih h hsame

/-- The loop gives the same text over every event with the same bytes at its moves. -/
theorem diffLoop_of_moves (hlib : lib.ReadsWithin) {fuel lengthX : Nat} {acc text : List UInt8}
    {s s' : CellState} (h : (diffLoop lib os buf fuel p lengthX acc).run s = .ok text s')
    (hsame : ∀ m ∈ diffMoves lib buf fuel p lengthX,
      m.p + m.n ≤ buf.length ∧ slice? buf' m.p m.n = slice? buf m.p m.n)
    {os' : Allocator} (hos : os'.Succeeds) (t : CellState) :
    ∃ t', (diffLoop lib os' buf' fuel p lengthX acc).run t = .ok text t' := by
  obtain ⟨_, hscan, rfl, -⟩ := diffLoop_follows.ok h
  have hf := @diffLoop_follows lib os' buf' t fuel p lengthX acc
  rw [scanDiffs_of_moves hlib hscan hsame] at hf
  obtain ⟨a, t', hrun, rfl, -⟩ := hf.reaches fun _ _ _ hsp => hsp.2 hos
  exact ⟨t', hrun⟩

end

-- ---------------------------------------------------------------------------
-- The library on a payload
-- ---------------------------------------------------------------------------

theorem sub64_of_le {lengthX n : Nat} (hn : n ≤ lengthX) (hlt : lengthX < 2 ^ 64) :
    sub64 lengthX n = lengthX - n := by
  unfold sub64 sizeT
  omega

theorem Library.ReadsWithin.lenenc_ahead (hlib : lib.ReadsWithin) (h : Ahead buf p (bs ++ rest)) :
    lib.netFieldLengthChecked bs bs.length ≠ .outside ∧
      lib.netFieldLengthChecked (buf.drop p) bs.length = lib.netFieldLengthChecked bs bs.length := by
  have hall := hlib.lenenc_take (buf.drop p) bs.length (by rw [h.2]; simp)
  have hown := hlib.lenenc_take bs bs.length le_rfl
  rw [h.2, List.take_left] at hall
  rw [h.2]
  exact ⟨hown.1, hall.2⟩

theorem Library.ReadsWithin.parse_ahead (hlib : lib.ReadsWithin) (h : Ahead buf p (bs ++ rest))
    {n : Nat} (hn : n ≤ bs.length) :
    lib.parseBinary bs n ≠ .outside ∧ lib.parseBinary (buf.drop p) n = lib.parseBinary bs n := by
  have hall := hlib.parse_take (buf.drop p) n (by rw [h.2, List.length_append]; omega)
  have hown := hlib.parse_take bs n hn
  rw [h.2, List.take_append_of_le_length hn, ← hown.2] at hall
  rw [h.2]
  exact ⟨hown.1, hall.2⟩

-- ---------------------------------------------------------------------------
-- The moves stay in the payload
-- ---------------------------------------------------------------------------

theorem lengthMoves_within_iff (hlib : lib.ReadsWithin) (hlt : buf.length < 2 ^ 32)
    (h : Ahead buf p (bs ++ rest)) {stop : Nat} (hstop : p + bs.length = stop)
    {next : (p n lengthX : Nat) → List DiffMove} {K : (taken n : Nat) → Prop}
    (hnext : ∀ n taken, taken + n ≤ bs.length →
      ((∀ m ∈ next (p + taken) n (bs.length - (taken + n)), m.Within stop) ↔ K taken n)) :
    (∀ m ∈ lengthMoves lib buf p bs.length next, m.Within stop) ↔ LengthBounded lib bs K := by
  obtain ⟨hin, hnet⟩ := hlib.lenenc_ahead h
  have hlen := h.length_eq
  rw [List.length_append] at hlen
  unfold lengthMoves LengthBounded
  rw [hnet]
  cases hint : lib.netFieldLengthChecked bs bs.length with
  | failed => simp
  | outside => exact absurd hint hin
  | value n taken =>
    obtain ⟨-, htaken, -⟩ := hlib.lenenc _ _ _ _ hint
    have hleft : sub64 bs.length taken = bs.length - taken := sub64_of_le htaken (by omega)
    simp only [List.forall_mem_cons, hleft]
    have hfirst : DiffMove.Within stop ⟨p, taken, bs.length⟩ := ⟨by simp only; omega, htaken⟩
    have hsecond : DiffMove.Within stop ⟨p + taken, n, bs.length - taken⟩ ↔ taken + n ≤ bs.length := by
      unfold DiffMove.Within
      simp only
      omega
    rw [and_iff_right hfirst, hsecond]
    constructor
    · rintro ⟨hle, hrest⟩ n' taken' heq
      cases heq
      rw [sub64_of_le (by omega) (by omega), Nat.sub_sub, hnext n taken hle] at hrest
      exact ⟨hle, hrest⟩
    · intro hbounded
      obtain ⟨hle, hk⟩ := hbounded n taken rfl
      rw [sub64_of_le (by omega) (by omega), Nat.sub_sub, hnext n taken hle]
      exact ⟨hle, hk⟩

theorem diffMoves_within_iff (hlib : lib.ReadsWithin) (hlt : buf.length < 2 ^ 32) {fuel stop : Nat}
    (h : Ahead buf p (bs ++ rest)) (hstop : p + bs.length = stop) :
    (∀ m ∈ diffMoves lib buf fuel p bs.length, m.Within stop) ↔ DiffsBounded lib fuel bs := by
  induction fuel generalizing p bs with
  | zero => cases bs <;> simp [diffMoves, DiffsBounded]
  | succ fuel ih =>
    cases bs with
    | nil => simp [diffMoves, DiffsBounded]
    | cons b bs =>
      have hlen := h.length_eq
      have htail : Ahead buf (p + 1) (bs ++ rest) := h.drop (k := 1) (by simp)
      have hbyte : slice? buf p 1 = some [b] := Ahead.head h
      simp only [List.length_append, List.length_cons] at hlen hstop
      have hsub : sub64 (bs.length + 1) 1 = bs.length := sub64_of_le (by omega) (by omega)
      have hfirst : DiffMove.Within stop ⟨p, 1, bs.length + 1⟩ := ⟨by simp only; omega, by simp⟩
      unfold diffMoves DiffsBounded
      rw [List.length_cons, if_neg (Nat.succ_ne_zero _), hbyte, List.forall_mem_cons,
        and_iff_right hfirst]
      simp only [Option.getD_some, List.headD_cons, hsub]
      cases JsonDiffOperation.ofByte b with
      | none => simp
      | some operation =>
        simp only [Option.some.injEq, forall_eq']
        refine lengthMoves_within_iff hlib hlt htail (by omega) fun n taken hle => ?_
        have hpath := htail.drop hle
        rw [← Nat.add_assoc] at hpath
        rw [← List.length_drop]
        split
        case isTrue =>
          refine lengthMoves_within_iff hlib hlt hpath (by rw [List.length_drop]; omega)
            fun n' taken' hle' => ?_
          have hdoc := hpath.drop (show taken' ≤ _ by omega)
          have hvalue := hpath.drop hle'
          rw [← Nat.add_assoc] at hvalue
          rw [(hlib.parse_ahead hdoc (by rw [List.length_drop]; omega)).2, ← List.length_drop]
          cases lib.parseBinary ((bs.drop (taken + n)).drop taken') n' with
          | value text =>
            simp only [JsonDoc.value.injEq, forall_eq']
            exact ih hvalue (by simp only [List.length_drop] at hle' ⊢; omega)
          | _ => simp
        case isFalse => exact ih hpath (by rw [List.length_drop]; omega)

-- ---------------------------------------------------------------------------
-- The loop ends well or is rejected
-- ---------------------------------------------------------------------------

theorem LengthBounded.mono {K K' : (taken n : Nat) → Prop} (h : LengthBounded lib bs K)
    (hk : ∀ taken n, taken + n ≤ bs.length → K taken n → K' taken n) : LengthBounded lib bs K' :=
  fun n taken hint => ⟨(h n taken hint).1, hk taken n (h n taken hint).1 (h n taken hint).2⟩

theorem DiffsBounded.of_length {k fuel : Nat} (h : DiffsBounded lib k bs) (hk : bs.length ≤ k) :
    DiffsBounded lib fuel bs := by
  induction fuel generalizing k bs with
  | zero => cases bs <;> trivial
  | succ fuel ih =>
    cases bs with
    | nil => trivial
    | cons b bs =>
      obtain ⟨k, rfl⟩ : ∃ j, k = j + 1 := ⟨k - 1, by simp at hk; omega⟩
      rw [List.length_cons] at hk
      intro operation hop
      refine (h operation hop).mono fun taken n hle hrest => ?_
      simp only at hrest ⊢
      split
      case isTrue hne =>
        rw [if_pos hne] at hrest
        refine hrest.mono fun taken' n' hle' hvalue text htext => ?_
        exact ih (hvalue text htext) (by simp only [List.length_drop]; omega)
      case isFalse hrem =>
        rw [if_neg hrem] at hrest
        exact ih hrest (by rw [List.length_drop]; omega)

theorem diffsBytes_cons (d : JsonDiff) (ds : List JsonDiff) :
    diffsBytes (d :: ds) =
      d.operation.byte :: (d.pathPrefix ++ (d.path ++ (d.valueBytes ++ diffsBytes ds))) := by
  simp [diffsBytes, JsonDiff.bytes]

theorem split_announced (bs : List UInt8) (taken n : Nat) :
    bs = bs.take taken ++ ((bs.drop taken).take n ++ bs.drop (taken + n)) := by
  rw [← List.drop_drop, List.take_append_drop, List.take_append_drop]

theorem Library.ReadsWithin.parsesTo (hlib : lib.ReadsWithin) {n : Nat} {text : List UInt8}
    (hn : n ≤ bs.length) (h : lib.parseBinary bs n = .value text) : ParsesTo lib (bs.take n) text := by
  intro rest
  have hlen := List.length_take_of_le hn
  rw [(hlib.parse_take _ _ (by rw [List.length_append]; omega)).2, List.take_left, hlen,
    ← (hlib.parse_take bs n hn).2, h]

theorem JsonDiffOperation.byte_of_ofByte {b : UInt8} {operation : JsonDiffOperation}
    (h : ofByte b = some operation) : operation.byte = b := by
  unfold ofByte at h
  apply UInt8.toNat_inj.mp
  split at h
  case h_1 hb => cases h; exact hb.symm
  case h_2 hb => cases h; exact hb.symm
  case h_3 hb => cases h; exact hb.symm
  case h_4 => cases h

theorem takeAt_of_le {n : Nat} (h : Ahead buf p (bs ++ rest)) (hn : n ≤ bs.length) :
    takeAt buf p n = .ok (bs.take n) := by
  rw [← List.take_append_drop n bs, List.append_assoc] at h
  have htake := takeAt_of_ahead h
  rwa [List.length_take_of_le hn] at htake

theorem scanDoc_of_le (hlib : lib.ReadsWithin) {n : Nat} (h : Ahead buf p (bs ++ rest))
    (hn : n ≤ bs.length) :
    scanDoc lib buf p n = .error .rejected ∨
      ∃ text, lib.parseBinary bs n = .value text ∧ scanDoc lib buf p n = .ok text := by
  obtain ⟨hin, hparse⟩ := hlib.parse_ahead h hn
  unfold scanDoc
  rw [hparse]
  cases hdoc : lib.parseBinary bs n with
  | outside => exact absurd hdoc hin
  | value text => exact .inr ⟨text, rfl, rfl⟩
  | _ => exact .inl rfl

theorem scanInt_bounded (hlib : lib.ReadsWithin) (hlt : buf.length < 2 ^ 32)
    {K : (taken n : Nat) → Prop} (hb : LengthBounded lib bs K) (h : Ahead buf p (bs ++ rest)) :
    scanInt lib buf p bs.length = .error .rejected ∨
      ∃ n taken, scanInt lib buf p bs.length = .ok (n, taken) ∧ taken + n ≤ bs.length ∧
        EncodesInt lib (bs.take taken) n ∧ K taken n ∧
        sub64 (sub64 bs.length taken) n = (bs.drop (taken + n)).length ∧
        Ahead buf (p + taken) (bs.drop taken ++ rest) ∧
        Ahead buf (p + taken + n) (bs.drop (taken + n) ++ rest) := by
  obtain ⟨hin, hnet⟩ := hlib.lenenc_ahead h
  have hlen := h.length_eq
  rw [List.length_append] at hlen
  unfold scanInt
  rw [hnet]
  cases hint : lib.netFieldLengthChecked bs bs.length with
  | failed => exact .inl rfl
  | outside => exact absurd hint hin
  | value n taken =>
    obtain ⟨hle, hk⟩ := hb n taken hint
    have hrest := h.drop hle
    rw [← Nat.add_assoc] at hrest
    refine .inr ⟨n, taken, rfl, hle, (hlib.lenenc.encodesInt hint).1, hk, ?_, h.drop (by omega), hrest⟩
    have hfirst : sub64 bs.length taken = bs.length - taken := sub64_of_le (by omega) (by omega)
    rw [hfirst, sub64_of_le (by omega) (by omega), List.length_drop]
    omega

/-- The outcome of the walk over a payload that is bounded. -/
theorem scanDiffs_of_bounded (hlib : lib.ReadsWithin) (hlt : buf.length < 2 ^ 32) {k fuel : Nat}
    (hb : DiffsBounded lib k bs) (hk : bs.length ≤ k) (hfuel : bs.length ≤ fuel)
    (h : Ahead buf p (bs ++ rest)) :
    (∃ ds : List JsonDiff, (∀ d ∈ ds, d.Valid lib) ∧ bs = diffsBytes ds) ∨
      ∀ acc, scanDiffs lib buf fuel p bs.length acc = .error .rejected := by
  induction k generalizing fuel p bs with
  | zero =>
    obtain rfl : bs = [] := List.length_eq_zero_iff.mp (Nat.le_zero.mp hk)
    exact .inl ⟨[], by simp, rfl⟩
  | succ k ih =>
    cases bs with
    | nil => exact .inl ⟨[], by simp, rfl⟩
    | cons b bs =>
      obtain ⟨fuel, rfl⟩ : ∃ j, fuel = j + 1 := ⟨fuel - 1, by simp at hfuel; omega⟩
      have hlen := h.length_eq
      have htail : Ahead buf (p + 1) (bs ++ rest) := h.drop (k := 1) (by simp)
      have hbyte : takeAt buf p 1 = .ok [b] := by rw [takeAt, Ahead.head h]
      simp only [List.length_append, List.length_cons] at hlen hk hfuel
      have hsub : sub64 (bs.length + 1) 1 = bs.length := sub64_of_le (by omega) (by omega)
      rw [List.length_cons]
      unfold scanDiffs
      rw [hbyte]
      simp only [Nat.succ_ne_zero, if_false, ok_bind, List.headD_cons, hsub]
      cases hop : JsonDiffOperation.ofByte b with
      | none => exact .inr fun acc => rfl
      | some operation =>
        obtain rfl := JsonDiffOperation.byte_of_ofByte hop
        rcases scanInt_bounded hlib hlt (hb operation hop) htail with hrej |
          ⟨n, taken, hint, hle, henc, hrest, hleft, hpath, hahead⟩
        · exact .inr fun acc => by rw [hrej]; rfl
        have hbytes : takeAt buf (p + 1 + taken) n = .ok ((bs.drop taken).take n) :=
          takeAt_of_le hpath (by rw [List.length_drop]; omega)
        have hplen : ((bs.drop taken).take n).length = n :=
          List.length_take_of_le (by rw [List.length_drop]; omega)
        have hsplit := split_announced bs taken n
        have hrestlen : (bs.drop (taken + n)).length ≤ bs.length := by simp
        generalize bs.drop (taken + n) = bs' at hrest hleft hahead hsplit hrestlen
        generalize hp' : (bs.drop taken).take n = path at hbytes hplen hsplit
        simp only [hint, ok_bind, hleft, hbytes]
        by_cases hne : operation ≠ .remove
        · rw [if_pos hne] at hrest
          simp only [if_pos hne]
          rcases scanInt_bounded hlib hlt hrest hahead with hrej |
            ⟨m, taken', hint', hle', henc', hvalue, hleft', hdocAhead, hahead'⟩
          · exact .inr fun acc => by rw [hrej]; rfl
          have hm : m ≤ (bs'.drop taken').length := by rw [List.length_drop]; omega
          rcases scanDoc_of_le hlib hdocAhead hm with hrej | ⟨text, htext, hdoc⟩
          · exact .inr fun acc => by rw [hint', ok_bind, hrej]; rfl
          have hsplit' := split_announced bs' taken' m
          have hrestlen' : (bs'.drop (taken' + m)).length ≤ bs'.length := by simp
          simp only [hint', ok_bind, hleft', hdoc]
          rcases ih (hvalue text htext) (by omega) (show _ ≤ fuel by omega) hahead' with ⟨ds, hds, hds'⟩ | hrej
          · let d : JsonDiff := ⟨operation, bs.take taken, path, bs'.take taken', (bs'.drop taken').take m, text⟩
            have hd : d.Valid lib := by
              refine ⟨by rw [hplen]; exact henc, fun _ => ⟨?_, hlib.parsesTo hm htext⟩⟩
              rw [List.length_take_of_le hm]
              exact henc'
            refine .inl ⟨d :: ds, List.forall_mem_cons.mpr ⟨hd, hds⟩, ?_⟩
            have hvalueBytes : d.valueBytes = bs'.take taken' ++ (bs'.drop taken').take m := if_neg hne
            rw [diffsBytes_cons, hvalueBytes, ← hds', List.append_assoc, ← hsplit', ← hsplit]
          · exact .inr fun acc => hrej _
        · rw [if_neg hne] at hrest
          simp only [if_neg hne]
          rcases ih hrest (by omega) (show _ ≤ fuel by omega) hahead with ⟨ds, hds, hds'⟩ | hrej
          · let d : JsonDiff := ⟨operation, bs.take taken, path, [], [], []⟩
            have hd : d.Valid lib := ⟨by rw [hplen]; exact henc, fun h => absurd h hne⟩
            refine .inl ⟨d :: ds, List.forall_mem_cons.mpr ⟨hd, hds⟩, ?_⟩
            have hvalueBytes : d.valueBytes = [] := if_pos (not_not.mp hne)
            rw [diffsBytes_cons, hvalueBytes, ← hds', List.nil_append, ← hsplit]
          · exact .inr fun acc => hrej _

-- ---------------------------------------------------------------------------
-- The payload
-- ---------------------------------------------------------------------------

namespace DiffsPayload

variable (lib) (f : DiffsPayload)

def Reads (ds : List JsonDiff) : Prop := (∀ d ∈ ds, d.Valid lib) ∧ f.payload = diffsBytes ds

/-- `partialJson` with a bound on the turns of its loop. -/
def display (os : Allocator) (fuel : Nat) : CellM Unit := do
  let text ← diffLoop lib os f.ev.mRowsBuf fuel f.ptr f.payload.length []
  jsonText os text "can not allocate mem for value MYSQL_TYPE_JSON PARTIAL_JSON UPDATE"

theorem partialJson_eq (os : Allocator) :
    partialJson lib os f.ev.mRowsBuf f.ptr f.payload.length = f.display lib os f.ev.mRowsBuf.length := rfl

/-- The diffs are accepted, and nothing else, in as many turns as the payload
has bytes. A loop that is stopped by the bound on its turns ends in `overread`. -/
structure Exact : Prop where
  moves : ∀ fuel, ∀ m ∈ diffMoves lib f.ev.mRowsBuf fuel f.ptr f.payload.length,
    m.Within (f.ptr + f.payload.length)
  sound : ∀ os fuel s, f.payload.length ≤ fuel → Triple (f.display lib os fuel) s
    (fun _ s' => ∃ ds, f.Reads lib ds ∧
      ∃ id bs, s'.cell.val = .block id bs ∧ Holds bs (diffsText ds))
    fun e _ => ∃ desc, e = .error desc
  complete : ∀ os fuel s ds, f.payload.length ≤ fuel → os.Succeeds → f.Reads lib ds →
    ∃ s', (f.display lib os fuel).run s = .ok () s'

variable {lib f}

theorem Reads.scan {ds : List JsonDiff} (h : f.Reads lib ds) {fuel : Nat}
    (hfuel : f.payload.length ≤ fuel) :
    scanDiffs lib f.ev.mRowsBuf fuel f.ptr f.payload.length [] = .ok (diffsText ds) := by
  have hlen : ds.length ≤ f.payload.length := by
    rw [h.2]
    exact length_le_flatMap fun d _ => d.bytes_ne_nil
  have hahead := f.ahead
  rw [h.2] at hahead ⊢
  exact scanDiffs_of_ahead h.1 f.ev.size_lt (by omega) hahead

theorem display_follows (os : Allocator) (fuel : Nat) (s : CellState) :
    Follows (rowsHalts os) (f.display lib os fuel) s
      (do
        let text ← scanDiffs lib f.ev.mRowsBuf fuel f.ptr f.payload.length []
        pure (Rendered.ofText (cstr text) (some false)))
      fun _ s' r => r.Applied s.cell s'.cell := by
  refine Follows.bind diffLoop_follows ?_
  rintro text s' _ ⟨rfl, hs⟩
  exact jsonText_follows hs

theorem exact_of_bounded (hlib : lib.ReadsWithin)
    (hb : DiffsBounded lib f.payload.length f.payload)
    (hz : ∀ ds, f.Reads lib ds → (0 : UInt8) ∉ diffsText ds) : f.Exact lib where
  moves fuel := (diffMoves_within_iff hlib f.ev.size_lt f.ahead rfl).mpr (hb.of_length le_rfl)
  sound os fuel s hfuel := by
    have hf := @display_follows lib f os fuel s
    unfold Triple
    cases hrun : (f.display lib os fuel).run s with
    | ok a s' =>
      obtain ⟨r, hr, happ⟩ := hf.ok hrun
      rcases scanDiffs_of_bounded hlib f.ev.size_lt hb le_rfl hfuel f.ahead with ⟨ds, hds⟩ | hrej
      · have hreads : f.Reads lib ds := hds
        rw [hreads.scan hfuel] at hr
        cases hr
        obtain ⟨id, tail, hcell⟩ := happ
        have htext := hz ds hreads
        rw [cstr_of_ne_zero htext] at hcell
        exact ⟨ds, hreads, id, _, congrArg ReplLogXValue.val hcell, htext, tail, rfl⟩
      · rw [hrej] at hr
        cases hr
    | error e s' =>
      have hverdict : e.verdict = .rejected := by
        rcases hf.error hrun with ⟨hsp, -⟩ | ⟨v, hv, he⟩
        · exact hsp
        · rcases scanDiffs_of_bounded hlib f.ev.size_lt hb le_rfl hfuel f.ahead with ⟨ds, hds⟩ | hrej
          · rw [Reads.scan hds hfuel] at hv
            cases hv
          · rw [hrej] at hv
            cases hv
            exact he
      cases e with
      | error desc => exact ⟨desc, rfl⟩
      | _ => cases hverdict
  complete os fuel s ds hfuel hos hreads := by
    have hf := @display_follows lib f os fuel s
    rw [hreads.scan hfuel] at hf
    obtain ⟨a, s', hrun, -⟩ := hf.reaches fun _ _ _ hsp => hsp.2 hos
    exact ⟨s', hrun⟩

/-- The loop accepts the concatenations of diffs and nothing else, exactly when
the announced lengths are bounded and no text has a zero byte. -/
theorem exact_iff (hlib : lib.ReadsWithin) :
    f.Exact lib ↔ DiffsBounded lib f.payload.length f.payload ∧
      ∀ ds, f.Reads lib ds → (0 : UInt8) ∉ diffsText ds := by
  constructor
  · intro h
    refine ⟨(diffMoves_within_iff hlib f.ev.size_lt f.ahead rfl).mp (h.moves _), ?_⟩
    intro ds hreads
    obtain ⟨os, hos⟩ := Allocator.exists_succeeds
    obtain ⟨s', hrun⟩ := h.complete os f.payload.length ⟨{}, .zero⟩ ds le_rfl hos hreads
    obtain ⟨ds', hreads', id, bs, -, hholds⟩ := (h.sound os _ _ le_rfl).ok hrun
    have hsame := (hreads.scan le_rfl).symm.trans (hreads'.scan le_rfl)
    rw [Except.ok.inj hsame]
    exact hholds.1
  · rintro ⟨hb, hz⟩
    exact exact_of_bounded hlib hb hz

end DiffsPayload

-- ---------------------------------------------------------------------------
-- Sample payloads
-- ---------------------------------------------------------------------------

instance (stop : Nat) (m : DiffMove) : Decidable (m.Within stop) := inferInstanceAs (Decidable (_ ∧ _))

/-- The library, which reads no length where none is left. -/
def diffLibrary : Library :=
  { sampleLibrary with
    netFieldLengthChecked := fun avail maxLength =>
      if maxLength = 0 then .failed else sampleLibrary.netFieldLengthChecked avail maxLength }

theorem diffLibrary_lenenc {avail : List UInt8} {maxLength : Nat} (h : maxLength ≠ 0) :
    diffLibrary.netFieldLengthChecked avail maxLength =
      sampleLibrary.netFieldLengthChecked avail maxLength := if_neg h

theorem diffLibrary_readsWithin : diffLibrary.ReadsWithin where
  lenenc := by
    intro avail maxLength v taken h
    by_cases h0 : maxLength = 0
    · subst h0
      cases h
    · rw [diffLibrary_lenenc h0] at h
      obtain ⟨hpos, hmax, havail, hlocal⟩ := sampleLibrary_lenencLocal _ _ _ _ h
      refine ⟨hpos, hmax, havail, fun rest maxLength' h1 => ?_⟩
      rw [diffLibrary_lenenc (by omega)]
      exact hlocal rest maxLength' h1
  lenenc_take := by
    intro avail maxLength hle
    by_cases h0 : maxLength = 0
    · subst h0
      exact ⟨by simp [diffLibrary], rfl⟩
    · obtain ⟨k, rfl⟩ : ∃ k, maxLength = k + 1 := ⟨maxLength - 1, by omega⟩
      rw [diffLibrary_lenenc h0, diffLibrary_lenenc h0]
      cases avail with
      | nil => cases hle
      | cons b bs =>
        simp only [sampleLibrary, List.take_succ_cons, and_true]
        split <;> simp
  parse_take := by
    intro avail length _
    simp only [diffLibrary, sampleLibrary, List.take_take, min_self, and_true]
    split <;> simp

def wholePayload (payload : List UInt8) (hlt : payload.length < 2 ^ 32) : DiffsPayload where
  ev :=
    { typeCode := .partialUpdateRows, when := 0, tableId := 1, ndbLength := none
      mCols := [], mColsAi := [], mRowsBuf := payload, size_lt := hlt }
  ptr := 0
  payload := payload
  rest := []
  ahead := by simpa using Ahead.start payload

theorem replacePayload_lt : (diffsBytes [sampleDiff]).length < 2 ^ 32 := by decide

def replacePayload : DiffsPayload := wholePayload (diffsBytes [sampleDiff]) replacePayload_lt

theorem longPathPayload_lt : ([0, 5, 97] : List UInt8).length < 2 ^ 32 := by decide

/-- A `REPLACE` whose path has one byte and announces five. -/
def longPathPayload : DiffsPayload := wholePayload [0, 5, 97] longPathPayload_lt

theorem exact_iff_sample : replacePayload.Exact diffLibrary := by
  refine (DiffsPayload.exact_iff diffLibrary_readsWithin).mpr ⟨?_, fun ds hds => ?_⟩
  · refine (diffMoves_within_iff diffLibrary_readsWithin replacePayload_lt replacePayload.ahead rfl).mp ?_
    decide +kernel
  · have htext : scanDiffs diffLibrary (diffsBytes [sampleDiff]) 9 0 9 [] =
        .ok (ascii "REPLACE$.a:8") := by decide +kernel
    have hsame := htext.symm.trans (hds.scan (show _ ≤ 9 from le_rfl))
    rw [← Except.ok.inj hsame]
    decide

/-- The path is read past the end of the payload, which is that of the event. -/
theorem longPathPayload_not_exact : ¬ longPathPayload.Exact diffLibrary := by
  intro h
  have hrun : halted ((longPathPayload.display diffLibrary sampleAllocator 3).run ⟨{}, .zero⟩) =
      some .overread := by decide +kernel
  obtain ⟨s', hrun⟩ := exists_of_halted hrun
  obtain ⟨desc, hdesc⟩ := (h.sound sampleAllocator 3 _ le_rfl).error hrun
  cases hdesc

end RplListener
