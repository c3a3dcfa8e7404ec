import RplListener.Listener.Delivered

/-!
# Complete transactions

A stream of complete transactions, opened by `BEGIN` or `XA START` and closed by
one of the ends the listener knows. What should be told of a transaction is its
watched rows between a `START` and a `COMMIT`; the listener compares the text of
an opening query as a whole, so that an `XA START` with its identifier opens
nothing.
-/

namespace RplListener

open Bytes Refine

variable {lib : Library} {os : Allocator} {needStop : Nat → Bool} {w w' : World}
variable {pairs : List (List UInt8 × List UInt8)} {s : StreamState} {x : Handled} {xs : List Handled}

-- ---------------------------------------------------------------------------
-- Transactions
-- ---------------------------------------------------------------------------

inductive Opening where
  | begin (when : Nat)
  | xaStart (when : Nat) (xid : List UInt8)

def Opening.handled : Opening → Handled
  | .begin when => .event (.query when (ascii "BEGIN"))
  | .xaStart when xid => .event (.query when (ascii "XA START " ++ xid))

def Opening.isXa : Opening → Bool
  | .begin _ => false
  | .xaStart .. => true

inductive Closing where
  | xid (when : Nat)
  | commit (when : Nat)
  | xaPrepare (when : Nat)

def Closing.handled : Closing → Handled
  | .xid when => .event (.xid when)
  | .commit when => .event (.query when (ascii "COMMIT"))
  | .xaPrepare when => .event (.xaPrepareLog when)

/-- Neither an opening nor an end of a transaction. -/
def Handled.Inner : Handled → Prop
  | .event (.query _ query) =>
    cstr query ≠ ascii "BEGIN" ∧ cstr query ≠ ascii "COMMIT" ∧ ¬ ascii "XA START" <+: cstr query
  | .event (.xid _) | .event (.xaPrepareLog _) => False
  | _ => True

structure Transaction where
  opening : Opening
  body : List Handled
  closing : Closing
  inner : ∀ x ∈ body, x.Inner

namespace Transaction

def handled (t : Transaction) : List Handled := t.opening.handled :: t.body ++ [t.closing.handled]

def rows (pairs : List (List UInt8 × List UInt8)) (s : StreamState) (t : Transaction) :
    List (RowsLogEvent2 × TableMapLogEvent) := watchedRows pairs s t.body

end Transaction

def rowItems (rows : List (RowsLogEvent2 × TableMapLogEvent)) : List Item :=
  rows.map fun d => .row d.1 d.2

/-- What is to be told of a transaction with these rows. -/
def bracketed (rows : List (RowsLogEvent2 × TableMapLogEvent)) : List Item :=
  if rows = [] then [] else .start :: rowItems rows ++ [.commit]

def bracketedAll (pairs : List (List UInt8 × List UInt8)) : StreamState → List Transaction → List Item
  | _, [] => []
  | s, t :: ts => bracketed (t.rows pairs s) ++ bracketedAll pairs ((stream pairs).after s t.handled) ts

/-- No transaction that `XA START` opens has a watched row. -/
def XaQuiet (pairs : List (List UInt8 × List UInt8)) : StreamState → List Transaction → Prop
  | _, [] => True
  | s, t :: ts =>
    (t.opening.isXa = true → t.rows pairs s = []) ∧ XaQuiet pairs ((stream pairs).after s t.handled) ts

-- ---------------------------------------------------------------------------
-- The stream on a transaction
-- ---------------------------------------------------------------------------

theorem Handled.Inner.query {when : Nat} {query : List UInt8}
    (h : (Handled.event (.query when query)).Inner) :
    ¬ opensTransaction query ∧ ¬ closesTransaction query := by
  obtain ⟨hbegin, hcommit, hxa⟩ := h
  refine ⟨?_, hcommit⟩
  rintro (h | h)
  · exact hbegin h
  · exact hxa (h ▸ List.prefix_rfl)

theorem Opening.xaStart_query (xid : List UInt8) :
    ¬ opensTransaction (ascii "XA START " ++ xid) ∧ ¬ closesTransaction (ascii "XA START " ++ xid) := by
  have htext : cstr (ascii "XA START " ++ xid) = ascii "XA START " ++ cstr xid :=
    List.takeWhile_append_of_pos (by decide +kernel)
  have hhead (b : UInt8) (bs : List UInt8) (hb : b ≠ 88) :
      ascii "XA START " ++ cstr xid ≠ b :: bs := by
    rw [show ascii "XA START " = 88 :: ascii "A START " from rfl, List.cons_append]
    intro h
    exact hb (List.cons.inj h).1.symm
  rw [opensTransaction, closesTransaction, htext]
  refine ⟨?_, hhead 67 (ascii "OMMIT") (by decide)⟩
  rintro (h | h)
  · exact hhead 66 (ascii "EGIN") (by decide) h
  · -- The identifier comes after a space.
    have hlen := congrArg List.length h
    rw [List.length_append, show (ascii "XA START ").length = 9 by decide,
      show (ascii "XA START").length = 8 by decide] at hlen
    omega

theorem watchedRows_cons : watchedRows pairs s (x :: xs) =
    (s.out pairs x).filterMap Item.row? ++ watchedRows pairs (s.next pairs x) xs := by
  rw [watchedRows, Transducer.trace_cons, List.filterMap_append]
  rfl

theorem filterMap_rowItems (rows : List (RowsLogEvent2 × TableMapLogEvent)) :
    (rowItems rows).filterMap Item.row? = rows := by
  rw [rowItems, List.filterMap_map]
  exact List.filterMap_some

theorem Handled.Inner.step (h : x.Inner) : ∃ rows,
    s.out pairs x = (if s.bracket = .opened ∧ rows ≠ [] then [.start] else []) ++ rowItems rows ∧
      (s.next pairs x).bracket = if s.bracket = .opened ∧ rows ≠ [] then .reported else s.bracket := by
  cases x with
  | heartbeat when => exact ⟨[], by simp [StreamState.out, rowItems], by simp [StreamState.next]⟩
  | event ev =>
    cases ev with
    | xid when => exact h.elim
    | xaPrepareLog when => exact h.elim
    | query when query =>
      obtain ⟨ho, hc⟩ := h.query
      exact ⟨[], by simp [StreamState.out, hc, rowItems], by simp [StreamState.next, ho, hc]⟩
    | rows ev isRows =>
      cases ht : s.table pairs ev with
      | none => exact ⟨[], by simp [StreamState.out, ht, rowItems], by simp [StreamState.next, ht]⟩
      | some map =>
        refine ⟨[(ev, map)], by simp [StreamState.out, ht, rowItems], ?_⟩
        by_cases hb : s.bracket = .opened <;> simp [StreamState.next, ht, hb]
    | formatDescription | tableMap | rotate | other =>
      exact ⟨[], by simp [StreamState.out, rowItems], by simp [StreamState.next]⟩

/-- Inner events tell their watched rows, with a start before the first where the
transaction is not yet reported. -/
theorem trace_inner (h : ∀ x ∈ xs, x.Inner) :
    (stream pairs).trace s xs =
        (if s.bracket = .opened ∧ watchedRows pairs s xs ≠ [] then [.start] else []) ++
          rowItems (watchedRows pairs s xs) ∧
      ((stream pairs).after s xs).bracket =
        if s.bracket = .opened ∧ watchedRows pairs s xs ≠ [] then .reported else s.bracket := by
  induction xs generalizing s with
  | nil => simp [watchedRows, rowItems]
  | cons x xs ih =>
    obtain ⟨hx, hxs⟩ := List.forall_mem_cons.mp h
    obtain ⟨rows, hout, hnext⟩ := @Handled.Inner.step pairs s x hx
    obtain ⟨htrace, hafter⟩ := ih hxs (s := s.next pairs x)
    have hrow : (s.out pairs x).filterMap Item.row? = rows := by
      rw [hout, List.filterMap_append, filterMap_rowItems]
      split <;> rfl
    rw [watchedRows_cons, hrow, Transducer.trace_cons, Transducer.after_cons]
    change s.out pairs x ++ (stream pairs).trace (s.next pairs x) xs = _ ∧
      ((stream pairs).after (s.next pairs x) xs).bracket = _
    rw [htrace, hafter, hout, hnext]
    by_cases hb : s.bracket = .opened <;> by_cases hr : rows = [] <;>
      simp [hb, hr, rowItems]

theorem watchedRows_congr {s' : StreamState} (h : s.maps = s'.maps) :
    watchedRows pairs s xs = watchedRows pairs s' xs := by
  induction xs generalizing s s' with
  | nil => rfl
  | cons x xs ih =>
    have hcommits (s : StreamState) : s.commits.filterMap Item.row? = [] := by
      unfold StreamState.commits
      split <;> rfl
    have htable (ev : RowsLogEvent2) : s.table pairs ev = s'.table pairs ev := by
      rw [StreamState.table, StreamState.table, h]
    have hstep : (s.out pairs x).filterMap Item.row? = (s'.out pairs x).filterMap Item.row? ∧
        (s.next pairs x).maps = (s'.next pairs x).maps := by
      cases x with
      | heartbeat when => exact ⟨rfl, h⟩
      | event ev =>
        cases ev with
        | query when query =>
          simp only [StreamState.out, StreamState.next]
          constructor
          · split
            · rw [hcommits, hcommits]
            · rfl
          · split
            · exact h
            · split <;> exact h
        | tableMap when map => exact ⟨rfl, by simp only [StreamState.next, h]⟩
        | xid | xaPrepareLog => exact ⟨by simp only [StreamState.out, hcommits], h⟩
        | rows ev isRows =>
          simp only [StreamState.out, StreamState.next, htable]
          constructor
          · split
            · simp only [List.filterMap_append]
              congr 1
              split <;> split <;> rfl
            · rfl
          · split <;> split <;> exact h
        | formatDescription | rotate | other => exact ⟨rfl, h⟩
    rw [watchedRows_cons, watchedRows_cons, hstep.1, ih hstep.2]

theorem closing_out (c : Closing) : s.out pairs c.handled = s.commits ∧
    (s.next pairs c.handled).bracket = .outside := by
  cases c with
  | xid | xaPrepare => exact ⟨rfl, rfl⟩
  | commit when =>
    have hc : closesTransaction (ascii "COMMIT") := by decide
    exact ⟨by simp only [Closing.handled, StreamState.out, if_pos hc],
      by simp [Closing.handled, StreamState.next, hc, not_opens_of_closes hc]⟩

theorem opening_out (o : Opening) (hs : s.bracket = .outside) :
    s.out pairs o.handled = [] ∧ (s.next pairs o.handled).maps = s.maps ∧
      (s.next pairs o.handled).bracket = if o.isXa then .outside else .opened := by
  cases o with
  | begin when =>
    have ho : opensTransaction (ascii "BEGIN") := by decide
    have hc : ¬ closesTransaction (ascii "BEGIN") := by decide
    simp [Opening.handled, StreamState.out, StreamState.next, ho, hc, Opening.isXa]
  | xaStart when xid =>
    obtain ⟨ho, hc⟩ := Opening.xaStart_query xid
    simp [Opening.handled, StreamState.out, StreamState.next, ho, hc, Opening.isXa, hs]

/-- What the stream tells of a transaction, and where it is after it. -/
theorem trace_transaction (t : Transaction) (hs : s.bracket = .outside) :
    (stream pairs).trace s t.handled =
        (if t.opening.isXa then rowItems (t.rows pairs s) else bracketed (t.rows pairs s)) ∧
      ((stream pairs).after s t.handled).bracket = .outside := by
  obtain ⟨hout, hmaps, hbracket⟩ := @opening_out pairs s t.opening hs
  obtain ⟨htrace, hafter⟩ := @trace_inner pairs (s.next pairs t.opening.handled) t.body t.inner
  rw [watchedRows_congr hmaps, hbracket] at htrace hafter
  obtain ⟨hclose, hend⟩ := @closing_out pairs
    ((stream pairs).after (s.next pairs t.opening.handled) t.body) t.closing
  have htraceAll : (stream pairs).trace s t.handled = s.out pairs t.opening.handled ++
      ((stream pairs).trace (s.next pairs t.opening.handled) t.body ++
        ((stream pairs).after (s.next pairs t.opening.handled) t.body).out pairs t.closing.handled) := by
    rw [Transaction.handled, List.cons_append, Transducer.trace_cons, Transducer.trace_append,
      Transducer.trace_cons, Transducer.trace_nil, List.append_nil]
    rfl
  have hafterAll : (stream pairs).after s t.handled =
      ((stream pairs).after (s.next pairs t.opening.handled) t.body).next pairs t.closing.handled := by
    rw [Transaction.handled, List.cons_append, Transducer.after_cons, Transducer.after_append]
    rfl
  rw [htraceAll, hafterAll, hout, htrace, hclose, StreamState.commits, hafter]
  refine ⟨?_, hend⟩
  unfold Transaction.rows bracketed
  cases t.opening.isXa with
  | true => simp
  | false => by_cases hr : watchedRows pairs s t.body = [] <;> simp [hr, rowItems]

theorem trace_transactions {ts : List Transaction} (hs : s.bracket = .outside)
    (hq : XaQuiet pairs s ts) :
    (stream pairs).trace s (ts.flatMap Transaction.handled) = bracketedAll pairs s ts := by
  induction ts generalizing s with
  | nil => rfl
  | cons t ts ih =>
    obtain ⟨htrace, hafter⟩ := @trace_transaction pairs s t hs
    rw [List.flatMap_cons, Transducer.trace_append, htrace, bracketedAll, ih hafter hq.2]
    congr 1
    split
    case isTrue hx => rw [hq.1 hx]; rfl
    case isFalse => rfl

/-- A transaction that is not bracketed lacks two items. -/
theorem length_trace_transactions {ts : List Transaction} (hs : s.bracket = .outside) :
    ((stream pairs).trace s (ts.flatMap Transaction.handled)).length ≤
        (bracketedAll pairs s ts).length ∧
      (((stream pairs).trace s (ts.flatMap Transaction.handled)).length =
        (bracketedAll pairs s ts).length → XaQuiet pairs s ts) := by
  induction ts generalizing s with
  | nil => exact ⟨Nat.le_refl _, fun _ => trivial⟩
  | cons t ts ih =>
    obtain ⟨htrace, hafter⟩ := @trace_transaction pairs s t hs
    obtain ⟨hle, heq⟩ := ih hafter
    rw [List.flatMap_cons, Transducer.trace_append, htrace, bracketedAll, List.length_append,
      List.length_append]
    unfold bracketed XaQuiet
    cases t.opening.isXa with
    | false =>
      simp only [Bool.false_eq_true, if_false, false_implies, true_and]
      exact ⟨by omega, fun h => heq (by omega)⟩
    | true =>
      by_cases hr : t.rows pairs s = []
      · simp only [hr, if_true, rowItems, List.map_nil, List.length_nil, Nat.zero_add,
          implies_true, true_and]
        exact ⟨hle, heq⟩
      · simp only [hr, if_true, if_false, List.length_cons, List.length_append, List.length_nil]
        exact ⟨by omega, fun h => by omega⟩

/-- The calls of `on_transaction` and `on_row` tell every transaction with its
watched rows between `START` and `COMMIT`. -/
def TransactionLaw (o : Listener) (ts : List Transaction) (before after : List Call) : Prop :=
  ∃ cs, after = before ++ cs ∧ o.Tells cs (bracketedAll o.pairs o.streamState ts)

theorem Listener.Tells.length_eq {o : Listener} {cs : List Call} {items : List Item}
    (hrow : o.onRow = true) (hon : o.onTransaction = true) (h : o.Tells cs items) :
    (cs.filter fun c => !c.isHeartbeat).length = items.length := by
  have hall : items.filter o.shows = items := by
    rw [List.filter_eq_self]
    intro i _
    cases i with
    | row ev map => exact hrow
    | start | commit => exact hon
  rw [Listener.Tells, hall] at h
  exact h.length_eq

theorem transactionLaw_iff_xaQuiet {o : Listener} {ts : List Transaction} {before after cs : List Call}
    (hrow : o.onRow = true) (hon : o.onTransaction = true) (hs : o.streamState.bracket = .outside)
    (hcs : after = before ++ cs)
    (htells : o.Tells cs ((stream o.pairs).trace o.streamState (ts.flatMap Transaction.handled))) :
    TransactionLaw o ts before after ↔ XaQuiet o.pairs o.streamState ts := by
  constructor
  · rintro ⟨cs', hcs', h⟩
    have heq : cs' = cs := List.append_cancel_left (hcs'.symm.trans hcs)
    subst heq
    refine (length_trace_transactions hs).2 ?_
    rw [← htells.length_eq hrow hon, h.length_eq hrow hon]
  · intro hq
    rw [trace_transactions hs hq] at htells
    exact ⟨cs, hcs, htells⟩

/-- In a stream of complete transactions every transaction with watched rows is
told between `START` and `COMMIT`, exactly when none of them was opened by
`XA START`. -/
theorem replicationLoop_transactions_iff {ts : List Transaction} {packets : List Packet} {k : Nat}
    {t : Turn} (he : w.error = none) (hs : w.obj.state = .inprocess) (hw : w.obj.Sane)
    (hflag : w.obj.inTransaction = 0) (hrow : w.obj.onRow = true) (hon : w.obj.onTransaction = true)
    (hrun : (replicationLoop lib os needStop k packets).run w = .ok t w') (herr : w'.error = none)
    (hts : handledOf (loopVisits lib os needStop k packets w) = ts.flatMap Transaction.handled) :
    TransactionLaw w.obj ts w.calls w'.calls ↔ XaQuiet w.obj.pairs w.obj.streamState ts := by
  obtain ⟨-, cs, hcs, htells⟩ := replicationLoop_tells he (hw.at_streamState hs) hrun herr
  rw [hts] at htells
  exact transactionLaw_iff_xaQuiet hrow hon (by simp [Listener.streamState, hflag]) hcs htells

def sampleTransaction (opening : Opening) (closing : Closing) : Transaction where
  opening
  body := [.event (.tableMap 6 sampleTable), .event sampleRows]
  closing
  inner := by simp [Handled.Inner, sampleRows]

theorem replicationLoop_transactions_sample : ∃ t w',
    (replicationLoop sampleLibrary sampleAllocator (fun _ => false) 0
      (samplePackets (.xid 8))).run (sampleWorld true true true) = .ok t w' ∧
    TransactionLaw (sampleWorld true true true).obj [sampleTransaction (.begin 5) (.xid 8)] []
      w'.calls := by
  obtain ⟨t, w', hrun, herr⟩ := sampleWorld_run (samplePackets (.xid 8)) (by decide +kernel)
  exact ⟨t, w', hrun, (@replicationLoop_transactions_iff _ _ _ _ _
    [sampleTransaction (.begin 5) (.xid 8)] _ _ _ rfl rfl sampleWorld_sane rfl rfl rfl hrun herr
    (handledOf_loopVisits (fun _ => rfl) hrun herr)).mpr ⟨(fun h => by cases h), trivial⟩⟩

def xaPackets : List Packet :=
  [.query 5 (ascii "XA START X'78',X'',1"), .tableMap 6 sampleTable, sampleRows,
    .xaPrepareLog 8].map samplePacket

def xaTransaction : Transaction := sampleTransaction (.xaStart 5 (ascii "X'78',X'',1")) (.xaPrepare 8)

/-- The row is delivered, but neither `START` nor `COMMIT`. -/
theorem xaPackets_not_bracketed : ∃ t w',
    (replicationLoop sampleLibrary sampleAllocator (fun _ => false) 0 xaPackets).run
      (sampleWorld true true true) = .ok t w' ∧ w'.error = none ∧
    handledOf (loopVisits sampleLibrary sampleAllocator (fun _ => false) 0 xaPackets
      (sampleWorld true true true)) = [xaTransaction].flatMap Transaction.handled ∧
    ¬ TransactionLaw (sampleWorld true true true).obj [xaTransaction] [] w'.calls := by
  obtain ⟨t, w', hrun, herr⟩ := sampleWorld_run xaPackets (by decide +kernel)
  have hts : handledOf (loopVisits sampleLibrary sampleAllocator (fun _ => false) 0 xaPackets
      (sampleWorld true true true)) = [xaTransaction].flatMap Transaction.handled :=
    handledOf_loopVisits (fun _ => rfl) hrun herr
  obtain ⟨-, cs, hcs, htells⟩ :=
    replicationLoop_tells rfl (sampleWorld_sane.at_streamState rfl) hrun herr
  rw [hts] at htells
  refine ⟨t, w', hrun, herr, hts, fun hlaw => ?_⟩
  have hquiet := (transactionLaw_iff_xaQuiet rfl rfl rfl hcs htells).mp hlaw
  exact absurd (hquiet.1 rfl) (by decide +kernel)

end RplListener
