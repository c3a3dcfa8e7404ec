import RplListener.Listener.Failures

/-!
# The log of the master

A log is a sequence of files, and a dump of it is a sequence of packets, each
with the place in the log that has been reached after it: the place a new dump
would have to ask for. The listener's file name and position are this place.
-/

namespace RplListener

open Bytes Refine

variable {lib : Library} {os : Allocator} {needStop : Nat → Bool} {w w' : World} {k k' : Nat}

-- ---------------------------------------------------------------------------
-- Files
-- ---------------------------------------------------------------------------

/-- A part of a log file, with the bytes it takes there. -/
structure Sized (α : Type) where
  size : Nat
  content : α
  size_pos : 0 < size

def Sized.map {α β : Type} (f : α → β) (x : Sized α) : Sized β := ⟨x.size, f x.content, x.size_pos⟩

def sizes (es : List (Sized LogEvent)) : Nat := (es.map Sized.size).sum

structure LogName where
  bytes : List UInt8
  ne_nil : bytes ≠ []
  length_lt : bytes.length < 512
  no_nul : 0 ∉ bytes

/-- The `FORMAT_DESCRIPTION` event, the events after it and, where there is one,
the `ROTATE` event at the end, each with its time. -/
structure LogFile where
  name : LogName
  description : Sized (Nat × FormatDescription)
  body : List (Sized LogEvent)
  rotate : Option (Sized Nat)
  plain : ∀ e ∈ body, e.content.Plain

/-- A place in the log: a file and an offset in it. -/
abbrev Mark := List UInt8 × Nat

def rotateTo (when : Nat) (f : LogFile) : LogEvent := .leaf (.rotate when f.name.bytes)

def describe (d : Nat × FormatDescription) : LogEvent := .leaf (.formatDescription d.1 d.2)

namespace LogFile

variable (f : LogFile)

def rotation (next : Option LogFile) : List (Sized LogEvent) :=
  match f.rotate, next with
  | some r, some g => [r.map fun when => rotateTo when g]
  | _, _ => []

def events (next : Option LogFile) : List (Sized LogEvent) :=
  f.description.map describe :: f.body ++ f.rotation next

/-- The offset of the `i`-th boundary between events. -/
def offset (next : Option LogFile) (i : Nat) : Nat := 4 + sizes ((f.events next).take i)

end LogFile

-- ---------------------------------------------------------------------------
-- Dumps
-- ---------------------------------------------------------------------------

def markAfterEvent (name : List UInt8) (pos : Nat) (e : Sized LogEvent) : Mark :=
  match e.content with
  | .leaf (.rotate _ next) => (next, 4)
  | _ => (name, pos + e.size)

/-- The events of a file from `pos` on, as packets of one byte more. -/
def sendEvents (name : List UInt8) : (pos : Nat) → List (Sized LogEvent) → List (Packet × Mark)
  | _, [] => []
  | pos, e :: es =>
    (.event (e.size + 1) e.content, markAfterEvent name pos e) :: sendEvents name (pos + e.size) es

/-- Whole files, each after a fake `ROTATE`. -/
inductive SendsFiles : List LogFile → List (Packet × Mark) → Prop
  | nil : SendsFiles [] []
  | file {f rest stream} (size when : Nat) (h : SendsFiles rest stream) : SendsFiles (f :: rest)
      ((.event size (rotateTo when f), (f.name.bytes, 4)) ::
        sendEvents f.name.bytes 4 (f.events rest.head?) ++ stream)

/-- A dump from the `i`-th boundary of the first file. -/
inductive Dump : List LogFile → Nat → List (Packet × Mark) → Prop
  | start {f rest stream} (h : SendsFiles (f :: rest) stream) : Dump (f :: rest) 0 stream
  | later {f rest stream i} (size when size' : Nat) (d : Nat × FormatDescription) (hi : 0 < i)
      (hi' : i ≤ (f.events rest.head?).length) (h : SendsFiles rest stream) : Dump (f :: rest) i
      ((.event size (rotateTo when f), (f.name.bytes, f.offset rest.head? i)) ::
        (.event size' (describe d), (f.name.bytes, f.offset rest.head? i)) ::
        sendEvents f.name.bytes (f.offset rest.head? i) ((f.events rest.head?).drop i) ++ stream)

/-- Heartbeats come between the packets of a dump. -/
inductive Interspersed : Mark → List (Packet × Mark) → List (Packet × Mark) → Prop
  | nil {m} : Interspersed m [] []
  | packet {m p m' xs ys} (h : Interspersed m' xs ys) : Interspersed m ((p, m') :: xs) ((p, m') :: ys)
  | heartbeat {m xs ys} (size when : Nat) (h : Interspersed m xs ys) :
    Interspersed m xs ((.heartbeat size when, m) :: ys)

theorem Interspersed.refl (m : Mark) (xs : List (Packet × Mark)) : Interspersed m xs xs := by
  induction xs generalizing m with
  | nil => exact .nil
  | cons x xs ih => exact .packet (ih x.2)

def markAfter : Mark → List (Packet × Mark) → Mark
  | m, [] => m
  | _, x :: xs => markAfter x.2 xs

-- ---------------------------------------------------------------------------
-- One packet
-- ---------------------------------------------------------------------------

/-- How a packet leads from one place to the next. -/
inductive Move : Mark → Packet → Mark → Prop
  | same {name pos size when} : Move (name, pos) (.event size (.leaf (.rotate when name))) (name, pos)
  | rotate {name pos size when} (next : LogName) (h : next.bytes ≠ name) :
    Move (name, pos) (.event size (.leaf (.rotate when next.bytes))) (next.bytes, 4)
  | artificial {name pos size} {d : Nat × FormatDescription} (h : pos ≠ 4) :
    Move (name, pos) (.event size (describe d)) (name, pos)
  | description {name size} {d : Nat × FormatDescription} :
    Move (name, 4) (.event (size + 1) (describe d)) (name, 4 + size)
  | event {name pos size ev} (h : LogEvent.Plain ev) :
    Move (name, pos) (.event (size + 1) ev) (name, pos + size)
  | heartbeat {m size when} : Move m (.heartbeat size when) m

structure Listener.PlacedAt (o : Listener) (m : Mark) : Prop where
  fileNameSet : o.rpl.fileNameSet = true
  mLogNm : o.mLogNm = m.1
  fileNameLength : o.rpl.fileNameLength = m.1.length
  startPosition : o.rpl.startPosition = m.2

theorem InitArgs.listener_placedAt {a : InitArgs} {name : LogName}
    (h : a.masterFileName = some name.bytes) :
    a.listener.PlacedAt (name.bytes, a.masterFilePos) := by
  have hname : (cstr name.bytes).take 511 = name.bytes := by
    rw [cstr_of_ne_zero name.no_nul, List.take_of_length_le (Nat.le_of_lt_succ name.length_lt)]
  rw [InitArgs.listener, h]
  exact ⟨rfl, hname, congrArg List.length hname, rfl⟩

theorem Listener.PlacedAt.reported {o : Listener} {m : Mark} (h : o.PlacedAt m) (fileMaxlen : Nat) :
    o.getLastSucessfulPosition fileMaxlen = (m.1.take (fileMaxlen - 1), m.2) := by
  rw [getLastSucessfulPosition, if_pos h.fileNameSet, h.mLogNm, h.startPosition]

theorem Listener.PlacedAt.of_place {m : Mark} {size : Nat} (h : w.obj.PlacedAt m)
    (hplace : w'.obj.place = (w.withSize size).obj.place) : w'.obj.PlacedAt m := by
  obtain ⟨hname, hrpl⟩ : w'.obj.mLogNm = w.obj.mLogNm ∧ w'.obj.rpl = { w.obj.rpl with size } :=
    Prod.mk.inj hplace
  exact ⟨(congrArg MysqlRpl.fileNameSet hrpl).trans h.fileNameSet, hname.trans h.mLogNm,
    (congrArg MysqlRpl.fileNameLength hrpl).trans h.fileNameLength,
    (congrArg MysqlRpl.startPosition hrpl).trans h.startPosition⟩

theorem Listener.PlacedAt.advanced {name : List UInt8} {pos : Nat} (size : Nat)
    (h : w.obj.PlacedAt (name, pos)) (hplace : w'.obj.place = (w.withSize size).obj.place) :
    w'.advanced.obj.PlacedAt (name, pos + (size - 1)) := by
  have h' := h.of_place hplace
  have hsize : w'.obj.rpl.size = size := congrArg (fun x => x.2.size) hplace
  refine ⟨h'.fileNameSet, h'.mLogNm, h'.fileNameLength, ?_⟩
  change w'.obj.rpl.startPosition + (w'.obj.rpl.size - 1) = _
  rw [hsize, h'.startPosition]

theorem handle_rotate_same {when : Nat} {newLogIdent : List UInt8} (he : w.error = none)
    (h : newLogIdent.length = w.obj.rpl.fileNameLength ∧
      newLogIdent = w.obj.mLogNm.take w.obj.rpl.fileNameLength) :
    (handleLeaf lib os (.rotate when newLogIdent)).run w = .ok () (w.withSize 1) := by
  rw [handleLeaf_listed he rfl]
  refine congrArg (fun o => EStateM.Result.ok () (w.put o)) (if_neg ?_)
  rintro (hn | hn)
  · exact hn h.1
  · exact hn h.2

theorem handle_rotate_other {when : Nat} {newLogIdent : List UInt8} (he : w.error = none)
    (h : newLogIdent.length ≠ w.obj.rpl.fileNameLength ∨
      newLogIdent ≠ w.obj.mLogNm.take w.obj.rpl.fileNameLength) :
    (handleLeaf lib os (.rotate when newLogIdent)).run w =
      let name := (cstr newLogIdent).take (min (newLogIdent.length + 1) 512 - 1)
      .ok () (w.put { w.obj with
        mLogNm := name
        rpl := { w.obj.rpl with fileNameLength := name.length, startPosition := 0, size := 5 } }) := by
  rw [handleLeaf_listed he rfl]
  exact congrArg (fun o => EStateM.Result.ok () (w.put o)) (if_pos h)

theorem turn_move {m m' : Mark} {p : Packet} {t : Turn} (hm : Move m p m') (he : w.error = none)
    (h : w.obj.PlacedAt m) (hrun : (turn lib os needStop k p).run w = .ok t w')
    (herr : w'.error = none) : w'.obj.PlacedAt m' := by
  cases hm with
  | @same name pos size when =>
    obtain ⟨_, w₁, hev, -, rfl⟩ := turn_event_inv hrun herr
    have hleaf := processEvent_leaf_inv hev
    rw [handle_rotate_same (w := w.withSize size) he ⟨h.fileNameLength.symm, ?_⟩] at hleaf
    · cases hleaf
      exact Listener.PlacedAt.advanced 1 h rfl
    · rw [show (w.withSize size).obj.mLogNm = name from h.mLogNm,
        show (w.withSize size).obj.rpl.fileNameLength = name.length from h.fileNameLength,
        List.take_length]
  | @rotate name pos size when next hne =>
    obtain ⟨_, w₁, hev, -, rfl⟩ := turn_event_inv hrun herr
    have hleaf := processEvent_leaf_inv hev
    have hname : (cstr next.bytes).take (min (next.bytes.length + 1) 512 - 1) = next.bytes := by
      rw [cstr_of_ne_zero next.no_nul, List.take_of_length_le]
      have := next.length_lt
      omega
    rw [handle_rotate_other (w := w.withSize size) he (.inr ?_)] at hleaf
    · cases hleaf
      exact ⟨h.fileNameSet, hname, congrArg List.length hname, rfl⟩
    · rw [show (w.withSize size).obj.mLogNm = name from h.mLogNm,
        show (w.withSize size).obj.rpl.fileNameLength = name.length from h.fileNameLength,
        List.take_length]
      exact hne
  | @artificial name pos size d hpos =>
    obtain ⟨_, w₁, hev, -, rfl⟩ := turn_event_inv hrun herr
    have hleaf := processEvent_leaf_inv hev
    rw [handle_formatDescription (w := w.withSize size) he] at hleaf
    cases hleaf
    refine Listener.PlacedAt.advanced 1 h (Prod.ext rfl ?_)
    exact if_pos (by rw [show (w.withSize size).obj.rpl.startPosition = pos from h.startPosition]; exact hpos)
  | @description name size d =>
    obtain ⟨_, w₁, hev, -, rfl⟩ := turn_event_inv hrun herr
    have hleaf := processEvent_leaf_inv hev
    rw [handle_formatDescription (w := w.withSize (size + 1)) he] at hleaf
    cases hleaf
    refine Listener.PlacedAt.advanced (size + 1) h (Prod.ext rfl ?_)
    exact if_neg (not_not.mpr h.startPosition)
  | @event name pos size ev hplain =>
    obtain ⟨_, w₁, hev, -, rfl⟩ := turn_event_inv hrun herr
    exact Listener.PlacedAt.advanced (size + 1) h
      (processEvent_place (w := w.withSize (size + 1)) hplain he hev)
  | @heartbeat m size when =>
    unfold turn at hrun
    obtain ⟨_, _, hsize, hrun⟩ := run_bind_inv hrun
    cases hsize
    obtain ⟨_, w₁, hheart, hrun⟩ := run_bind_inv hrun
    have hstep := (@handle_step lib os (w.withSize size) he (.heartbeat when)).ok hheart
    have hw₁ : w₁ = w' := by
      rw [run_get_bind] at hrun
      split at hrun <;> exact (run_pure_inv hrun).2
    subst hw₁
    exact h.of_place (hstep.place rfl)

-- ---------------------------------------------------------------------------
-- Streams
-- ---------------------------------------------------------------------------

def Moves : Mark → List (Packet × Mark) → Prop
  | _, [] => True
  | m, x :: xs => Move m x.1 x.2 ∧ Moves x.2 xs

theorem markAfter_append {m : Mark} {xs ys : List (Packet × Mark)} :
    markAfter m (xs ++ ys) = markAfter (markAfter m xs) ys := by
  induction xs generalizing m with
  | nil => rfl
  | cons x xs ih => exact ih

theorem moves_append {m : Mark} {xs ys : List (Packet × Mark)} :
    Moves m (xs ++ ys) ↔ Moves m xs ∧ Moves (markAfter m xs) ys := by
  induction xs generalizing m with
  | nil => simp [Moves, markAfter]
  | cons x xs ih => simp only [List.cons_append, Moves, markAfter, ih, and_assoc]

theorem Interspersed.moves {m : Mark} {xs ys : List (Packet × Mark)} (h : Interspersed m xs ys)
    (hm : Moves m xs) : Moves m ys := by
  induction h with
  | nil => trivial
  | packet _ ih => exact ⟨hm.1, ih hm.2⟩
  | heartbeat size when _ ih => exact ⟨.heartbeat, ih hm⟩

def Sized.Stays (e : Sized LogEvent) : Prop := ∀ when next, e.content ≠ .leaf (.rotate when next)

theorem LogEvent.Plain.stays {e : Sized LogEvent} (h : e.content.Plain) : e.Stays := by
  intro when next heq
  have := h (.event (.rotate when next)) (by rw [heq]; unfold LogEvent.leaves; simp)
  cases this

theorem Sized.Stays.markAfterEvent {name : List UInt8} {pos : Nat} {e : Sized LogEvent}
    (h : e.Stays) : markAfterEvent name pos e = (name, pos + e.size) := by
  unfold RplListener.markAfterEvent
  split
  case h_1 when next heq => exact absurd heq (h when next)
  case h_2 => rfl

theorem sizes_cons (e : Sized LogEvent) (es : List (Sized LogEvent)) :
    sizes (e :: es) = e.size + sizes es := List.sum_cons

theorem sendEvents_append {name : List UInt8} {pos : Nat} {es es' : List (Sized LogEvent)} :
    sendEvents name pos (es ++ es') =
      sendEvents name pos es ++ sendEvents name (pos + sizes es) es' := by
  induction es generalizing pos with
  | nil => rfl
  | cons e es ih =>
    rw [List.cons_append, sendEvents, sendEvents, ih, sizes_cons, Nat.add_assoc, List.cons_append]

theorem markAfter_sendEvents (name : List UInt8) {es : List (Sized LogEvent)}
    (h : ∀ e ∈ es, e.Stays) (pos : Nat) :
    markAfter (name, pos) (sendEvents name pos es) = (name, pos + sizes es) := by
  induction es generalizing pos with
  | nil => rfl
  | cons e es ih =>
    obtain ⟨he, hes⟩ := List.forall_mem_cons.mp h
    rw [sendEvents, he.markAfterEvent, sizes_cons, ← Nat.add_assoc]
    exact ih hes _

theorem moves_plain (name : List UInt8) {es : List (Sized LogEvent)}
    (h : ∀ e ∈ es, e.content.Plain) (pos : Nat) : Moves (name, pos) (sendEvents name pos es) := by
  induction es generalizing pos with
  | nil => trivial
  | cons e es ih =>
    obtain ⟨he, hes⟩ := List.forall_mem_cons.mp h
    rw [sendEvents, he.stays.markAfterEvent]
    exact ⟨.event he, ih hes _⟩

/-- The place a file is left at leads to the next file. -/
def LeadsTo (m : Mark) (next : Option LogFile) : Prop :=
  ∀ g ∈ next, m = (g.name.bytes, 4) ∨ m.1 ≠ g.name.bytes

theorem leadsTo_of_ne {m : Mark} {f : LogFile} {next : Option LogFile} (h : m.1 = f.name.bytes)
    (hne : ∀ g ∈ next, f.name.bytes ≠ g.name.bytes) : LeadsTo m next :=
  fun g hg => .inr (h ▸ hne g hg)

theorem LogFile.rotation_drop (f : LogFile) (next : Option LogFile) (j : Nat) :
    (f.rotation next).drop j = [] ∨ ∃ (r : Sized Nat) (g : LogFile), next = some g ∧
      (f.rotation next).drop j = [r.map fun when => rotateTo when g] := by
  unfold LogFile.rotation
  split
  case h_1 r g _ =>
    cases j with
    | zero => exact .inr ⟨r, g, rfl, rfl⟩
    | succ j => exact .inl (by simp)
  case h_2 => exact .inl (by simp)

theorem moves_rest {f : LogFile} {next : Option LogFile} {es : List (Sized LogEvent)}
    (hplain : ∀ e ∈ es, e.content.Plain) (hne : ∀ g ∈ next, f.name.bytes ≠ g.name.bytes)
    (pos j : Nat) :
    let stream := sendEvents f.name.bytes pos (es ++ (f.rotation next).drop j)
    Moves (f.name.bytes, pos) stream ∧ LeadsTo (markAfter (f.name.bytes, pos) stream) next := by
  have hmoves := moves_plain f.name.bytes hplain pos
  have hmark := markAfter_sendEvents f.name.bytes (fun e he => (hplain e he).stays) pos
  dsimp only
  rw [sendEvents_append, moves_append, markAfter_append, hmark]
  rcases f.rotation_drop next j with hr | ⟨r, g, rfl, hr⟩
  · rw [hr]
    exact ⟨⟨hmoves, trivial⟩, leadsTo_of_ne rfl hne⟩
  · rw [hr]
    refine ⟨⟨hmoves, .rotate g.name (hne g rfl).symm, trivial⟩, fun g' hg' => ?_⟩
    cases hg'
    exact .inl rfl

def DistinctNames (files : List LogFile) : Prop := (files.map fun f => f.name.bytes).Nodup

theorem DistinctNames.head {f : LogFile} {rest : List LogFile} (h : DistinctNames (f :: rest)) :
    (∀ g ∈ rest.head?, f.name.bytes ≠ g.name.bytes) ∧ DistinctNames rest := by
  obtain ⟨hf, hrest⟩ := List.nodup_cons.mp h
  refine ⟨fun g hg heq => hf ?_, hrest⟩
  exact List.mem_map.mpr ⟨g, List.mem_of_mem_head? hg, heq.symm⟩

theorem SendsFiles.moves {files : List LogFile} {stream : List (Packet × Mark)} {m : Mark}
    (h : SendsFiles files stream) (hd : DistinctNames files) (hm : LeadsTo m files.head?) :
    Moves m stream := by
  induction h generalizing m with
  | nil => trivial
  | @file f rest stream size when h ih =>
    obtain ⟨hne, hrest⟩ := hd.head
    obtain ⟨hmoves, hleads⟩ := moves_rest (f := f) f.plain hne (4 + f.description.size) 0
    refine ⟨?_, .description, moves_append.mpr ⟨hmoves, ih hrest hleads⟩⟩
    rcases hm f rfl with rfl | hname
    · exact .same
    · exact .rotate f.name hname.symm

theorem LogFile.events_drop (f : LogFile) (next : Option LogFile) (i : Nat) :
    (f.events next).drop (i + 1) =
      f.body.drop i ++ (f.rotation next).drop (i - f.body.length) := by
  rw [LogFile.events, List.cons_append, List.drop_succ_cons, List.drop_append]

theorem LogFile.offset_pos (f : LogFile) (next : Option LogFile) {i : Nat} (hi : 0 < i) :
    f.offset next i ≠ 4 := by
  obtain ⟨i, rfl⟩ := Nat.exists_eq_succ_of_ne_zero hi.ne'
  have := f.description.size_pos
  rw [LogFile.offset, LogFile.events, List.cons_append, List.take_succ_cons,
    sizes_cons]
  change 4 + (f.description.size + _) ≠ 4
  omega

theorem Dump.moves {files : List LogFile} {i : Nat} {stream : List (Packet × Mark)} {f : LogFile}
    (h : Dump files i stream) (hd : DistinctNames files) (hf : f ∈ files.head?) :
    Moves (f.name.bytes, f.offset files.tail.head? i) stream := by
  cases h with
  | @start f rest stream h =>
    cases hf
    exact h.moves hd fun g hg => .inl (by cases hg; rfl)
  | @later f rest stream i size when size' d hi hi' h =>
    cases hf
    obtain ⟨hne, hrest⟩ := hd.head
    obtain ⟨i, rfl⟩ := Nat.exists_eq_succ_of_ne_zero hi.ne'
    obtain ⟨hmoves, hleads⟩ := @moves_rest f _ (f.body.drop i)
      (fun e he => f.plain e (List.mem_of_mem_drop he)) hne (f.offset rest.head? (i + 1))
      (i - f.body.length)
    rw [f.events_drop]
    exact ⟨.same, .artificial (f.offset_pos _ hi), moves_append.mpr ⟨hmoves, h.moves hrest hleads⟩⟩

-- ---------------------------------------------------------------------------
-- The tracked position
-- ---------------------------------------------------------------------------

theorem replicationLoop_moves {stream : List (Packet × Mark)} {m : Mark} {k k' : Nat} {w w' : World}
    (hm : Moves m stream) (he : w.error = none) (h : w.obj.PlacedAt m)
    (hrun : (replicationLoop lib os needStop k (stream.map Prod.fst)).run w = .ok (.next k') w') :
    w'.obj.PlacedAt (markAfter m stream) := by
  induction stream generalizing m k w with
  | nil =>
    cases hrun
    exact h
  | cons x xs ih =>
    rw [List.map_cons, replicationLoop] at hrun
    obtain ⟨t, w₁, hturn, hrun⟩ := run_bind_inv hrun
    cases t with
    | done => cases hrun
    | next k₁ =>
      have he₁ := turn_next_error hturn
      exact ih hm.2 he₁ (turn_move hm.1 he h hturn he₁) hrun

/-- Along every dump of the log, with heartbeats anywhere, the file name and the
position are the place that has been reached. -/
theorem replicationLoop_position {files : List LogFile} {f : LogFile} {i : Nat}
    {dump stream pre post : List (Packet × Mark)} (hd : DistinctNames files)
    (hf : f ∈ files.head?) (hdump : Dump files i dump)
    (hbeats : Interspersed (f.name.bytes, f.offset files.tail.head? i) dump stream)
    (hpre : stream = pre ++ post) (he : w.error = none)
    (h : w.obj.PlacedAt (f.name.bytes, f.offset files.tail.head? i))
    (hrun : (replicationLoop lib os needStop k (pre.map Prod.fst)).run w = .ok (.next k') w') :
    w'.obj.PlacedAt (markAfter (f.name.bytes, f.offset files.tail.head? i) pre) := by
  have hmoves := hbeats.moves (hdump.moves hd hf)
  rw [hpre, moves_append] at hmoves
  exact replicationLoop_moves hmoves.1 he h hrun

def sampleDescription : Sized (Nat × FormatDescription) := ⟨152, (3, ⟨false⟩), by decide⟩

def sampleBody : List (Sized LogEvent) :=
  [⟨31, .leaf (.tableMap 6 sampleTable), by decide⟩, ⟨31, .leaf sampleRows, by decide⟩,
    ⟨31, .leaf (.xid 8), by decide⟩]

theorem sampleBody_plain : ∀ e ∈ sampleBody, e.content.Plain := by
  intro e he x hx
  simp only [sampleBody, List.mem_cons, List.not_mem_nil, or_false] at he
  rcases he with rfl | rfl | rfl <;> simp only [LogEvent.leaves, List.mem_singleton] at hx <;>
    subst hx <;> rfl

def sampleName : LogName := ⟨ascii "b.000001", by decide, by decide, by decide⟩

def sampleFiles : List LogFile :=
  [{ name := sampleName
     description := sampleDescription
     body := sampleBody
     rotate := some ⟨27, 9, by decide⟩
     plain := sampleBody_plain },
   { name := ⟨ascii "b.000002", by decide, by decide, by decide⟩
     description := sampleDescription
     body := []
     rotate := none
     plain := by simp }]

theorem sampleFiles_distinct : DistinctNames sampleFiles := by
  unfold DistinctNames
  decide

def sampleMark : Mark := (ascii "b.000001", 156)

def sampleDump : List (Packet × Mark) :=
  (.event 28 (.leaf (.rotate 0 (ascii "b.000001"))), sampleMark) ::
    (.event 98 (describe (3, ⟨false⟩)), sampleMark) ::
    [(samplePacket (.tableMap 6 sampleTable), (ascii "b.000001", 187)),
      (samplePacket sampleRows, (ascii "b.000001", 218)),
      (samplePacket (.xid 8), (ascii "b.000001", 249)),
      (.event 28 (.leaf (.rotate 9 (ascii "b.000002"))), (ascii "b.000002", 4)),
      (.event 28 (.leaf (.rotate 0 (ascii "b.000002"))), (ascii "b.000002", 4)),
      (.event 153 (describe (3, ⟨false⟩)), (ascii "b.000002", 156))]

theorem sampleDump_dump : Dump sampleFiles 1 sampleDump :=
  .later 28 0 98 (3, ⟨false⟩) (by decide) (by decide) (.file 28 0 .nil)

theorem sampleWorld_placedAt {r h t : Bool} : (sampleWorld r h t).obj.PlacedAt sampleMark :=
  ⟨rfl, rfl, rfl, rfl⟩

theorem replicationLoop_position_sample : ∃ k' w',
    (replicationLoop sampleLibrary sampleAllocator (fun _ => false) 0
      ((.heartbeat 40 9, sampleMark) :: sampleDump |>.map Prod.fst)).run (sampleWorld true true true) =
        .ok (.next k') w' ∧ w'.obj.PlacedAt (ascii "b.000002", 156) := by
  obtain ⟨t, w', hrun, ht⟩ := exists_of_returned (show returned (fun t _ => t == .next 9)
    ((replicationLoop sampleLibrary sampleAllocator (fun _ => false) 0
      ((.heartbeat 40 9, sampleMark) :: sampleDump |>.map Prod.fst)).run
        (sampleWorld true true true)) = true by decide +kernel)
  obtain rfl : t = .next 9 := by simpa using ht
  exact ⟨9, w', hrun, replicationLoop_position sampleFiles_distinct rfl
    sampleDump_dump (.heartbeat 40 9 (.refl _ _)) (List.append_nil _).symm rfl sampleWorld_placedAt
    hrun⟩

end RplListener
