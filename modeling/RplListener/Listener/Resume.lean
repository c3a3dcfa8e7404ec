import RplListener.Listener.Delivered
import RplListener.Listener.Log

/-!
# Resuming

What lies in the log before the place a thread has stopped at, and whether all
of it was passed on. A stop that is seen inside a payload leaves the loop over
the payload, and the position still goes past the payload.
-/

namespace RplListener

open Bytes Refine

variable {lib : Library} {os : Allocator} {needStop : Nat → Bool} {w w' : World} {k k' : Nat}

-- ---------------------------------------------------------------------------
-- The log before a place
-- ---------------------------------------------------------------------------

/-- The events from `pos` on that end at `stop` or before. -/
def untilOffset (stop : Nat) : (pos : Nat) → List (Sized LogEvent) → List LogEvent
  | _, [] => []
  | pos, e :: es =>
    if pos + e.size ≤ stop then e.content :: untilOffset stop (pos + e.size) es else []

/-- The events of the log from the `i`-th boundary of the first file to a place. -/
def eventsUntil (m : Mark) : List LogFile → (i : Nat) → List LogEvent
  | [], _ => []
  | f :: rest, i =>
    let events := (f.events rest.head?).drop i
    if m.1 = f.name.bytes then untilOffset m.2 (f.offset rest.head? i) events
    else events.map Sized.content ++ eventsUntil m rest 0

def Listener.mark (o : Listener) : Mark := (o.mLogNm, o.rpl.startPosition)

theorem Listener.PlacedAt.mark {o : Listener} {m : Mark} (h : o.PlacedAt m) : o.mark = m :=
  Prod.ext h.mLogNm h.startPosition

/-- Rotations, descriptions and heartbeats say nothing of transactions and rows. -/
def Handled.speaks : Handled → Bool
  | .heartbeat _ => false
  | x => !x.moves

def heard (xs : List Handled) : List Handled := xs.filter Handled.speaks

def packetLeaves (xs : List (Packet × Mark)) : List Handled := xs.flatMap fun x => x.1.leaves

theorem untilOffset_take {es : List (Sized LogEvent)} {n : Nat} (hn : n ≤ es.length) (pos : Nat) :
    untilOffset (pos + sizes (es.take n)) pos es = (es.take n).map Sized.content := by
  induction es generalizing n pos with
  | nil => simp [untilOffset]
  | cons e es ih =>
    have hpos := e.size_pos
    cases n with
    | zero =>
      rw [untilOffset, if_neg (by simp [sizes]; omega)]
      rfl
    | succ n =>
      rw [List.take_succ_cons, sizes_cons, untilOffset, if_pos (by omega), ← Nat.add_assoc,
        ih (Nat.le_of_succ_le_succ hn)]
      rfl

theorem sendEvents_leaves {name : List UInt8} {es : List (Sized LogEvent)} (pos : Nat) :
    packetLeaves (sendEvents name pos es) = (es.map Sized.content).flatMap LogEvent.leaves := by
  induction es generalizing pos with
  | nil => rfl
  | cons e es ih => exact congrArg (e.content.leaves ++ ·) (ih _)

theorem sendEvents_prefix {name : List UInt8} {es : List (Sized LogEvent)} {pos : Nat}
    {done : List (Packet × Mark)} (h : done <+: sendEvents name pos es) :
    done = sendEvents name pos (es.take done.length) := by
  induction es generalizing pos done with
  | nil => exact List.prefix_nil.mp h ▸ rfl
  | cons e es ih =>
    cases done with
    | nil => rfl
    | cons x done =>
      obtain ⟨rfl, hrest⟩ := List.cons_prefix_cons.mp h
      exact congrArg (_ :: ·) (ih hrest)

theorem told_file {f : LogFile} {next : Option LogFile} {es : List (Sized LogEvent)} {pos j : Nat}
    {done : List (Packet × Mark)} (hes : ∀ e ∈ es, e.Stays)
    (h : done <+: sendEvents f.name.bytes pos (es ++ (f.rotation next).drop j)) :
    let events := es ++ (f.rotation next).drop j
    let m := markAfter (f.name.bytes, pos) done
    (m.1 = f.name.bytes ∧
        packetLeaves done = (untilOffset m.2 pos events).flatMap LogEvent.leaves) ∨
      done = sendEvents f.name.bytes pos events ∧ ∃ g ∈ next, m = (g.name.bytes, 4) := by
  intro events m
  have hdone := sendEvents_prefix h
  have inside (n : Nat) (hn : n ≤ es.length) (hd : done = sendEvents f.name.bytes pos (events.take n)) :
      m.1 = f.name.bytes ∧
        packetLeaves done = (untilOffset m.2 pos events).flatMap LogEvent.leaves := by
    have htake : events.take n = es.take n := List.take_append_of_le_length hn
    have hm : m = (f.name.bytes, pos + sizes (events.take n)) := by
      rw [htake] at hd ⊢
      exact (congrArg (markAfter _) hd).trans
        (markAfter_sendEvents _ (fun e he => hes e (List.mem_of_mem_take he)) pos)
    have hlen : n ≤ events.length := by
      rw [List.length_append]
      omega
    rw [hm, untilOffset_take hlen, hd, sendEvents_leaves]
    exact ⟨rfl, rfl⟩
  by_cases hle : done.length ≤ es.length
  · exact .inl (inside done.length hle hdone)
  rcases f.rotation_drop next j with hr | ⟨r, g, hnext, hr⟩
  · have hevents : events = es := (congrArg (es ++ ·) hr).trans (List.append_nil es)
    refine .inl (inside es.length (Nat.le_refl _) ?_)
    rw [hevents, List.take_length]
    rwa [hr, List.append_nil, List.take_of_length_le (by omega)] at hdone
  · -- The rotation was sent.
    have hall : done = sendEvents f.name.bytes pos events := by
      rwa [List.take_of_length_le] at hdone
      rw [hr, List.length_append]
      simp
      omega
    refine .inr ⟨hall, g, hnext, ?_⟩
    change markAfter _ done = _
    rw [hall, show events = es ++ [r.map fun when => rotateTo when g] from congrArg (es ++ ·) hr,
      sendEvents_append, markAfter_append, markAfter_sendEvents _ hes]
    rfl

theorem packetLeaves_append (xs ys : List (Packet × Mark)) :
    packetLeaves (xs ++ ys) = packetLeaves xs ++ packetLeaves ys := List.flatMap_append

theorem heard_append (xs ys : List Handled) : heard (xs ++ ys) = heard xs ++ heard ys :=
  List.filter_append ..

theorem heard_cons_silent {x : Packet × Mark} {xs : List (Packet × Mark)}
    (h : heard x.1.leaves = []) : heard (packetLeaves (x :: xs)) = heard (packetLeaves xs) := by
  rw [packetLeaves, List.flatMap_cons, heard_append, h, List.nil_append]
  rfl

theorem events_stays (f : LogFile) : ∀ e ∈ f.description.map describe :: f.body, e.Stays := by
  intro e he
  rcases List.mem_cons.mp he with rfl | he
  · intro when next heq
    cases heq
  · exact (f.plain e he).stays

theorem eventsUntil_start (f : LogFile) (rest : List LogFile) (i : Nat) :
    eventsUntil (f.name.bytes, f.offset rest.head? i) (f :: rest) i = [] := by
  rw [eventsUntil, if_pos rfl]
  exact untilOffset_take (n := 0) (Nat.zero_le _) _

theorem eventsUntil_next {f : LogFile} {rest : List LogFile} {m : Mark} {i : Nat}
    (h : m.1 ≠ f.name.bytes) : eventsUntil m (f :: rest) i =
      ((f.events rest.head?).drop i).map Sized.content ++ eventsUntil m rest 0 := by
  rw [eventsUntil, if_neg h]

def InFiles (m : Mark) (files : List LogFile) : Prop := ∃ f ∈ files, m.1 = f.name.bytes

theorem InFiles.ne_head {f : LogFile} {rest : List LogFile} {m : Mark} (h : InFiles m rest)
    (hd : DistinctNames (f :: rest)) : m.1 ≠ f.name.bytes := by
  obtain ⟨g, hg, hm⟩ := h
  intro heq
  exact (List.nodup_cons.mp hd).1 (List.mem_map.mpr ⟨g, hg, hm.symm.trans heq⟩)

theorem told_files {f : LogFile} {rest : List LogFile} {stream done : List (Packet × Mark)}
    {i j : Nat} {es : List (Sized LogEvent)} (hd : DistinctNames (f :: rest))
    (hes : ∀ e ∈ es, e.Stays)
    (hevents : (f.events rest.head?).drop i = es ++ (f.rotation rest.head?).drop j)
    (hrest : ∀ m done', LeadsTo m rest.head? → done' <+: stream → done' ≠ [] →
      InFiles (markAfter m done') rest ∧ heard (packetLeaves done') =
        heard ((eventsUntil (markAfter m done') rest 0).flatMap LogEvent.leaves))
    (hleads : LeadsTo (markAfter (f.name.bytes, f.offset rest.head? i)
      (sendEvents f.name.bytes (f.offset rest.head? i) ((f.events rest.head?).drop i))) rest.head?)
    (hdone : done <+: sendEvents f.name.bytes (f.offset rest.head? i)
      ((f.events rest.head?).drop i) ++ stream) :
    let m := markAfter (f.name.bytes, f.offset rest.head? i) done
    InFiles m (f :: rest) ∧ heard (packetLeaves done) =
      heard ((eventsUntil m (f :: rest) i).flatMap LogEvent.leaves) := by
  intro m
  have within (h : done <+: sendEvents f.name.bytes (f.offset rest.head? i)
      ((f.events rest.head?).drop i)) : InFiles m (f :: rest) ∧ heard (packetLeaves done) =
        heard ((eventsUntil m (f :: rest) i).flatMap LogEvent.leaves) := by
    rw [hevents] at h
    rcases told_file hes h with ⟨hname, hleaves⟩ | ⟨hall, g, hg, hm⟩
    · refine ⟨⟨f, List.mem_cons_self, hname⟩, ?_⟩
      rw [eventsUntil, if_pos hname, hevents, hleaves]
    · -- All of the file was sent, and nothing of the next one.
      obtain ⟨rest', rfl⟩ : ∃ rest', rest = g :: rest' := by
        cases rest with
        | nil => cases hg
        | cons g' rest' =>
          cases hg
          exact ⟨rest', rfl⟩
      have hne : m.1 ≠ f.name.bytes := by
        rw [show m = _ from hm]
        exact (hd.head.1 g rfl).symm
      refine ⟨⟨g, by simp, by rw [show m = _ from hm]⟩, ?_⟩
      rw [eventsUntil_next hne, show m = _ from hm, hevents]
      rw [show eventsUntil (g.name.bytes, 4) (g :: rest') 0 = [] from eventsUntil_start g rest' 0,
        List.append_nil, ← sendEvents_leaves, ← hall]
  rcases List.prefix_or_prefix_of_prefix hdone (List.prefix_append _ stream) with h | ⟨done', rfl⟩
  · exact within h
  by_cases hnil : done' = []
  · subst hnil
    exact within (by simp)
  obtain ⟨hin, hheard⟩ := hrest _ done' hleads ((List.prefix_append_right_inj _).mp hdone) hnil
  have hm : m = markAfter (markAfter (f.name.bytes, f.offset rest.head? i)
      (sendEvents f.name.bytes (f.offset rest.head? i) ((f.events rest.head?).drop i))) done' :=
    markAfter_append
  have hne : m.1 ≠ f.name.bytes := by
    rw [hm]
    exact hin.ne_head hd
  obtain ⟨g, hg, hgm⟩ := hin
  refine ⟨⟨g, List.mem_cons_of_mem _ hg, by rw [hm]; exact hgm⟩, ?_⟩
  rw [eventsUntil_next hne, packetLeaves_append, sendEvents_leaves, heard_append, hheard, hm,
    List.flatMap_append, heard_append]

theorem SendsFiles.told {files : List LogFile} {stream done : List (Packet × Mark)} {m : Mark}
    (h : SendsFiles files stream) (hd : DistinctNames files) (hm : LeadsTo m files.head?)
    (hdone : done <+: stream) (hne : done ≠ []) :
    InFiles (markAfter m done) files ∧ heard (packetLeaves done) =
      heard ((eventsUntil (markAfter m done) files 0).flatMap LogEvent.leaves) := by
  induction h generalizing m done with
  | nil => exact absurd (List.prefix_nil.mp hdone) hne
  | @file f rest stream size when h ih =>
    obtain ⟨x, done, rfl⟩ := List.exists_cons_of_ne_nil hne
    obtain ⟨rfl, htail⟩ := List.cons_prefix_cons.mp hdone
    rw [heard_cons_silent (by unfold rotateTo Packet.leaves LogEvent.leaves; rfl)]
    refine told_files (i := 0) (j := 0) hd (events_stays f) rfl ?_ ?_ htail
    · intro m done' hm hdone' hne'
      exact ih hd.head.2 hm hdone' hne'
    · exact (moves_rest (f := f) f.plain hd.head.1 (4 + f.description.size) 0).2

/-- What a dump has sent says what lies in the log before the place it has reached. -/
theorem Dump.told {files : List LogFile} {i : Nat} {stream done : List (Packet × Mark)}
    {f : LogFile} (h : Dump files i stream) (hd : DistinctNames files) (hf : f ∈ files.head?)
    (hdone : done <+: stream) : heard (packetLeaves done) = heard ((eventsUntil
      (markAfter (f.name.bytes, f.offset files.tail.head? i) done) files i).flatMap LogEvent.leaves) := by
  have start (rest : List LogFile) (i : Nat) : heard ((eventsUntil
      (f.name.bytes, f.offset rest.head? i) (f :: rest) i).flatMap LogEvent.leaves) = [] := by
    rw [eventsUntil_start]
    rfl
  cases h with
  | @start g rest stream h =>
    cases hf
    by_cases hne : done = []
    · subst hne
      exact (start rest 0).symm
    · exact (h.told hd (fun g hg => .inl (by cases hg; rfl)) hdone hne).2
  | @later g rest stream i size when size' d hi hi' h =>
    cases hf
    have hfake : heard (Packet.event size (rotateTo when f)).leaves = [] := by
      unfold rotateTo Packet.leaves LogEvent.leaves
      rfl
    have hdescribe : heard (Packet.event size' (describe d)).leaves = [] := by
      unfold describe Packet.leaves LogEvent.leaves
      rfl
    match done, hdone with
    | [], _ => exact (start rest i).symm
    | [x], hdone =>
      obtain ⟨rfl, -⟩ := List.cons_prefix_cons.mp hdone
      exact (heard_cons_silent hfake).trans (start rest i).symm
    | x :: y :: done, hdone =>
      obtain ⟨rfl, hrest⟩ := List.cons_prefix_cons.mp hdone
      obtain ⟨rfl, htail⟩ := List.cons_prefix_cons.mp hrest
      rw [heard_cons_silent hfake, heard_cons_silent hdescribe]
      obtain ⟨i, rfl⟩ := Nat.exists_eq_succ_of_ne_zero hi.ne'
      have hplain : ∀ e ∈ f.body.drop i, e.content.Plain :=
        fun e he => f.plain e (List.mem_of_mem_drop he)
      refine (told_files hd (fun e he => (hplain e he).stays) (f.events_drop _ i) ?_ ?_ htail).2
      · intro m done' hm hdone' hne'
        exact h.told hd.head.2 hm hdone' hne'
      · rw [f.events_drop]
        exact (moves_rest hplain hd.head.1 _ _).2

theorem Interspersed.told {m : Mark} {xs ys done : List (Packet × Mark)} (h : Interspersed m xs ys)
    (hdone : done <+: ys) : ∃ done', done' <+: xs ∧ markAfter m done' = markAfter m done ∧
      heard (packetLeaves done') = heard (packetLeaves done) := by
  induction h generalizing done with
  | nil => exact ⟨done, hdone, rfl, rfl⟩
  | @packet m p m' xs ys h ih =>
    cases done with
    | nil => exact ⟨[], List.nil_prefix, rfl, rfl⟩
    | cons x done =>
      obtain ⟨rfl, htail⟩ := List.cons_prefix_cons.mp hdone
      obtain ⟨done', hpre, hmark, hheard⟩ := ih htail
      refine ⟨(p, m') :: done', List.cons_prefix_cons.mpr ⟨rfl, hpre⟩, hmark, ?_⟩
      rw [packetLeaves, packetLeaves, List.flatMap_cons, List.flatMap_cons, heard_append,
        heard_append]
      exact congrArg (heard p.leaves ++ ·) hheard
  | @heartbeat m xs ys size when h ih =>
    cases done with
    | nil => exact ⟨[], List.nil_prefix, rfl, rfl⟩
    | cons x done =>
      obtain ⟨rfl, htail⟩ := List.cons_prefix_cons.mp hdone
      obtain ⟨done', hpre, hmark, hheard⟩ := ih htail
      exact ⟨done', hpre, hmark, hheard.trans (heard_cons_silent rfl).symm⟩

-- ---------------------------------------------------------------------------
-- Turns without an error
-- ---------------------------------------------------------------------------

section

variable (lib os needStop)

/-- Turn after turn without an error, the last of which may be told to stop. -/
inductive Clean : Nat → List Packet → World → Turn → World → Prop
  | nil {k : Nat} {w : World} : Clean k [] w (.next k) w
  | last {k : Nat} {p : Packet} {w w' : World}
    (hrun : (turn lib os needStop k p).run w = .ok .done w') (herr : w'.error = none) :
    Clean k [p] w .done w'
  | cons {k k' : Nat} {p : Packet} {ps : List Packet} {w w' : World} {t : Turn} {w'' : World}
    (hrun : (turn lib os needStop k p).run w = .ok (.next k') w') (h : Clean k' ps w' t w'') :
    Clean k (p :: ps) w t w''

/-- A stop is seen inside a payload in the run over the packets. -/
inductive LoopCut : Nat → List Packet → World → Prop
  | here {k : Nat} {p : Packet} {ps : List Packet} {w : World} (h : p.Cut lib os needStop k w) :
    LoopCut k (p :: ps) w
  | later {k k' : Nat} {p : Packet} {ps : List Packet} {w w' : World}
    (hrun : (turn lib os needStop k p).run w = .ok (.next k') w')
    (h : LoopCut k' ps w') : LoopCut k (p :: ps) w

end

/-- A run is clean up to its end, or up to a turn that ends it with an error. -/
theorem replicationLoop_clean {packets : List Packet} {k : Nat} {t : Turn} {w w' : World}
    (hrun : (replicationLoop lib os needStop k packets).run w = .ok t w') :
    ∃ done rest t₁ w₁, packets = done ++ rest ∧ Clean lib os needStop k done w t₁ w₁ ∧
      (w' = w₁ ∨ ∃ k₁ p ps, rest = p :: ps ∧ t₁ = .next k₁ ∧
        (turn lib os needStop k₁ p).run w₁ = .ok .done w' ∧ w'.error.isSome) := by
  induction packets generalizing k w with
  | nil =>
    cases hrun
    exact ⟨[], [], _, _, rfl, .nil, .inl rfl⟩
  | cons p ps ih =>
    unfold replicationLoop at hrun
    obtain ⟨t₁, w₁, hturn, hrun⟩ := run_bind_inv hrun
    cases t₁ with
    | done =>
      cases hrun
      cases herr : w'.error with
      | none => exact ⟨[p], ps, _, _, rfl, .last hturn herr, .inl rfl⟩
      | some e => exact ⟨[], p :: ps, _, _, rfl, .nil, .inr ⟨k, p, ps, rfl, rfl, hturn, by simp⟩⟩
    | next k₁ =>
      obtain ⟨done, rest, t₂, w₂, rfl, hclean, hend⟩ := ih hrun
      exact ⟨p :: done, rest, t₂, w₂, rfl, .cons hturn hclean, hend⟩

namespace Clean

variable {done : List Packet} {t : Turn}

theorem run (h : Clean lib os needStop k done w t w') (he : w.error = none) :
    (replicationLoop lib os needStop k done).run w = .ok t w' ∧ w'.error = none := by
  induction h with
  | nil => exact ⟨rfl, he⟩
  | last hrun herr =>
    unfold replicationLoop
    exact ⟨run_bind_ok hrun _, herr⟩
  | cons hrun h ih =>
    obtain ⟨hloop, herr⟩ := ih (turn_next_error hrun)
    unfold replicationLoop
    exact ⟨(run_bind_ok hrun _).trans hloop, herr⟩

theorem handledOf (h : Clean lib os needStop k done w t w')
    (hcut : ¬ LoopCut lib os needStop k done w) :
    RplListener.handledOf (loopVisits lib os needStop k done w) = done.flatMap Packet.leaves := by
  induction h with
  | nil => rfl
  | last hrun herr =>
    unfold loopVisits
    rw [hrun, List.append_nil, (Packet.handledOf_visits (fun h => hcut (.here h)) hrun herr).1]
    simp
  | cons hrun h ih =>
    unfold loopVisits
    rw [hrun, handledOf_append, List.flatMap_cons, ih fun h => hcut (.later hrun h),
      (Packet.handledOf_visits (fun h => hcut (.here h)) hrun (turn_next_error hrun)).1]

theorem placedAt {packets : List Packet} (h : Clean lib os needStop k packets w t w')
    {sent : List (Packet × Mark)} {m : Mark} (hd : packets = sent.map Prod.fst) (hm : Moves m sent)
    (he : w.error = none) (hplace : w.obj.PlacedAt m) : w'.obj.PlacedAt (markAfter m sent) := by
  induction h generalizing sent m with
  | nil =>
    obtain rfl := List.map_eq_nil_iff.mp hd.symm
    exact hplace
  | last hrun herr =>
    cases sent with
    | nil => cases hd
    | cons x xs =>
      obtain ⟨rfl, hxs⟩ := List.cons.inj hd
      obtain rfl := List.map_eq_nil_iff.mp hxs.symm
      exact turn_move hm.1 he hplace hrun herr
  | cons hrun h ih =>
    cases sent with
    | nil => cases hd
    | cons x xs =>
      obtain ⟨rfl, hxs⟩ := List.cons.inj hd
      have herr := turn_next_error hrun
      exact @ih xs x.2 hxs hm.2 herr (turn_move hm.1 he hplace hrun herr)

end Clean

def Packet.breaks : Packet → Bool
  | .fetchError _ | .eof | .failed .. => true
  | _ => false

theorem Clean.not_breaks {packets : List Packet} {t : Turn}
    (h : Clean lib os needStop k packets w t w') : ∀ p ∈ packets, p.breaks = false := by
  have breaks_error {k : Nat} {p : Packet} {t : Turn} {w w' : World} (hp : p.breaks = true)
      (hrun : (turn lib os needStop k p).run w = .ok t w') : w'.error ≠ none := by
    cases p with
    | fetchError | eof | failed => cases hrun; exact Option.some_ne_none _
    | heartbeat | event => cases hp
  induction h with
  | nil => simp
  | last hrun herr =>
    intro p hp
    obtain rfl := List.mem_singleton.mp hp
    by_contra hb
    exact breaks_error (by simpa using hb) hrun herr
  | cons hrun _ ih =>
    intro p hp
    rcases List.mem_cons.mp hp with rfl | hp
    · by_contra hb
      exact breaks_error (by simpa using hb) hrun (turn_next_error hrun)
    · exact ih p hp

theorem LoopCut.mono {done rest : List Packet} (h : LoopCut lib os needStop k done w) :
    LoopCut lib os needStop k (done ++ rest) w := by
  induction h with
  | here h => exact .here h
  | later hrun _ ih => exact .later hrun ih

theorem LoopCut.exists {packets : List Packet} (h : LoopCut lib os needStop k packets w) :
    ∃ p ∈ packets, ∃ k w, p.Cut lib os needStop k w := by
  induction h with
  | here h => exact ⟨_, List.mem_cons_self, _, _, h⟩
  | later _ _ ih =>
    obtain ⟨p, hp, hc⟩ := ih
    exact ⟨p, List.mem_cons_of_mem _ hp, hc⟩

-- ---------------------------------------------------------------------------
-- The turn that ends with an error
-- ---------------------------------------------------------------------------

theorem turn_event_error {size : Nat} {ev : LogEvent} {t : Turn}
    (hrun : (turn lib os needStop k (.event size ev)).run w = .ok t w') (herr : w'.error.isSome) :
    ∃ j, (processEvent lib os needStop k ev).run (w.withSize size) = .ok j w' := by
  unfold turn at hrun
  obtain ⟨_, _, hsize, hrun⟩ := run_bind_inv hrun
  cases hsize
  obtain ⟨j, w₁, hev, hrun⟩ := run_bind_inv hrun
  rw [run_get_bind] at hrun
  split at hrun
  case isTrue =>
    cases hrun
    exact ⟨j, hev⟩
  case isFalse h₁ =>
    obtain ⟨_, w₂, hadvance, hrun⟩ := run_bind_inv hrun
    cases hadvance
    cases hrun
    exact absurd herr h₁

theorem turn_error_placedAt {p : Packet} {m : Mark} {t : Turn}
    (hp : p.breaks = true ∨ ∃ m', Move m p m') (he : w.error = none) (h : w.obj.PlacedAt m)
    (hrun : (turn lib os needStop k p).run w = .ok t w') (herr : w'.error.isSome) :
    w'.obj.PlacedAt m := by
  have still {size : Nat} {ev : LeafEvent} (hmoves : (Handled.event ev).moves = true)
      (hrun : (turn lib os needStop k (.event size (.leaf ev))).run w = .ok t w') : False := by
    obtain ⟨j, hev⟩ := turn_event_error hrun herr
    have := handleLeaf_moves (w := w.withSize size) he (processEvent_leaf_inv hev) herr
    rw [hmoves] at this
    cases this
  rcases hp with hb | ⟨m', hm⟩
  · cases p with
    | fetchError | eof =>
      cases hrun
      exact h
    | failed size desc =>
      cases hrun
      exact @Listener.PlacedAt.of_place _ _ _ size h rfl
    | heartbeat | event => cases hb
  · cases hm with
    | same | rotate | artificial | description => exact (still rfl hrun).elim
    | @event name pos size ev hplain =>
      obtain ⟨j, hev⟩ := turn_event_error hrun herr
      exact h.of_place (processEvent_place (w := w.withSize (size + 1)) hplain he hev)
    | @heartbeat m size when =>
      unfold turn at hrun
      obtain ⟨_, _, hsize, hrun⟩ := run_bind_inv hrun
      cases hsize
      obtain ⟨_, w₁, hheart, hrun⟩ := run_bind_inv hrun
      have hstep := (@handle_step lib os (w.withSize size) he (.heartbeat when)).ok hheart
      have hw₁ : w₁ = w' := by
        rw [run_get_bind] at hrun
        split at hrun <;> exact (run_pure_inv hrun).2
      subst hw₁
      exact h.of_place (hstep.place rfl)

theorem Delivery.calls_prefix {ev : RowsLogEvent2} {map : TableMapLogEvent}
    {d : Option ReplLogXRows} (h : Delivery w ev map d w') : w.calls <+: w'.calls := by
  rw [h.calls, List.append_assoc]
  exact List.prefix_append _ _

theorem Step.calls_prefix {x : Handled} (h : Step os w x w') : w.calls <+: w'.calls := by
  cases h with
  | commits | xid | xaPrepareLog | other | heartbeat => exact List.prefix_append _ _
  | rows h =>
    cases h with
    | early | noMap | unwatched => exact List.prefix_rfl
    | delivery _ _ _ hd => exact hd.calls_prefix
  | noMem | opens | closes | query | formatDescription | tableMap | rotate | noDescription =>
    exact List.prefix_rfl

theorem calls_invariant (cs : List Call) :
    Invariant lib os (fun w _ => cs <+: w.calls) (fun _ => True) fun _ _ _ => True where
  rpl _ h := h
  fail _ h := h
  step x he hw _ :=
    (handle_step he x).mono (fun _ _ h => hw.trans h.calls_prefix) fun _ _ _ => trivial
  memory _ := trivial

-- ---------------------------------------------------------------------------
-- Nothing is lost
-- ---------------------------------------------------------------------------

/-- Every rows event of a watched table among the events was passed to `on_row`,
one call after the other. -/
def Passed (pairs : List (List UInt8 × List UInt8)) (s : StreamState) (evs : List LogEvent)
    (before after : List Call) : Prop :=
  ∃ cs cs', after = before ++ cs ++ cs' ∧
    List.Forall₂ (fun x d => ReplLogXRows.Of x d.1 d.2) (cs.filterMap Call.row?)
      (watchedRows pairs s (evs.flatMap LogEvent.leaves))

theorem watchedRows_heard (pairs : List (List UInt8 × List UInt8)) (s : StreamState)
    (xs : List Handled) : watchedRows pairs s (heard xs) = watchedRows pairs s xs := by
  unfold watchedRows heard
  rw [Transducer.trace_filter]
  intro x hx s
  cases x with
  | heartbeat => exact ⟨rfl, rfl⟩
  | event ev =>
    cases ev with
    | formatDescription | rotate => exact ⟨rfl, rfl⟩
    | query | tableMap | rows | xid | xaPrepareLog | other => cases hx

theorem clean_sent {pre : List (Packet × Mark)} {broken done rest : List Packet} {t : Turn}
    (hclean : Clean lib os needStop k done w t w') (hbroken : ∀ p ∈ broken, p.breaks = true)
    (h : pre.map Prod.fst ++ broken = done ++ rest) : ∃ sent left, pre = sent ++ left ∧
      done = sent.map Prod.fst ∧ rest = left.map Prod.fst ++ broken := by
  rcases List.append_eq_append_iff.mp h with ⟨c, hdone, hc⟩ | ⟨c, hpre, hrest⟩
  · have hnil : c = [] := by
      refine List.eq_nil_iff_forall_not_mem.mpr fun p hp => ?_
      have hb := hclean.not_breaks p (by rw [hdone]; exact List.mem_append_right _ hp)
      rw [hbroken p (by rw [hc]; exact List.mem_append_left _ hp)] at hb
      cases hb
    subst hnil
    exact ⟨pre, [], by simp, by simpa using hdone, by simpa using hc.symm⟩
  · obtain ⟨sent, left, rfl, rfl, rfl⟩ := List.map_eq_append_iff.mp hpre
    exact ⟨sent, left, rfl, rfl, hrest⟩

/-- As long as no stop is seen inside a payload, a thread in `INPROCESS` that ends
anywhere in a dump, with an error or without, has passed on every change before
the place it reports. -/
theorem replicationLoop_resumable {files : List LogFile} {f : LogFile} {i : Nat}
    {dump stream pre : List (Packet × Mark)} {broken : List Packet} {t : Turn}
    (hd : DistinctNames files) (hf : f ∈ files.head?) (hdump : Dump files i dump)
    (hbeats : Interspersed (f.name.bytes, f.offset files.tail.head? i) dump stream)
    (hpre : pre <+: stream) (hbroken : ∀ p ∈ broken, p.breaks = true) (he : w.error = none)
    (hs : w.obj.state = .inprocess) (hw : w.obj.Sane) (hrow : w.obj.onRow = true)
    (hplace : w.obj.PlacedAt (f.name.bytes, f.offset files.tail.head? i))
    (hcut : ¬ LoopCut lib os needStop k (pre.map Prod.fst ++ broken) w)
    (hrun : (replicationLoop lib os needStop k (pre.map Prod.fst ++ broken)).run w = .ok t w') :
    Passed w.obj.pairs w.obj.streamState (eventsUntil w'.obj.mark files i) w.calls w'.calls := by
  obtain ⟨done, rest, t₁, w₁, hsplit, hclean, hend⟩ := replicationLoop_clean hrun
  obtain ⟨sent, left, rfl, rfl, rfl⟩ := clean_sent hclean hbroken hsplit
  have hmoves : Moves (f.name.bytes, f.offset files.tail.head? i) (sent ++ left) := by
    obtain ⟨post, rfl⟩ := hpre
    exact (moves_append.mp (hbeats.moves (hdump.moves hd hf))).1
  obtain ⟨hsent, hleft⟩ := moves_append.mp hmoves
  have hplace₁ := hclean.placedAt rfl hsent he hplace
  obtain ⟨hloop, herr₁⟩ := hclean.run he
  have hhandled := hclean.handledOf fun h => hcut (by
    rw [List.map_append, List.append_assoc]
    exact h.mono)
  -- The place that is reported.
  have hmark : w'.obj.mark = markAfter (f.name.bytes, f.offset files.tail.head? i) sent ∧
      w₁.calls <+: w'.calls := by
    rcases hend with rfl | ⟨k₁, p, ps, hrest, rfl, hturn, herr⟩
    · exact ⟨hplace₁.mark, List.prefix_rfl⟩
    · refine ⟨(turn_error_placedAt ?_ herr₁ hplace₁ hturn herr).mark, ?_⟩
      · cases left with
        | nil => exact .inl (hbroken p (by rw [show broken = _ from hrest]; simp))
        | cons x xs =>
          obtain ⟨rfl, -⟩ := List.cons.inj hrest
          exact .inr ⟨_, hleft.1⟩
      · exact ((calls_invariant w₁.calls).turn (h := []) k₁ p herr₁ List.prefix_rfl
          fun _ _ => trivial).ok hturn
  obtain ⟨done', hdone', hmark', hheard⟩ := hbeats.told ((List.prefix_append sent left).trans hpre)
  have htold := hdump.told hd hf hdone'
  rw [hheard, hmark', ← hmark.1] at htold
  obtain ⟨-, cs, hcs, htells⟩ := replicationLoop_tells he (hw.at_streamState hs) hloop herr₁
  obtain ⟨cs', hcs'⟩ := hmark.2
  refine ⟨cs, cs', by rw [← hcs', hcs], ?_⟩
  rw [← watchedRows_heard, ← htold, watchedRows_heard]
  have hrows := htells.rows hrow
  rw [hhandled, List.flatMap_map] at hrows
  exact hrows

def stopAfterRow : Nat → Bool := fun k => 3 ≤ k

theorem sampleDump_not_cut : ¬ LoopCut sampleLibrary sampleAllocator stopAfterRow 0
    (sampleDump.map Prod.fst ++ []) (sampleWorld true true true) := by
  intro h
  obtain ⟨p, hp, k, w, hc⟩ := h.exists
  simp only [sampleDump, samplePacket, describe, List.map_cons, List.map_nil, List.append_nil,
    List.mem_cons, List.not_mem_nil, or_false] at hp
  rcases hp with rfl | rfl | rfl | rfl | rfl | rfl | rfl | rfl <;> cases hc

theorem replicationLoop_resumable_sample : ∃ t w',
    (replicationLoop sampleLibrary sampleAllocator stopAfterRow 0
      (sampleDump.map Prod.fst ++ [])).run (sampleWorld true true true) = .ok t w' ∧
    Passed (sampleWorld true true true).obj.pairs (sampleWorld true true true).obj.streamState
      (eventsUntil w'.obj.mark sampleFiles 1) [] w'.calls := by
  obtain ⟨t, w', hrun, -⟩ := exists_of_returned (show returned (fun _ _ => true)
    ((replicationLoop sampleLibrary sampleAllocator stopAfterRow 0
      (sampleDump.map Prod.fst ++ [])).run (sampleWorld true true true)) = true by decide +kernel)
  exact ⟨t, w', hrun, replicationLoop_resumable sampleFiles_distinct rfl sampleDump_dump
    (.refl _ _) List.prefix_rfl (by simp) rfl rfl sampleWorld_sane rfl sampleWorld_placedAt
    sampleDump_not_cut hrun⟩

def cutPayload : Payload := .cons (.leaf (.tableMap 6 sampleTable)) (.cons (.leaf sampleRows) .nil)

theorem cutPayload_plain : (LogEvent.transactionPayload 5 cutPayload).Plain := by
  simp [LogEvent.Plain, cutPayload, sampleRows, LogEvent.leaves, Payload.leaves, Handled.moves]

def cutFiles : List LogFile :=
  [{ name := sampleName
     description := sampleDescription
     body := [⟨64, .transactionPayload 5 cutPayload, by decide⟩]
     rotate := none
     plain := by simpa using cutPayload_plain }]

def cutDump : List (Packet × Mark) :=
  [(.event 28 (.leaf (.rotate 0 (ascii "b.000001"))), sampleMark),
    (.event 98 (describe (3, ⟨false⟩)), sampleMark),
    (.event 65 (.transactionPayload 5 cutPayload), (ascii "b.000001", 220))]

/-- A stop is seen after the table map: the position is after the row, which was
not passed on. -/
theorem cutDump_not_passed : Dump cutFiles 1 cutDump ∧ ∃ t w',
    (replicationLoop sampleLibrary sampleAllocator (fun k => 2 ≤ k) 0
      (cutDump.map Prod.fst)).run (sampleWorld true true true) = .ok t w' ∧ w'.error = none ∧
    ¬ Passed (sampleWorld true true true).obj.pairs (sampleWorld true true true).obj.streamState
      (eventsUntil w'.obj.mark cutFiles 1) [] w'.calls := by
  refine ⟨.later 28 0 98 (3, ⟨false⟩) (by decide) (by decide) .nil, ?_⟩
  obtain ⟨t, w', hrun, h⟩ := exists_of_returned (show returned
    (fun _ w' => w'.error.isNone && (w'.calls == [] && w'.obj.mark == (ascii "b.000001", 220)))
    ((replicationLoop sampleLibrary sampleAllocator (fun k => 2 ≤ k) 0
      (cutDump.map Prod.fst)).run (sampleWorld true true true)) = true by decide +kernel)
  obtain ⟨herr, hcalls, hmark⟩ : w'.error = none ∧ w'.calls = [] ∧ w'.obj.mark = _ := by
    simpa using h
  refine ⟨t, w', hrun, herr, ?_⟩
  rintro ⟨cs, cs', hcs, hrows⟩
  obtain ⟨rfl, rfl⟩ : cs = [] ∧ cs' = [] := by simpa [hcalls] using hcs
  rw [hmark] at hrows
  exact absurd hrows.length_eq (by decide +kernel)

end RplListener
