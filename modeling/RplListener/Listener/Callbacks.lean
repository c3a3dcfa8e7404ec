import RplListener.Listener.Visits

/-!
# Callbacks that were not registered

Every callback is called under a test of its pointer, but for one: the
heartbeat of a `COMMIT` that was reported as the end of a transaction.
-/

namespace RplListener

open Bytes Refine

variable {lib : Library} {os : Allocator} {needStop : Nat → Bool} {w : World}

/-- A `COMMIT` is found that closes a reported transaction, and `on_heartbeat` is
NULL. -/
def Visit.nullHeartbeat (os : Allocator) : Visit → Bool
  | (.event (.query _ query), w) =>
    decide (closesTransaction query) && os.grant w.heap.asked && w.obj.closing && !w.obj.onHeartbeat
  | _ => false

theorem nullHeartbeat_of_step {x : Handled} {w' : World} (h : Step os w x w') :
    Visit.nullHeartbeat os (x, w) = false := by
  cases h with
  | noMem hg => simp [Visit.nullHeartbeat, hg]
  | opens hg ho =>
    simp [Visit.nullHeartbeat, show ¬ closesTransaction _ from fun hc => not_opens_of_closes hc ho]
  | commits hg hc hclose hb => simp [Visit.nullHeartbeat, hb]
  | closes hg hc hclose => simp [Visit.nullHeartbeat, hclose]
  | query hg ho hc => simp [Visit.nullHeartbeat, hc]
  | _ => rfl

theorem nullHeartbeat_of_broken {x : Handled} {c : Crash} {w' : World} (h : Broken os w x c w') :
    c = .nullCall ↔ Visit.nullHeartbeat os (x, w) = true := by
  cases h with
  | nullHeartbeat hg hc hclose hb => simp [Visit.nullHeartbeat, hg, hc, hclose, hb]
  | rows => simp [Visit.nullHeartbeat]

/-- A run that goes on has met no such `COMMIT`, and a crash is a NULL call if
there was one. -/
theorem nullHeartbeat_invariant :
    Invariant lib os (fun _ h => ∀ v ∈ h, Visit.nullHeartbeat os v = false) (fun _ => True)
      fun c _ h => c = .nullCall ↔ ∃ v ∈ h, Visit.nullHeartbeat os v = true where
  rpl _ h := h
  fail _ h := h
  step := by
    intro w h x he hw _
    refine (handle_step he x).mono ?_ ?_
    · intro _ w' hstep
      exact List.forall_mem_append.mpr ⟨hw, by simpa using nullHeartbeat_of_step hstep⟩
    · intro c w' hbroken
      have hno : ¬ ∃ v ∈ h, Visit.nullHeartbeat os v = true := by simpa using hw
      rw [nullHeartbeat_of_broken hbroken]
      simp only [List.mem_append, List.mem_singleton, or_and_right, exists_or, exists_eq_left, hno,
        false_or]
  memory := by
    intro w h hw
    simpa using hw

/-- No callback is called through a NULL pointer, exactly when `on_heartbeat` is
registered or no reported transaction is closed by a `COMMIT`. -/
theorem replicationLoop_no_nullCall_iff (packets : List Packet) (k : Nat) (he : w.error = none) :
    (∀ w', (replicationLoop lib os needStop k packets).run w ≠ .error .nullCall w') ↔
      ∀ v ∈ loopVisits lib os needStop k packets w, Visit.nullHeartbeat os v = false := by
  have hrun : Triple (replicationLoop lib os needStop k packets) w _ _ :=
    nullHeartbeat_invariant.replicationLoop (h := []) packets k he (by simp) fun _ _ => trivial
  rw [List.nil_append] at hrun
  constructor
  · intro hno v hv
    cases h : (replicationLoop lib os needStop k packets).run w with
    | ok t w' => exact hrun.ok h v hv
    | error c w' =>
      by_contra hn
      have hc : c = .nullCall := (hrun.error h).mpr ⟨v, hv, by simpa using hn⟩
      exact hno w' (hc ▸ h)
  · intro hall w' h
    obtain ⟨v, hv, hn⟩ := (hrun.error h).mp rfl
    rw [hall v hv] at hn
    cases hn

def samplePackets (close : LeafEvent) : List Packet :=
  [.query 5 (ascii "BEGIN"), .tableMap 6 sampleTable, sampleRows, close].map samplePacket

theorem replicationLoop_no_nullCall_sample : ¬ ∃ w', (replicationLoop sampleLibrary sampleAllocator
    (fun _ => false) 0 (samplePackets (.xid 8))).run (sampleWorld true false true) =
      .error .nullCall w' := by
  rintro ⟨w', h⟩
  exact (replicationLoop_no_nullCall_iff _ 0 rfl).mpr (by decide +kernel) w' h

/-- `COMMIT` as a query, with `on_row` and `on_transaction` registered. -/
theorem samplePackets_nullCall : ¬ ∀ w', (replicationLoop sampleLibrary sampleAllocator
    (fun _ => false) 0 (samplePackets (.query 8 (ascii "COMMIT")))).run
      (sampleWorld true false true) ≠ .error .nullCall w' := by
  intro h
  obtain ⟨w', hrun⟩ := exists_of_halted (show halted ((replicationLoop sampleLibrary sampleAllocator
    (fun _ => false) 0 (samplePackets (.query 8 (ascii "COMMIT")))).run
      (sampleWorld true false true)) = some .nullCall by decide +kernel)
  exact h w' hrun

end RplListener
