import NestPlayground.L4Pipeline.InFlight

/-!
# The two halves of an in-flight entry

A job is in the in-flight queue exactly when it has a metadata hash; deadline
and score agree, and the names are those of the latest dequeue. No order of the
four scripts breaks this: a late ack removes both halves, a late heartbeat
finds no score and writes nothing, recovery removes both halves of every job of
its batch.
-/
namespace NestPlayground.L5.InFlightBooks
open L1 L3 L4

/-- In every reachable state of the four scripts. -/
theorem in_flight_books (f : Flight) (h : scripts.Reachable f) (j : JobId) :
    (f.store.inFlightMeta j ≠ {} ↔ j ∈ f.store.inFlightQueue) ∧
    ∀ d, f.store.inFlightQueue.score j = some d → (f.store.inFlightMeta j).deadline = some d ∧
      ∃ e, latest j f.handed = some e ∧ (f.store.inFlightMeta j).workerId = some e.workerId ∧
        (f.store.inFlightMeta j).instanceId = some e.instanceId := by
  have hb := booked_reachable h j
  refine ⟨⟨fun hne => ?_, fun hj he => ?_⟩, hb.present⟩
  · by_contra hj
    exact hne (hb.absent hj)
  · obtain ⟨d, hd⟩ := Core.ZSet.mem_iff_score.mp hj
    have hdeadline := (hb.present d hd).1
    rw [he] at hdeadline
    cases hdeadline

/-- The id `j` is queued twice: it is handed out, recovered after its deadline
and handed out again; the heartbeat of the first worker comes last. -/
def handedTwice : Flight :=
  (Script.extendDeadline "j" 100 300).run ((Script.reliableDequeue 100 "worker-1" "i" 0 "g" 250).run
    ((Script.recoverOrphans 200 10 3).run ((Script.reliableDequeue 100 "worker-0" "i" 0 "g" 50).run
      ⟨{ Store.empty with readyQueue := ["j", "j"] }, []⟩)))

theorem in_flight_books_twice : scripts.Reachable handedTwice ∧
    handedTwice.store.inFlightQueue.score "j" = some 400 ∧
    (handedTwice.store.inFlightMeta "j").workerId = some "worker-1" ∧
    (handedTwice.store.inFlightMeta "j" ≠ {} ↔ "j" ∈ handedTwice.store.inFlightQueue) := by
  have hr : scripts.Reachable handedTwice :=
    .step (.step (.step (.step (.init ⟨rfl, fun _ => rfl, rfl⟩) .script) .script) .script) .script
  have hscore : handedTwice.store.inFlightQueue.score "j" = some 400 := by decide +kernel
  obtain ⟨hhalves, hpresent⟩ := in_flight_books handedTwice hr "j"
  obtain ⟨-, e, he, hworker, -⟩ := hpresent 400 hscore
  have hlatest : latest "j" handedTwice.handed = some ⟨"j", "worker-1", "i"⟩ := by decide +kernel
  cases he.symm.trans hlatest
  exact ⟨hr, hscore, hworker, hhalves⟩

end NestPlayground.L5.InFlightBooks
