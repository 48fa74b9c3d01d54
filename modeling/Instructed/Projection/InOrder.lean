import Instructed.Processing.InOrder
import Instructed.Projection.ReadYourWrites

/-!
# A projection sees its partitions in order

Workers that lose their claims go on, and events are handled again. Still, no handler is called on an
event before some handler has returned on each earlier event of its partition.

* `handled_in_order`: **every earlier event of the partition of an item that was taken up was handled**.
-/

namespace Instructed.Projection

open Sql Relational Transition Routing Processing

section InOrder

variable {D : RoutingDefinition} {number : JsNumber} {w : Processing.World Unit Unit Empty}
  {item : Item}

/-- A finished event of a partition was handled. -/
theorem returned_of_finished (hw : Reachable (Processing.system D (adapter D) number) w) {p : String}
    {e : RecordedEvent} (he : e ∈ w.store.log)
    (h : Queue.Finished w.routing.queue.events (itemKey D ⟨p, e.eventNumber⟩)) :
    (⟨p, e.eventNumber⟩, e) ∈ w.returned := by
  have hc : w.store.Consistent := (grounded_of_reachable adapter_untargeted hw).consistent.store
  obtain ⟨e', he', hn, hmem⟩ := finished_handled hw _ h
  have hnumber : (e'.eventNumber : ℤ) = e.eventNumber := hn
  rwa [hc.log_numbered.eventNumber.eq_of_pos_eq he' he (by omega)] at hmem

/-- What was given to a worker comes after the earlier events of its partition. -/
theorem returned_before (hD : D.stream = "$all")
    (hw : Reachable (Processing.system D (adapter D) number) w)
    (hbound : w.store.log.length < 2 ^ 53) (h : Given D w item) {e : RecordedEvent} {start : ℕ}
    (hstart : w.routing.start = some start) (he : e ∈ w.store.log) (hlt : start < e.eventNumber)
    (hless : (e.eventNumber : ℤ) < item.eventNumber)
    (hroute : D.routeFn e = .partition item.partitionKey) :
    (⟨item.partitionKey, e.eventNumber⟩, e) ∈ w.returned := by
  apply returned_of_finished hw he
  exact h.finished_before adapter_untargeted hD hw hbound hstart he hlt hless hroute

/-- **A projection's handlers see each partition in order**: an event is at hand only after a handler has
    returned on every earlier event of its partition. -/
theorem handled_in_order (hD : D.stream = "$all")
    (hw : Reachable (Processing.system D (adapter D) number) w)
    (hbound : w.store.log.length < 2 ^ 53) (h : TakenUp w item) :
    ∃ start, w.routing.start = some start ∧ ∀ e ∈ w.store.log, start < e.eventNumber →
      (e.eventNumber : ℤ) < item.eventNumber → D.routeFn e = .partition item.partitionKey →
        (⟨item.partitionKey, e.eventNumber⟩, e) ∈ w.returned := by
  have hgiven := h.given adapter_untargeted hD hw hbound
  obtain ⟨row, start, -, -, hstart, -⟩ := hgiven.progress adapter_untargeted hD hw hbound
  exact ⟨start, hstart, fun e he hlt hless hroute =>
    returned_before hD hw hbound hgiven hstart he hlt hless hroute⟩

end InOrder

/-! ## A run -/

section Example

/-- The routing worker `r` routes one more event of the stream. -/
def sampleRoute (digit : String) : List (Processing.Op Unit HandlerOutcome) :=
  .routing (.queue (.append 1 ⟨some "order-1", some "any", none, some (.arr [.obj
    [("event_id", .str ("00000000-0000-0000-0000-00000000000" ++ digit)),
      ("event_type", .str "opened"), ("data", .null)]])⟩)) ::
    List.replicate 7 (.routing (.advance "r" 10 .answered))

/-- A worker goes on. -/
def sampleTurns (id : String) (n : ℕ) (handler : HandlerOutcome) :
    List (Processing.Op Unit HandlerOutcome) :=
  List.replicate n (.advance id ⟨20, .answered, fun _ => false, .retryIn, handler⟩)

/-- Worker `p` handles the first event; the second is handed out to worker `q`. -/
def sampleHandedOut : List (Processing.Op Unit HandlerOutcome) :=
  .routing (.start "r" ⟨10, 5, none⟩) :: sampleRoute "1" ++ .start "p" 5 () :: sampleTurns "p" 6 .returned ++
    sampleRoute "2" ++ .start "q" 5 () :: sampleTurns "q" 4 .returned

theorem handled_in_order_sampleHandedOut : ∃ w,
    (Processing.system (sampleDefinition "$all") (adapter (sampleDefinition "$all")) sampleNumber).run
        Processing.World.install sampleHandedOut = some w ∧ TakenUp w ⟨"order-1", 2⟩ ∧
      ∃ start, w.routing.start = some start ∧ ∀ e ∈ w.store.log, start < e.eventNumber →
        (e.eventNumber : ℤ) < 2 → (sampleDefinition "$all").routeFn e = .partition "order-1" →
          (⟨"order-1", e.eventNumber⟩, e) ∈ w.returned := by
  have hrun : ((Processing.system (sampleDefinition "$all") (adapter (sampleDefinition "$all"))
      sampleNumber).run Processing.World.install sampleHandedOut).bind (fun w =>
        (w.workers "q").map fun wk => (wk.phase.item?, decide (w.store.log.length < 2 ^ 53))) =
          some (some ⟨"order-1", 2⟩, true) := by
    decide +kernel
  obtain ⟨w, hw, hrest⟩ := Option.bind_eq_some_iff.mp hrun
  obtain ⟨wk, hwk, heq⟩ := Option.map_eq_some_iff.mp hrest
  obtain ⟨hitem, hbound⟩ := Prod.mk.inj heq
  have htaken : TakenUp w ⟨"order-1", 2⟩ := Or.inl ⟨"q", wk, hwk, hitem⟩
  exact ⟨w, hw, htaken,
    handled_in_order rfl (.run (.init rfl) hw) (of_decide_eq_true hbound) htaken⟩

end Example

end Instructed.Projection
