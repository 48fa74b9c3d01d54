import Instructed.Lib.Consecutive
import Instructed.Store.Append

/-!
# `read_stream` and `read_all`

`sql/instructed.sql`, lines 884–955 and 993–1045. A pure read: the procedures map the store to the
returned rows or the raised error.

* `Store.joinStream`, `Store.joinAll`: the joins, for one row of `stream_events`;
* `page`: `where position >= from order by position limit qty`;
* `readStream`, `readAll`: the procedures.
-/

namespace Instructed

open Sql Relational Numbering

/-- A row returned by `read_stream` and `read_all`. -/
structure RecordedEvent where
  eventId : Uuid
  eventNumber : ℕ
  streamUuid : String
  streamVersion : ℕ
  eventType : String
  causationId : Option Uuid
  correlationId : Option Uuid
  data : Json
  metadata : Option Json
  createdAt : Timestamp

/-- The selected columns of an `events` row with the two positions and the stream's name. -/
def EventRow.recorded (e : EventRow) (eventNumber : ℕ) (streamUuid : String)
    (streamVersion : ℕ) : RecordedEvent where
  eventId := e.eventId
  eventNumber := eventNumber
  streamUuid := streamUuid
  streamVersion := streamVersion
  eventType := e.eventType
  causationId := e.causationId
  correlationId := e.correlationId
  data := e.data
  metadata := e.metadata
  createdAt := e.createdAt

section Recorded

variable (e : EventRow) (en sv : ℕ) (u : String)

@[simp] theorem recorded_eventId : (e.recorded en u sv).eventId = e.eventId := rfl
@[simp] theorem recorded_eventNumber : (e.recorded en u sv).eventNumber = en := rfl
@[simp] theorem recorded_streamUuid : (e.recorded en u sv).streamUuid = u := rfl
@[simp] theorem recorded_streamVersion : (e.recorded en u sv).streamVersion = sv := rfl

end Recorded

namespace Store

/-- The joins of `read_stream` (lines 932–936), for the row `se` of `stream_events`. -/
def joinStream (st : Store) (u : String) (se : StreamEventRow) : Option RecordedEvent := do
  let e ← st.events.find? se.eventId
  let allSe ← st.streamEvents.find? (se.eventId, 0)
  return e.recorded allSe.streamVersion u se.streamVersion

/-- The joins of `read_all` (lines 1034–1038). -/
def joinAll (st : Store) (se : StreamEventRow) : Option RecordedEvent := do
  let e ← st.events.find? se.eventId
  let orig ← st.streams.find? se.originalStreamId
  return e.recorded se.streamVersion orig.streamUuid se.originalStreamVersion

/-- The joined rows of the stream `id`, whose name is `u`. -/
def streamRows (st : Store) (id : ℕ) (u : String) : List RecordedEvent :=
  (st.links id).filterMap (st.joinStream u)

/-- The joined rows of `$all`. -/
def allRows (st : Store) : List RecordedEvent := (st.links 0).filterMap st.joinAll

end Store

/-- `where position >= fromPos order by position limit qty`. -/
def page (position : RecordedEvent → ℕ) (fromPos qty : ℕ) (rows : List RecordedEvent) :
    List RecordedEvent :=
  ((rows.filter fun e => decide (fromPos ≤ position e)).mergeSort fun a b =>
    decide (position a ≤ position b)).take qty

/-- `read_stream`. -/
def readStream (streamUuid : Option String) (fromStreamVersion qty : Option ℤ) (st : Store) :
    Except SqlError (List RecordedEvent) :=
  match streamUuid with
  | none => raise .invalidParameterValue "read_stream: p_stream_uuid is null"
  | some u =>
    if u = "$all" then
      raise .IS005 "read_stream: stream_uuid '$all' is reserved; use read_all"
    else match fromStreamVersion with
    | none => raise .invalidParameterValue
        "read_stream: p_from_stream_version must be a non-negative integer"
    | some fromV =>
      if fromV < 0 then raise .invalidParameterValue
        "read_stream: p_from_stream_version must be a non-negative integer"
      else match qty with
      | none => raise .invalidParameterValue "read_stream: p_qty must be a positive integer"
      | some q =>
        if q ≤ 0 then raise .invalidParameterValue
          "read_stream: p_qty must be a positive integer"
        else match st.streamByUuid u with
        | none => raise .IS003 ("read_stream: stream " ++ u ++ " not found")
        | some row =>
          .ok (page (·.streamVersion) fromV.toNat q.toNat (st.streamRows row.streamId u))

/-- `read_all`. -/
def readAll (fromEventNumber qty : Option ℤ) (st : Store) :
    Except SqlError (List RecordedEvent) :=
  match fromEventNumber with
  | none => raise .invalidParameterValue
      "read_all: p_from_event_number must be a non-negative integer"
  | some fromN =>
    if fromN < 0 then raise .invalidParameterValue
      "read_all: p_from_event_number must be a non-negative integer"
    else match qty with
    | none => raise .invalidParameterValue "read_all: p_qty must be a positive integer"
    | some q =>
      if q ≤ 0 then raise .invalidParameterValue "read_all: p_qty must be a positive integer"
      else .ok (page (·.eventNumber) fromN.toNat q.toNat st.allRows)

/-- Rows at the positions `1, 2, …`: a page is a segment of the list. -/
theorem page_of_consecutive {position : RecordedEvent → ℕ} {rows : List RecordedEvent}
    (h : Consecutive position 1 rows) (fromPos qty : ℕ) :
    page position fromPos qty rows = (rows.drop (fromPos - 1)).take qty := by
  have hsorted : (rows.drop (fromPos - 1)).Pairwise fun a b =>
      (decide (position a ≤ position b)) = true :=
    (h.pairwise_lt.sublist (List.drop_sublist _ _)).imp fun hlt => by
      simpa using Nat.le_of_lt hlt
  rw [page, h.filter_ge, List.mergeSort_of_pairwise hsorted]

end Instructed
