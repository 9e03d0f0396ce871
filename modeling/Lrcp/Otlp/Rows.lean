import Lrcp.Otlp.Attributes
import Lrcp.Wal.Record

namespace Lrcp.Otlp

open Lrcp.Wal (Bytes WalCorruptionError)

structure Event where
  name : String
  timeUnixNano : UInt64
  attributes : List KeyValue
  droppedAttributesCount : UInt32

structure Link where
  traceId : Bytes
  spanId : Bytes
  traceState : String
  attributes : List KeyValue
  droppedAttributesCount : UInt32
  flags : UInt32

structure Span where
  traceId : Bytes
  spanId : Bytes
  parentSpanId : Bytes
  name : String
  kind : Int32
  startTimeUnixNano : UInt64
  endTimeUnixNano : UInt64
  attributes : List KeyValue
  events : List Event
  links : List Link
  statusCode : Int32
  statusMessage : String
  traceState : String
  flags : UInt32
  droppedAttributesCount : UInt32
  droppedEventsCount : UInt32
  droppedLinksCount : UInt32

structure ScopeSpans where
  scopeName : String
  scopeVersion : String
  spans : List Span

structure ResourceSpans where
  resourceAttributes : List KeyValue
  scopeSpans : List ScopeSpans

/-- `ExportTraceServiceRequest` -/
structure Request where
  resourceSpans : List ResourceSpans

/-- A row of the canonical table, before Arrow has seen it. -/
structure Row where
  traceId : String
  spanId : String
  parentSpanId : Option String
  name : String
  kind : Int
  serviceName : Option String
  projectId : Option String
  startTimeUnixNano : Nat
  endTimeUnixNano : Nat
  durationNs : Nat
  statusCode : Int
  statusMessage : Option String
  scopeName : Option String
  scopeVersion : Option String
  traceState : Option String
  flags : Nat
  resourceAttributesJson : String
  attributesJson : String
  eventsJson : String
  linksJson : String
  droppedAttributesCount : Nat
  droppedEventsCount : Nat
  droppedLinksCount : Nat
  sourceFile : String
  sourceOffset : Nat
  deriving DecidableEq, Repr

/-- The exceptions that pass through the materializer. -/
inductive PyError
  | walCorruption (e : WalCorruptionError)
  | valueError (message : String)
  | overflowError (message : String)
  | decodeError (message : String)
  | osError (message : String)
  | operationalError (message : String)
  | timeoutError (message : String)
  deriving DecidableEq, Repr

/-- `isinstance(error, (WalCorruptionError, ValueError))` -/
def PyError.isValueError : PyError → Bool
  | .walCorruption _ => true
  | .valueError _ => true
  | _ => false

/-- `str(error)` -/
def PyError.message : PyError → String
  | .walCorruption e => e.message
  | .valueError m => m
  | .overflowError m => m
  | .decodeError m => m
  | .osError m => m
  | .operationalError m => m
  | .timeoutError m => m

/-- What the code takes from other packages and from its surroundings: the
protobuf parser (`none` when it raises `DecodeError`), `json.dumps` with sorted
keys, `str` of a value that is not a string, the exception of
`Table.from_pylist` for an integer out of range, and the clock readings and
random identifiers that file names are made of, in the order they are drawn. -/
structure Libs where
  parseFromString : Bytes → Option Request
  jsonDumps : PyValue → String
  strOf : PyValue → String
  conversionError : PyError
  timestamp : Nat → String
  uuid4Hex : Nat → String

variable (libs : Libs)

/-- `str(value)` -/
def pyStr : PyValue → String
  | .str s => s
  | v => libs.strOf v

/-- `str(value or "") or None` -/
def strOrNone (value : Option PyValue) : Option String :=
  orNone (pyStr libs ((orElse value none).getD (.str "")))

/-- `_events` -/
def events (es : List Event) : PyValue :=
  .list (es.map fun e => .dict [
    ("name", .str e.name),
    ("time_unix_nano", .int e.timeUnixNano.toNat),
    ("attributes", .dict (Otlp.attributes e.attributes)),
    ("dropped_attributes_count", .int e.droppedAttributesCount.toNat)])

/-- `_links` -/
def links (ls : List Link) : PyValue :=
  .list (ls.map fun l => .dict [
    ("trace_id", .str (hex l.traceId)),
    ("span_id", .str (hex l.spanId)),
    ("trace_state", .str l.traceState),
    ("attributes", .dict (Otlp.attributes l.attributes)),
    ("dropped_attributes_count", .int l.droppedAttributesCount.toNat),
    ("flags", .int l.flags.toNat)])

/-- The row of one span, in the loop of `_rows`. -/
def spanRow (sourceFile : String) (recordOffset : Nat) (resourceAttributes : List (String × PyValue))
    (serviceName projectId scopeName scopeVersion : Option String) (span : Span) : Row :=
  let spanAttributes := Otlp.attributes span.attributes
  let spanProjectId := strOrNone libs
    (orElse (dictGet "project.id" spanAttributes) (dictGet "lrcp.project_id" spanAttributes))
  { traceId := hex span.traceId
    spanId := hex span.spanId
    parentSpanId := if span.parentSpanId.isEmpty then none else some (hex span.parentSpanId)
    name := span.name
    kind := span.kind.toInt
    serviceName := serviceName
    projectId := spanProjectId <|> projectId
    startTimeUnixNano := span.startTimeUnixNano.toNat
    endTimeUnixNano := span.endTimeUnixNano.toNat
    -- `max(0, end - start)`, which is what subtraction of naturals computes
    durationNs := span.endTimeUnixNano.toNat - span.startTimeUnixNano.toNat
    statusCode := span.statusCode.toInt
    statusMessage := orNone span.statusMessage
    scopeName := scopeName
    scopeVersion := scopeVersion
    traceState := orNone span.traceState
    flags := span.flags.toNat
    resourceAttributesJson := libs.jsonDumps (.dict resourceAttributes)
    attributesJson := libs.jsonDumps (.dict spanAttributes)
    eventsJson := libs.jsonDumps (events span.events)
    linksJson := libs.jsonDumps (links span.links)
    droppedAttributesCount := span.droppedAttributesCount.toNat
    droppedEventsCount := span.droppedEventsCount.toNat
    droppedLinksCount := span.droppedLinksCount.toNat
    sourceFile := sourceFile
    sourceOffset := recordOffset }

/-- The rows of a parsed request, in the order of its spans. -/
def requestRows (request : Request) (sourceFile : String) (recordOffset : Nat) : List Row :=
  request.resourceSpans.flatMap fun resourceSpans =>
    let resourceAttributes := Otlp.attributes resourceSpans.resourceAttributes
    let serviceName := strOrNone libs (dictGet "service.name" resourceAttributes)
    let projectId := strOrNone libs (orElse (dictGet "project.id" resourceAttributes)
      (dictGet "lrcp.project_id" resourceAttributes))
    resourceSpans.scopeSpans.flatMap fun scopeSpans =>
      scopeSpans.spans.map (spanRow libs sourceFile recordOffset resourceAttributes
        serviceName projectId (orNone scopeSpans.scopeName) (orNone scopeSpans.scopeVersion))

/-- `_rows`. `ParseFromString` returns the number of bytes parsed, so the test of
its result fails for the empty payload only. -/
def rows (payload : Bytes) (sourceFile : String) (recordOffset : Nat) : Except PyError (List Row) :=
  match libs.parseFromString payload with
  | none => .error (.decodeError "Error parsing message")
  | some request =>
    if payload.length = 0 then
      .error (.walCorruption ⟨sourceFile, recordOffset, "malformed OTLP protobuf"⟩)
    else
      .ok (requestRows libs request sourceFile recordOffset)

def inInt32 (i : Int) : Bool := -2 ^ 31 ≤ i ∧ i < 2 ^ 31

def inInt64 (i : Int) : Bool := -2 ^ 63 ≤ i ∧ i < 2 ^ 63

def inUInt32 (i : Int) : Bool := 0 ≤ i ∧ i < 2 ^ 32

/-- The integers of a row are in the ranges of their columns in `SPAN_ARROW_SCHEMA`. -/
def Row.fitsSchema (row : Row) : Bool :=
  inInt32 row.kind && inInt64 row.startTimeUnixNano && inInt64 row.endTimeUnixNano &&
    inInt64 row.durationNs && inInt32 row.statusCode && inUInt32 row.flags &&
    inUInt32 row.droppedAttributesCount && inUInt32 row.droppedEventsCount &&
    inUInt32 row.droppedLinksCount && inInt64 row.sourceOffset

/-- `pa.Table.from_pylist(rows, schema=SPAN_ARROW_SCHEMA)` -/
def fromPylist (rows : List Row) : Except PyError (List Row) :=
  if rows.all Row.fitsSchema then .ok rows else .error libs.conversionError

variable {libs}

/-- Every row names the segment and the offset of the record it comes from. -/
theorem rows_source {payload : Bytes} {sourceFile : String} {recordOffset : Nat} {rs : List Row}
    (h : rows libs payload sourceFile recordOffset = .ok rs) {row : Row} (hr : row ∈ rs) :
    row.sourceFile = sourceFile ∧ row.sourceOffset = recordOffset := by
  unfold rows at h
  split at h
  · cases h
  · split_ifs at h with h0
    obtain rfl := Except.ok.inj h
    simp only [requestRows, List.mem_flatMap, List.mem_map] at hr
    obtain ⟨_, -, _, -, _, -, rfl⟩ := hr
    exact ⟨rfl, rfl⟩

theorem fromPylist_ok {rs rs' : List Row} :
    fromPylist libs rs = .ok rs' ↔ rs' = rs ∧ ∀ row ∈ rs, row.fitsSchema = true := by
  unfold fromPylist
  split_ifs with h
  · rw [List.all_eq_true] at h
    simp only [Except.ok.injEq]
    exact ⟨fun e => ⟨e.symm, h⟩, fun e => e.1.symm⟩
  · rw [List.all_eq_true] at h
    simp [h]

end Lrcp.Otlp
