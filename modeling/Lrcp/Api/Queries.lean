import Lrcp.Api.Projects
import Lrcp.Framework.Sql
import Lrcp.Store.Visible

namespace Lrcp.Api

open Lrcp.Otlp (Row)
open Lrcp.Store (World)
open Lrcp.Framework.Sql

/-- A data directory, the committed Parquet files of which can be read, with the
table of projects. -/
structure DataStore where
  world : World
  projects : List ProjectRow
  readable : ∀ f file, world.isCommitted f = true → world.parquetDir.lookup f = some file →
    file.footer = true

/-- `get_committed_parquet_files` -/
def DataStore.files (store : DataStore) : List String := store.world.present

/-- `read_parquet` of these files. -/
def DataStore.rows (store : DataStore) : Multiset Row := store.world.readable

/-- What the queries take from DuckDB and from the floats of Python: two functions
on texts, two aggregates, the conversion of an integer, `/` on floats and on
integers, the comparison with zero, and `round`. -/
structure Engine (F : Type) where
  jsonExtractString : String → String → Option String
  tryCastBigint : String → Option Int
  avg : Multiset Nat → F
  approxQuantile : Multiset Nat → Rat → Nat
  float : Int → F
  div : F → F → F
  intDiv : Int → Int → F
  isPos : F → Bool
  round : F → Nat → F
  round_zero : ∀ digits, round (float 0) digits = float 0

inductive Request
  | listTraces (limit : Int) (projectId service : Option String)
  | getTrace (traceId : String) (projectId : Option String)
  | listProjects
  | analyticsOverview (projectId : Option String)
  | analyticsModels (projectId : Option String)

/-- An item of `list_traces`. -/
structure Trace where
  traceId : String
  startTimeUnixNano : Option Nat
  endTimeUnixNano : Option Nat
  wallClockDurationNs : Option Int
  aggregateSpanDurationNs : Option Int
  spanCount : Nat
  serviceName : Option String
  services : List String
  projectId : Option String
  errorCount : Option Int

structure ProjectResponse where
  id : String
  name : String
  createdAt : String

/-- The answer of `analytics_overview`. -/
structure Overview (F : Type) where
  totalTraces : Nat
  totalSpans : Nat
  totalLlmRequests : Int
  totalInputTokens : Int
  totalOutputTokens : Int
  totalTokens : Int
  uniqueServices : List String
  errorRate : F

/-- An item of `analytics_models`. -/
structure ModelMetrics (F : Type) where
  model : Option String
  requestCount : Nat
  totalInputTokens : Int
  totalOutputTokens : Int
  totalTokens : Int
  tokensPerSec : F
  avgLatencyMs : F
  p95LatencyMs : F
  errorCount : Int
  errorRate : F

inductive Body (F : Type)
  | traces (items : List Trace)
  | spans (rows : List Row)
  | projects (items : List ProjectResponse)
  | overview (summary : Overview F)
  | models (items : List (ModelMetrics F))

abbrev Answer (F : Type) := Except HttpException (Body F)

/-- `project_id` as the endpoints replace it for a caller who is not an administrator. -/
def scope (auth : AuthIdentity) (projectId : Option String) : Except HttpException (Option String) :=
  if auth.isAdmin = false then
    if given projectId ∧ projectId ≠ auth.projectId then
      .error ⟨403, "Cross-project access forbidden"⟩
    else .ok auth.projectId
  else .ok projectId

/-- The clause `column = ?`, which is left out without a value. -/
def restricted (value column : Option String) : Bool := given value → column = value

/-- `list_distinct(list(..))` and the list without what is false. -/
def Services (rows : Multiset Row) (services : List String) : Prop :=
  ∃ names, Distinct (known (rows.map Row.serviceName)) names ∧ services = names.filter (· ≠ "")

/-- `sum(CASE WHEN status_code = 2 THEN 1 ELSE 0 END)` -/
def errorSpans (rows : Multiset Row) : Option Int :=
  sumOf (rows.map fun row => some (if row.statusCode = 2 then 1 else 0))

/-- The aggregates of one trace. -/
structure IsTrace (rows : Multiset Row) (trace : Trace) : Prop where
  start : trace.startTimeUnixNano = minOf (rows.map fun row => some row.startTimeUnixNano)
  stop : trace.endTimeUnixNano = maxOf (rows.map fun row => some row.endTimeUnixNano)
  wallClock : trace.wallClockDurationNs = do
    let last ← maxOf (rows.map fun row => some row.endTimeUnixNano)
    let first ← minOf (rows.map fun row => some row.startTimeUnixNano)
    some ((last : Int) - first)
  aggregate : trace.aggregateSpanDurationNs = sumOf (rows.map fun row => some (row.durationNs : Int))
  count : trace.spanCount = rows.card
  service : trace.serviceName = maxOf (rows.map Row.serviceName)
  services : Services rows trace.services
  project : trace.projectId = maxOf (rows.map Row.projectId)
  errors : trace.errorCount = errorSpans rows

/-- The start of a trace in the order of `DESC`, where `NULL` comes last. -/
def Trace.sortKey (trace : Trace) : WithBot Nat := trace.startTimeUnixNano

/-- `ORDER BY start_time_unix_nano DESC` -/
def newest (a b : Trace) : Prop := b.sortKey ≤ a.sortKey

/-- The query of `list_traces` on the rows that its `WHERE` clause leaves. -/
def TracesOf (rows : Multiset Row) (limit : Nat) (items : List Trace) : Prop :=
  ∃ table, Multiset.Rel (fun group trace => trace.traceId = group.1 ∧ IsTrace group.2 trace)
    (groupBy Row.traceId rows) table ∧ Limited newest limit table items

section Endpoints

variable {F : Type} (engine : Engine F) (store : DataStore) (auth : AuthIdentity)

/-- What the endpoints on spans share: the check of the project, the answer when
there is no file, and otherwise the query on the rows of all files. -/
def onProject (projectId : Option String) (noFiles : Answer F)
    (query : Option String → Multiset Row → Answer F → Prop) (answer : Answer F) : Prop :=
  match scope auth projectId with
  | .error e => answer = .error e
  | .ok projectId =>
    if store.files = [] then answer = noFiles else query projectId store.rows answer

def ListTraces (limit : Int) (projectId service : Option String) (answer : Answer F) : Prop :=
  if limit < 1 ∨ 1000 < limit then answer = .error ⟨422, "Unprocessable Entity"⟩
  else onProject store auth projectId (.ok (.traces [])) (fun projectId rows answer =>
    ∃ items, TracesOf (rows.filter fun row => restricted projectId row.projectId ∧
      restricted service row.serviceName) limit.toNat items ∧ answer = .ok (.traces items)) answer

/-- `get_trace` on the rows that its `WHERE` clause leaves. -/
def SpansOf (rows : Multiset Row) (answer : Answer F) : Prop :=
  ∃ spans, Ordered (fun a b => a.startTimeUnixNano ≤ b.startTimeUnixNano) rows spans ∧
    answer = if spans = [] then .error ⟨404, "trace not found"⟩ else .ok (.spans spans)

def GetTrace (traceId : String) (projectId : Option String) : Answer F → Prop :=
  onProject store auth projectId (.error ⟨404, "trace not found"⟩) fun projectId rows =>
    SpansOf (rows.filter fun row => row.traceId = traceId ∧ restricted projectId row.projectId)

def ListProjects (answer : Answer F) : Prop :=
  ∃ rows, Ordered (fun a b : ProjectRow => a.createdAt ≤ b.createdAt)
      ((store.projects.filter fun row => auth.isAdmin ∨ some row.id = auth.projectId) :
        Multiset ProjectRow) rows ∧
    answer = .ok (.projects (rows.map fun row => ⟨row.id, row.name, row.createdAt⟩))

/-- `COALESCE(SUM(TRY_CAST(json_extract_string(attributes_json, path) AS BIGINT)), 0)` -/
def tokens (rows : Multiset Row) (path : String) : Int :=
  (sumOf (rows.map fun row =>
    (engine.jsonExtractString row.attributesJson path).bind engine.tryCastBigint)).getD 0

/-- `name LIKE '%part%'` -/
def like (part name : String) : Bool := part.toList <:+: name.toList

def isLlmRequest (row : Row) : Bool :=
  (engine.jsonExtractString row.attributesJson "$.\"gen_ai.request.model\"").isSome ∨
    (engine.jsonExtractString row.attributesJson "$.\"gen_ai.system\"").isSome ∨
    like "llm" row.name ∨ like "generate" row.name

/-- The queries of `analytics_overview` on the rows of the project. -/
def OverviewOf (rows : Multiset Row) (summary : Overview F) : Prop :=
  let inputTokens := tokens engine rows "$.\"gen_ai.usage.input_tokens\""
  let outputTokens := tokens engine rows "$.\"gen_ai.usage.output_tokens\""
  let totalSpans := rows.card
  let errorRate := if 0 < totalSpans then engine.intDiv ((errorSpans rows).getD 0) totalSpans
    else engine.float 0
  ∃ services, Distinct (known ((rows.filter fun row => row.serviceName.isSome ∧
      row.serviceName ≠ some "").map Row.serviceName)) services ∧
    summary =
      { totalTraces := countDistinct (rows.map fun row => some row.traceId)
        totalSpans := totalSpans
        totalLlmRequests := (sumOf (rows.map fun row =>
          some (if isLlmRequest engine row then 1 else 0))).getD 0
        totalInputTokens := inputTokens
        totalOutputTokens := outputTokens
        totalTokens := inputTokens + outputTokens
        uniqueServices := services.filter (· ≠ "")
        errorRate := engine.round errorRate 4 }

/-- The answer of `analytics_overview` when there is no file. -/
def emptyOverview : Overview F where
  totalTraces := 0
  totalSpans := 0
  totalLlmRequests := 0
  totalInputTokens := 0
  totalOutputTokens := 0
  totalTokens := 0
  uniqueServices := []
  errorRate := engine.float 0

def AnalyticsOverview (projectId : Option String) : Answer F → Prop :=
  onProject store auth projectId (.ok (.overview (emptyOverview engine)))
    fun projectId rows answer => ∃ summary, OverviewOf engine
      (rows.filter fun row => restricted projectId row.projectId) summary ∧
        answer = .ok (.overview summary)

/-- The item of one model. -/
def modelMetrics (model : Option String) (rows : Multiset Row) : ModelMetrics F :=
  let requestCount := rows.card
  let inputTokens := tokens engine rows "$.\"gen_ai.usage.input_tokens\""
  let outputTokens := tokens engine rows "$.\"gen_ai.usage.output_tokens\""
  let errorCount := (errorSpans rows).getD 0
  let totalDurationNs := (sumOf (rows.map fun row => some (row.durationNs : Int))).getD 0
  let totalDurationSec := engine.div (engine.float totalDurationNs) (engine.float 1000000000)
  { model := model
    requestCount := requestCount
    totalInputTokens := inputTokens
    totalOutputTokens := outputTokens
    totalTokens := inputTokens + outputTokens
    tokensPerSec := if engine.isPos totalDurationSec then
        engine.round (engine.div (engine.float outputTokens) totalDurationSec) 2
      else engine.float 0
    avgLatencyMs := engine.round (engine.div (engine.avg (rows.map Row.durationNs))
      (engine.float 1000000)) 2
    p95LatencyMs := engine.round (engine.intDiv
      (engine.approxQuantile (rows.map Row.durationNs) (95 / 100)) 1000000) 2
    errorCount := errorCount
    errorRate := if 0 < requestCount then engine.round (engine.intDiv errorCount requestCount) 4
      else engine.float 0 }

/-- The query of `analytics_models` on the rows that its `WHERE` clause leaves. -/
def ModelsOf (rows : Multiset Row) (items : List (ModelMetrics F)) : Prop :=
  Ordered (fun a b => b.requestCount ≤ a.requestCount)
    ((groupBy (fun row => engine.jsonExtractString row.attributesJson "$.\"gen_ai.request.model\"")
      rows).map fun group => modelMetrics engine group.1 group.2) items

def AnalyticsModels (projectId : Option String) : Answer F → Prop :=
  onProject store auth projectId (.ok (.models [])) fun projectId rows answer =>
    ∃ items, ModelsOf engine (rows.filter fun row =>
      (engine.jsonExtractString row.attributesJson "$.\"gen_ai.request.model\"").isSome ∧
        restricted projectId row.projectId) items ∧ answer = .ok (.models items)

/-- The answers that a caller with a known identity may get. -/
def Answers : Request → Answer F → Prop
  | .listTraces limit projectId service => ListTraces store auth limit projectId service
  | .getTrace traceId projectId => GetTrace store auth traceId projectId
  | .listProjects => ListProjects store auth
  | .analyticsOverview projectId => AnalyticsOverview engine store auth projectId
  | .analyticsModels projectId => AnalyticsModels engine store auth projectId

end Endpoints

/-- The answers to a request with its headers. -/
def Responds {F : Type} (engine : Engine F) (keys : Keys) (settings : Settings) (store : DataStore)
    (xApiKey authorization : Option String) (request : Request) (answer : Answer F) : Prop :=
  match getAuthIdentity keys settings store.projects xApiKey authorization with
  | .error e => answer = .error e
  | .ok auth => Answers engine store auth request answer

end Lrcp.Api
