import Lrcp.Api.Agreement
import Lrcp.Store.Snapshot

namespace Lrcp.Api

open Lrcp.Framework Lrcp.Framework.Sql
open Lrcp.Otlp (Row Libs PyError)
open Lrcp.Store (World Op Call Thread service attentive readParquet getCommittedParquetFiles sortNames)

/-- The requests that are answered from the rows. -/
inductive SpanQuery
  | listTraces (limit : Int) (projectId service : Option String)
  | getTrace (traceId : String) (projectId : Option String)
  | analyticsOverview (projectId : Option String)
  | analyticsModels (projectId : Option String)

namespace SpanQuery

def request : SpanQuery → Request
  | listTraces limit projectId service => .listTraces limit projectId service
  | getTrace traceId projectId => .getTrace traceId projectId
  | analyticsOverview projectId => .analyticsOverview projectId
  | analyticsModels projectId => .analyticsModels projectId

def projectId : SpanQuery → Option String
  | listTraces _ projectId _ => projectId
  | getTrace _ projectId => projectId
  | analyticsOverview projectId => projectId
  | analyticsModels projectId => projectId

/-- The value of `limit` is not admitted. -/
def invalid : SpanQuery → Bool
  | listTraces limit _ _ => limit < 1 ∨ 1000 < limit
  | _ => false

/-- The project that is asked for, or what is said before the files are looked for. -/
def admitted (auth : AuthIdentity) (query : SpanQuery) : Except HttpException (Option String) :=
  if query.invalid then .error ⟨422, "Unprocessable Entity"⟩ else scope auth query.projectId

/-- How often `read_parquet` is queried for one answer. -/
def reads : SpanQuery → Nat
  | analyticsOverview _ => 2
  | _ => 1

/-- The answer when the queries have raised an exception. -/
def failed : SpanQuery → HttpException
  | listTraces _ _ _ => ⟨500, "Failed to query traces"⟩
  | getTrace _ _ => ⟨500, "Failed to query trace"⟩
  | analyticsOverview _ => ⟨500, "Failed to compute analytics overview"⟩
  | analyticsModels _ => ⟨500, "Failed to compute model analytics"⟩

/-- The same files are queried `n` times; there are no tables without files. -/
def queryTables (n : Nat) : Call (Option (List (List Row))) := do
  let files ← getCommittedParquetFiles
  if files = [] then .ret none
  else
    (Prog.forEach (fun tables _ => do
      let rows ← readParquet files
      .ret (tables ++ [rows])) (List.replicate n ()) []) >>= fun tables => .ret (some tables)

/-- The part of an endpoint that asks the store. -/
def tables (auth : AuthIdentity) (query : SpanQuery) : Call (Option (List (List Row))) :=
  match query.admitted auth with
  | .error _ => .ret none
  | .ok _ => queryTables query.reads

variable {F : Type} (engine : Engine F)

/-- The answer without files. -/
def noFiles : SpanQuery → Answer F
  | listTraces _ _ _ => .ok (.traces [])
  | getTrace _ _ => .error ⟨404, "trace not found"⟩
  | analyticsOverview _ => .ok (.overview (emptyOverview engine))
  | analyticsModels _ => .ok (.models [])

/-- The answer from the tables. The services of `analytics_overview` come from its second query. -/
def From (project : Option String) : SpanQuery → List (List Row) → Answer F → Prop
  | listTraces limit _ service, [rows], answer => ∃ items,
      TracesOf ((rows : Multiset Row).filter fun row => restricted project row.projectId ∧
        restricted service row.serviceName) limit.toNat items ∧ answer = .ok (.traces items)
  | getTrace traceId _, [rows], answer =>
      SpansOf ((rows : Multiset Row).filter fun row => row.traceId = traceId ∧
        restricted project row.projectId) answer
  | analyticsOverview _, [rows, rows'], answer => ∃ totals summary,
      OverviewOf engine ((rows : Multiset Row).filter fun row => restricted project row.projectId) totals ∧
      OverviewOf engine ((rows' : Multiset Row).filter fun row => restricted project row.projectId) summary ∧
      answer = .ok (.overview { totals with uniqueServices := summary.uniqueServices })
  | analyticsModels _, [rows], answer => ∃ items,
      ModelsOf engine ((rows : Multiset Row).filter fun row =>
        (engine.jsonExtractString row.attributesJson "$.\"gen_ai.request.model\"").isSome ∧
          restricted project row.projectId) items ∧ answer = .ok (.models items)
  | _, _, _ => False

/-- The answers to a request, the queries of which have ended so. -/
def Ends (auth : AuthIdentity) (query : SpanQuery) (outcome : Except PyError (Option (List (List Row))))
    (answer : Answer F) : Prop :=
  match query.admitted auth with
  | .error e => answer = .error e
  | .ok project =>
    match outcome with
    | .error _ => answer = .error query.failed
    | .ok none => answer = query.noFiles engine
    | .ok (some tables) => query.From engine project tables answer

end SpanQuery

section Rows

variable {F : Type} {engine : Engine F} {store : DataStore} {auth : AuthIdentity} {query : SpanQuery}
  {project : Option String} {answer : Answer F} {rows : List Row}

end Rows

section Beside

variable {libs : Libs} {settings : Thread → Store.Settings} {own : Store.Settings} {app : Nat}
  {S : System Op PyError Unit World Thread} {X Y Z : Pool Op PyError Unit World Thread}

variable {F : Type} {engine : Engine F} {auth : AuthIdentity} {query : SpanQuery} {project : Option String}
  {answer : Answer F} {w : World} {outcome : Except PyError (Option (List (List Row)))}

end Beside

end Lrcp.Api
