import Lrcp.Api.Queries

namespace Lrcp.Api

open Lrcp.Otlp (Row)
open Lrcp.Wal (Table)
open Lrcp.Store (World ParquetFile ControlStore readable_visible)
open Lrcp.Framework.Sql

/-- The row belongs to project `P`. -/
def belongs (P : String) (row : Row) : Bool := row.projectId = some P

/-- What a body says about spans and traces is taken from rows of project `P`. -/
def ComesFrom (rows : Multiset Row) (P : String) {F : Type} : Body F → Prop
  | .traces items => ∀ trace ∈ items, ∃ group ≤ rows, group ≠ 0 ∧ IsTrace group trace ∧
      ∀ row ∈ group, row.traceId = trace.traceId ∧ belongs P row
  | .spans spans => ∀ row ∈ spans, row ∈ rows ∧ belongs P row
  | .projects items => ∀ item ∈ items, item.id = P
  | .overview _ => True
  | .models _ => True

section Scope

variable {F : Type} {store store' : DataStore} {P : String} {projectId : Option String}
  {noFiles answer : Answer F} {query : Option String → Multiset Row → Answer F → Prop} {body : Body F}
  {rows : Multiset Row}

/-- No caller has the empty project. -/
theorem given_of_resolved {keys : Keys} {settings : Settings} {projects : List ProjectRow}
    {xApiKey authorization : Option String}
    (h : getAuthIdentity keys settings projects xApiKey authorization = .ok ⟨false, projectId⟩) :
    given projectId = true := by
  unfold getAuthIdentity at h
  dsimp only at h
  split_ifs at h
  all_goals cases h
  all_goals assumption

theorem restricted_project (hP : given (some P) = true) (row : Row) :
    restricted (some P) row.projectId = belongs P row := by
  simp [restricted, belongs, hP]

theorem rows_eq : store.rows = store.world.visible :=
  Multiset.coe_eq_coe.mpr (readable_visible store.readable)

theorem rows_of_files (h : store.files = []) : store.rows = 0 := by
  have hnil : store.world.readable = [] := by
    have hpresent : store.world.present = [] := h
    rw [World.readable, hpresent, List.flatMap_nil]
  rw [DataStore.rows, hnil, Multiset.coe_nil]

/-- A filter that only leaves rows of the project sees nothing else. -/
theorem filter_belongs {p : Row → Prop} [DecidablePred p] (h : ∀ row, p row → belongs P row) :
    (rows.filter fun row => belongs P row).filter p = rows.filter p := by
  rw [Multiset.filter_filter]
  apply Multiset.filter_congr
  intro row _
  exact ⟨fun hp => hp.1, fun hp => ⟨hp, h row hp⟩⟩

/-- The answers to a caller of project `P` depend on the rows of `P` alone: having
no file is like having no row of `P`. -/
theorem onProject_congr (hnone : ∀ answer, query (some P) 0 answer ↔ answer = noFiles)
    (hquery : ∀ rows answer, query (some P) rows answer ↔
      query (some P) (rows.filter fun row => belongs P row) answer)
    (h : (store.rows.filter fun row => belongs P row) = store'.rows.filter fun row => belongs P row) :
    onProject store ⟨false, some P⟩ projectId noFiles query answer ↔
      onProject store' ⟨false, some P⟩ projectId noFiles query answer := by
  have key : ∀ store : DataStore, (if store.files = [] then answer = noFiles
      else query (some P) store.rows answer) ↔
      query (some P) (store.rows.filter fun row => belongs P row) answer := by
    intro store
    split_ifs with hfiles
    · rw [rows_of_files hfiles, Multiset.filter_zero, hnone]
    · exact hquery store.rows answer
  unfold onProject
  split
  · exact Iff.rfl
  · next project hscope =>
    have hproject : project = some P := by
      simp only [scope, if_true] at hscope
      split_ifs at hscope
      exact (Except.ok.inj hscope).symm
    rw [hproject, key store, key store', h]

/-- A caller of project `P` who gets a body gets that of the query, or there is no file. -/
theorem onProject_ok (h : onProject store ⟨false, some P⟩ projectId noFiles query (.ok body)) :
    .ok body = noFiles ∨ query (some P) store.rows (.ok body) := by
  unfold onProject at h
  split at h
  · cases h
  · next project hscope =>
    have hproject : project = some P := by
      simp only [scope, if_true] at hscope
      split_ifs at hscope
      exact (Except.ok.inj hscope).symm
    rw [hproject] at h
    split_ifs at h
    · exact .inl h
    · exact .inr h

end Scope

section Requests

variable {F : Type} {engine : Engine F} {store store' : DataStore} {P : String}
  {answer : Answer F} {body : Body F} {rows : Multiset Row}

/-- Aggregates over no row become the defaults of the answer without files. -/
theorem overviewOf_zero {summary : Overview F} :
    OverviewOf engine 0 summary ↔ summary = emptyOverview engine := by
  have htokens : ∀ path, tokens engine 0 path = 0 := fun _ => rfl
  have hrate : ∀ rate, engine.round (if 0 < Multiset.card (0 : Multiset Row) then rate
      else engine.float 0) 4 = engine.float 0 := by
    intro rate
    have hnot : ¬0 < Multiset.card (0 : Multiset Row) := Nat.lt_irrefl 0
    rw [if_neg hnot, engine.round_zero]
  simp only [OverviewOf, Multiset.filter_zero, htokens, hrate]
  constructor
  · intro ⟨services, hservices, hsummary⟩
    rw [hsummary, distinct_zero.mp hservices]
    rfl
  · intro h
    exact ⟨[], distinct_zero.mpr rfl, h⟩

theorem tracesOf_zero {limit : Nat} {items : List Trace} : TracesOf 0 limit items ↔ items = [] := by
  unfold TracesOf
  constructor
  · intro ⟨table, hrel, hlimited⟩
    rw [groupBy_zero, Multiset.rel_zero_left] at hrel
    rw [hrel] at hlimited
    exact limited_zero.mp hlimited
  · intro h
    refine ⟨0, ?_, limited_zero.mpr h⟩
    rw [groupBy_zero, Multiset.rel_zero_left]

theorem modelsOf_zero {items : List (ModelMetrics F)} : ModelsOf engine 0 items ↔ items = [] := by
  rw [ModelsOf, groupBy_zero, Multiset.map_zero, ordered_zero]

theorem spansOf_zero : SpansOf 0 answer ↔ answer = .error ⟨404, "trace not found"⟩ := by
  unfold SpansOf
  constructor
  · intro ⟨spans, hspans, hanswer⟩
    rw [hanswer, if_pos (ordered_zero.mp hspans)]
  · intro h
    exact ⟨[], ordered_zero.mpr rfl, by rw [h, if_pos rfl]⟩

/-- Two stores with the same rows of project `P` and the same row for `P` in the
table of projects cannot be told apart. -/
theorem answers_congr (hP : given (some P) = true)
    (hrows : (store.rows.filter fun row => belongs P row) = store'.rows.filter fun row => belongs P row)
    (hprojects : (store.projects.filter fun row => row.id = P) =
      store'.projects.filter fun row => row.id = P) (request : Request) :
    Answers engine store ⟨false, some P⟩ request answer ↔
      Answers engine store' ⟨false, some P⟩ request answer := by
  cases request with
  | listTraces limit projectId service =>
    simp only [Answers, ListTraces]
    split_ifs
    · exact Iff.rfl
    · apply onProject_congr ?_ ?_ hrows
      · intro answer
        simp only [Multiset.filter_zero, tracesOf_zero, exists_eq_left]
      · intro rows answer
        simp only [restricted_project hP]
        rw [filter_belongs fun row h => h.1]
  | getTrace traceId projectId =>
    simp only [Answers, GetTrace]
    apply onProject_congr ?_ ?_ hrows
    · intro answer
      rw [Multiset.filter_zero, spansOf_zero]
    · intro rows answer
      simp only [restricted_project hP]
      rw [filter_belongs fun row h => h.2]
  | listProjects =>
    have key : ∀ store : DataStore, ListProjects store ⟨false, some P⟩ answer ↔
        ∃ rows, Ordered (fun a b : ProjectRow => a.createdAt ≤ b.createdAt)
          ((store.projects.filter fun row => row.id = P) : Multiset ProjectRow) rows ∧
            answer = .ok (.projects (rows.map fun row => ⟨row.id, row.name, row.createdAt⟩)) := by
      intro store
      simp [ListProjects]
    simp only [Answers]
    rw [key, key, hprojects]
  | analyticsOverview projectId =>
    simp only [Answers, AnalyticsOverview]
    apply onProject_congr ?_ ?_ hrows
    · intro answer
      simp only [Multiset.filter_zero, overviewOf_zero, exists_eq_left]
    · intro rows answer
      simp only [restricted_project hP]
      rw [filter_belongs fun row h => h]
  | analyticsModels projectId =>
    simp only [Answers, AnalyticsModels]
    apply onProject_congr ?_ ?_ hrows
    · intro answer
      simp only [Multiset.filter_zero, modelsOf_zero, exists_eq_left]
    · intro rows answer
      simp only [restricted_project hP]
      rw [filter_belongs fun row h => h.2]

theorem TracesOf.comesFrom {limit : Nat} {items : List Trace} {p : Row → Prop} [DecidablePred p]
    (hp : ∀ row, p row → belongs P row) (h : TracesOf (rows.filter p) limit items) :
    ComesFrom rows P (.traces items : Body F) := by
  intro trace htrace
  obtain ⟨table, hrel, hlimited⟩ := h
  obtain ⟨group, hgroup, htraceId, his⟩ :=
    Multiset.exists_mem_of_rel_of_mem (Multiset.rel_flip.mpr hrel) (hlimited.mem htrace)
  obtain ⟨hle, hne, hkey⟩ := of_mem_groupBy hgroup
  refine ⟨group.2, hle.trans (Multiset.filter_le _ _), hne, his, fun row hrow => ⟨?_, ?_⟩⟩
  · rw [htraceId, hkey row hrow]
  · exact hp row (Multiset.of_mem_filter (Multiset.mem_of_le hle hrow))

theorem SpansOf.comesFrom {p : Row → Prop} [DecidablePred p] (hp : ∀ row, p row → belongs P row)
    (h : SpansOf (rows.filter p) (.ok body)) : ComesFrom rows P body := by
  obtain ⟨spans, hspans, hanswer⟩ := h
  split_ifs at hanswer
  rw [Except.ok.inj hanswer]
  intro row hrow
  have hmem := hspans.mem hrow
  exact ⟨Multiset.mem_of_mem_filter hmem, hp row (Multiset.of_mem_filter hmem)⟩

/-- What a caller of project `P` is told comes from rows of `P`. -/
theorem answers_comesFrom (hP : given (some P) = true) {request : Request}
    (h : Answers engine store ⟨false, some P⟩ request (.ok body)) : ComesFrom store.rows P body := by
  cases request with
  | listTraces limit projectId service =>
    simp only [Answers, ListTraces] at h
    split_ifs at h
    rcases onProject_ok h with hbody | ⟨items, hitems, hbody⟩
    · rw [Except.ok.inj hbody]
      intro trace htrace
      cases htrace
    · rw [Except.ok.inj hbody]
      apply hitems.comesFrom
      intro row hrow
      rw [← restricted_project hP]
      exact hrow.1
  | getTrace traceId projectId =>
    simp only [Answers, GetTrace] at h
    rcases onProject_ok h with hbody | hspans
    · cases hbody
    · apply hspans.comesFrom
      intro row hrow
      rw [← restricted_project hP]
      exact hrow.2
  | listProjects =>
    obtain ⟨found, hfound, hbody⟩ := h
    rw [Except.ok.inj hbody]
    intro item hitem
    obtain ⟨row, hrow, rfl⟩ := List.mem_map.mp hitem
    have hmem := List.mem_filter.mp (Multiset.mem_coe.mp (hfound.mem hrow))
    simpa using hmem.2
  | analyticsOverview projectId =>
    simp only [Answers, AnalyticsOverview] at h
    rcases onProject_ok h with hbody | ⟨summary, -, hbody⟩
    · rw [Except.ok.inj hbody]
      trivial
    · rw [Except.ok.inj hbody]
      trivial
  | analyticsModels projectId =>
    simp only [Answers, AnalyticsModels] at h
    rcases onProject_ok h with hbody | ⟨items, -, hbody⟩
    · rw [Except.ok.inj hbody]
      trivial
    · rw [Except.ok.inj hbody]
      trivial

theorem exists_services (rows : Multiset Row) : ∃ services, Services rows services := by
  obtain ⟨names, hnames⟩ := exists_distinct (known (rows.map Row.serviceName))
  exact ⟨_, names, hnames, rfl⟩

theorem exists_tracesOf (rows : Multiset Row) (limit : Nat) : ∃ items, TracesOf rows limit items := by
  have htable : ∃ table : Multiset Trace, Multiset.Rel (fun group trace =>
      trace.traceId = group.1 ∧ IsTrace group.2 trace) (groupBy Row.traceId rows) table := by
    apply exists_rel
    intro group _
    obtain ⟨services, hservices⟩ := exists_services group.2
    exact ⟨⟨group.1, _, _, _, _, _, _, services, _, _⟩, rfl, rfl, rfl, rfl, rfl, rfl, rfl, hservices, rfl, rfl⟩
  obtain ⟨table, hrel⟩ := htable
  obtain ⟨all, hall⟩ := exists_ordered
    (fun trace : Trace => OrderDual.toDual trace.sortKey) table
  exact ⟨_, table, hrel, all, hall, rfl⟩

theorem exists_onProject {auth : AuthIdentity} {projectId : Option String} {noFiles : Answer F}
    {query : Option String → Multiset Row → Answer F → Prop}
    (h : ∀ projectId rows, ∃ answer, query projectId rows answer) :
    ∃ answer, onProject store auth projectId noFiles query answer := by
  unfold onProject
  split
  · exact ⟨_, rfl⟩
  · split_ifs
    · exact ⟨_, rfl⟩
    · exact h _ _

/-- Every request has an answer. -/
theorem exists_answer (engine : Engine F) (store : DataStore) (auth : AuthIdentity)
    (request : Request) : ∃ answer, Answers engine store auth request answer := by
  cases request with
  | listTraces limit projectId service =>
    simp only [Answers, ListTraces]
    split_ifs
    · exact ⟨_, rfl⟩
    · apply exists_onProject
      intro projectId rows
      obtain ⟨items, hitems⟩ := exists_tracesOf (rows.filter fun row =>
        restricted projectId row.projectId ∧ restricted service row.serviceName) limit.toNat
      exact ⟨_, items, hitems, rfl⟩
  | getTrace traceId projectId =>
    simp only [Answers, GetTrace]
    apply exists_onProject
    intro projectId rows
    obtain ⟨spans, hspans⟩ := exists_ordered Row.startTimeUnixNano (rows.filter fun row =>
      row.traceId = traceId ∧ restricted projectId row.projectId)
    exact ⟨_, spans, hspans, rfl⟩
  | listProjects =>
    obtain ⟨rows, hrows⟩ := exists_ordered ProjectRow.createdAt
      ((store.projects.filter fun row => auth.isAdmin ∨ some row.id = auth.projectId) :
        Multiset ProjectRow)
    exact ⟨_, rows, hrows, rfl⟩
  | analyticsOverview projectId =>
    simp only [Answers, AnalyticsOverview]
    apply exists_onProject
    intro projectId rows
    obtain ⟨services, hservices⟩ := exists_distinct (known (((rows.filter fun row =>
      restricted projectId row.projectId).filter fun row => row.serviceName.isSome ∧
        row.serviceName ≠ some "").map Row.serviceName))
    exact ⟨_, _, ⟨services, hservices, rfl⟩, rfl⟩
  | analyticsModels projectId =>
    simp only [Answers, AnalyticsModels]
    apply exists_onProject
    intro projectId rows
    obtain ⟨items, hitems⟩ := exists_ordered
      (fun metrics : ModelMetrics F => OrderDual.toDual metrics.requestCount) _
    exact ⟨_, items, hitems, rfl⟩

end Requests

section Isolation

variable {keys : Keys} {settings : Settings} {store store' : DataStore} {P : String}
  {xApiKey authorization : Option String}

/-- Tenant noninterference. Two stores whose committed rows of project `P` are the
same multiset and that have the same row for `P` in the table of projects give the
same answers to a caller who is resolved to `P` in both; and what they say is
taken from rows of `P`. The answers are those that the order of ties admits. -/
theorem project_isolated {F : Type} (engine : Engine F)
    (hrows : (store.world.visible.filter fun row => belongs P row).Perm
      (store'.world.visible.filter fun row => belongs P row))
    (hprojects : (store.projects.filter fun row => row.id = P) =
      store'.projects.filter fun row => row.id = P)
    (h : getAuthIdentity keys settings store.projects xApiKey authorization = .ok ⟨false, some P⟩)
    (h' : getAuthIdentity keys settings store'.projects xApiKey authorization = .ok ⟨false, some P⟩)
    (request : Request) :
    (∃ answer, Responds engine keys settings store xApiKey authorization request answer) ∧
    (∀ answer, Responds engine keys settings store xApiKey authorization request answer ↔
      Responds engine keys settings store' xApiKey authorization request answer) ∧
    ∀ body, Responds engine keys settings store xApiKey authorization request (.ok body) →
      ComesFrom (store.world.visible : Multiset Row) P body := by
  have hP : given (some P) = true := given_of_resolved h
  have hsame : (store.rows.filter fun row => belongs P row) =
      store'.rows.filter fun row => belongs P row := by
    rw [rows_eq, rows_eq, Multiset.filter_coe, Multiset.filter_coe]
    apply Multiset.coe_eq_coe.mpr
    simpa using hrows
  simp only [Responds, h, h']
  refine ⟨exists_answer engine store _ request, fun answer => ?_, fun body hbody => ?_⟩
  · exact answers_congr hP hsame hprojects request
  · rw [← rows_eq]
    exact answers_comesFrom hP hbody

end Isolation

/-- The files with their footers. -/
def filesOf (files : List (String × List Row)) : Table ParquetFile :=
  files.foldr (fun file dir => dir.insert file.1 ⟨file.2, true⟩) ∅

theorem footer_filesOf {files : List (String × List Row)} {f : String} {file : ParquetFile}
    (hl : (filesOf files).lookup f = some file) : file.footer = true := by
  induction files with
  | nil => cases hl
  | cons first files ih =>
    by_cases hf : f = first.1
    · have hfile : (filesOf (first :: files)).lookup first.1 = some ⟨first.2, true⟩ :=
        AList.lookup_insert _
      rw [hf, hfile] at hl
      rw [← Option.some.inj hl]
    · have hrest : (filesOf (first :: files)).lookup f = (filesOf files).lookup f :=
        AList.lookup_insert_ne hf
      rw [hrest] at hl
      exact ih hl

/-- The committed files are those given. -/
def DataStore.ofFiles (files : List (String × List Row)) (projects : List ProjectRow) : DataStore where
  world :=
    { walDir := ∅
      parquetDir := filesOf files
      control := { ControlStore.empty with
        parquetFiles := files.foldr (fun file manifest =>
          manifest.insert file.1 ⟨file.2.length, .committed⟩) ∅ }
      exclusive := none
      connections := 0
      rlock _ := none
      stamps := 0
      history := ⟨∅, [], false⟩ }
  projects := projects
  readable _ _ _ hl := footer_filesOf hl

/-- Functions that behave like those of DuckDB and Python as long as a project has one
row without attributes. -/
def sampleEngine : Engine Rat where
  jsonExtractString _ _ := none
  tryCastBigint _ := none
  avg values := values.sum / values.card
  approxQuantile values _ := values.fold max 0
  float n := n
  div a b := a / b
  intDiv a b := a / b
  isPos a := 0 < a
  round a digits := (a * 10 ^ digits + 1 / 2).floor / 10 ^ digits
  round_zero digits := by
    have hfloor : ((0 : Rat) + 1 / 2).floor = 0 := by decide +kernel
    have hzero : ((0 : Int) : Rat) = 0 := rfl
    rw [hzero, Rat.zero_mul, hfloor, hzero, Rat.div_def, Rat.zero_mul]

def shopRow : Row where
  traceId := "0a"
  spanId := "0b"
  parentSpanId := none
  name := "GET /cart"
  kind := 2
  serviceName := some "cart"
  projectId := some "shop"
  startTimeUnixNano := 1700000000000000000
  endTimeUnixNano := 1700000000000000100
  durationNs := 100
  statusCode := 0
  statusMessage := none
  scopeName := none
  scopeVersion := none
  traceState := none
  flags := 0
  resourceAttributesJson := "\x7b\x7d"
  attributesJson := "\x7b\x7d"
  eventsJson := "[]"
  linksJson := "[]"
  droppedAttributesCount := 0
  droppedEventsCount := 0
  droppedLinksCount := 0
  sourceFile := "wal-0.wal"
  sourceOffset := 0

def shopProject : ProjectRow := ⟨"shop", "Shop", some (sampleKeys.sha256 "k"), "2025-01-01 00:00:00"⟩

/-- A store with one row of the shop, and one in which another project has rows in
a file of its own. -/
def quietStore : DataStore := .ofFiles [("a.parquet", [shopRow])] [shopProject]

def sharedStore : DataStore :=
  .ofFiles [("b.parquet", [{ shopRow with projectId := some "bank" }]), ("c.parquet", [shopRow])]
    [shopProject, ⟨"bank", "Bank", none, "2025-01-02 00:00:00"⟩]

theorem project_isolated_shop :
    (∃ answer, Responds sampleEngine sampleKeys ⟨some "admin", true⟩ quietStore (some "k") none
      (.analyticsOverview none) answer) ∧
    (∀ answer, Responds sampleEngine sampleKeys ⟨some "admin", true⟩ quietStore (some "k") none
        (.analyticsOverview none) answer ↔
      Responds sampleEngine sampleKeys ⟨some "admin", true⟩ sharedStore (some "k") none
        (.analyticsOverview none) answer) ∧
    ∀ body, Responds sampleEngine sampleKeys ⟨some "admin", true⟩ quietStore (some "k") none
        (.analyticsOverview none) (.ok body) →
      ComesFrom (quietStore.world.visible : Multiset Row) "shop" body := by
  apply project_isolated sampleEngine
  · decide +kernel
  · decide +kernel
  · decide +kernel
  · decide +kernel

end Lrcp.Api
