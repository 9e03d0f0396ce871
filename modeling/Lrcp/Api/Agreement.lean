import Lrcp.Api.Isolation
import Mathlib.Algebra.GroupWithZero.Nat
import Mathlib.Algebra.Order.BigOperators.Group.Multiset
import Mathlib.Algebra.Order.BigOperators.Group.List

namespace Lrcp.Api

open Lrcp.Otlp (Row)
open Lrcp.Framework.Sql

section Scoped

variable {F : Type} {engine : Engine F} {store : DataStore} {auth : AuthIdentity}
  {projectId project : Option String} {noFiles answer : Answer F} {e : HttpException}
  {query : Option String → Multiset Row → Answer F → Prop}

theorem onProject_error (h : scope auth projectId = .error e) :
    onProject store auth projectId noFiles query answer ↔ answer = .error e := by
  rw [onProject, h]

/-- Having no file is like having no row. -/
theorem onProject_scoped (h : scope auth projectId = .ok project)
    (hnone : query project 0 answer ↔ answer = noFiles) :
    onProject store auth projectId noFiles query answer ↔ query project store.rows answer := by
  rw [onProject, h]
  dsimp only
  split_ifs with hfiles
  · rw [rows_of_files hfiles, hnone]
  · exact Iff.rfl

theorem tracesOf_none {p : Row → Prop} [DecidablePred p] {limit : Nat} :
    (∃ items, TracesOf ((0 : Multiset Row).filter p) limit items ∧
      answer = .ok (.traces items)) ↔ answer = .ok (.traces []) := by
  simp only [Multiset.filter_zero, tracesOf_zero, exists_eq_left]

theorem overviewOf_none {p : Row → Prop} [DecidablePred p] :
    (∃ summary, OverviewOf engine ((0 : Multiset Row).filter p) summary ∧
      answer = .ok (.overview summary)) ↔ answer = .ok (.overview (emptyOverview engine)) := by
  simp only [Multiset.filter_zero, overviewOf_zero, exists_eq_left]

theorem modelsOf_none {p : Row → Prop} [DecidablePred p] :
    (∃ items, ModelsOf engine ((0 : Multiset Row).filter p) items ∧
      answer = .ok (.models items)) ↔ answer = .ok (.models []) := by
  simp only [Multiset.filter_zero, modelsOf_zero, exists_eq_left]

theorem spansOf_none {p : Row → Prop} [DecidablePred p] :
    SpansOf ((0 : Multiset Row).filter p) answer ↔ answer = .error ⟨404, "trace not found"⟩ := by
  rw [Multiset.filter_zero, spansOf_zero]

theorem answers_overview (h : scope auth projectId = .ok project) :
    Answers engine store auth (.analyticsOverview projectId) answer ↔
      ∃ summary, OverviewOf engine (store.rows.filter fun row => restricted project row.projectId) summary ∧
        answer = .ok (.overview summary) := by
  simp only [Answers, AnalyticsOverview]
  rw [onProject_scoped h overviewOf_none]

theorem answers_traces {limit : Int} {service : Option String} (h : scope auth projectId = .ok project)
    (hlimit : ¬(limit < 1 ∨ 1000 < limit)) :
    Answers engine store auth (.listTraces limit projectId service) answer ↔
      ∃ items, TracesOf (store.rows.filter fun row => restricted project row.projectId ∧
        restricted service row.serviceName) limit.toNat items ∧ answer = .ok (.traces items) := by
  simp only [Answers, ListTraces, if_neg hlimit]
  rw [onProject_scoped h tracesOf_none]

theorem answers_models (h : scope auth projectId = .ok project) :
    Answers engine store auth (.analyticsModels projectId) answer ↔
      ∃ items, ModelsOf engine (store.rows.filter fun row =>
        (engine.jsonExtractString row.attributesJson "$.\"gen_ai.request.model\"").isSome ∧
          restricted project row.projectId) items ∧ answer = .ok (.models items) := by
  simp only [Answers, AnalyticsModels]
  rw [onProject_scoped h modelsOf_none]

theorem answers_trace {traceId : String} (h : scope auth projectId = .ok project) :
    Answers engine store auth (.getTrace traceId projectId) answer ↔
      SpansOf (store.rows.filter fun row => row.traceId = traceId ∧ restricted project row.projectId)
        answer := by
  simp only [Answers, GetTrace]
  rw [onProject_scoped h spansOf_none]

end Scoped

/-- The spans of one trace have what its summary says. -/
structure Summarised (trace : Trace) (spans : List Row) : Prop where
  count : trace.spanCount = spans.length
  start : trace.startTimeUnixNano = spans.head?.map Row.startTimeUnixNano
  errors : trace.errorCount = some ((spans.countP fun row => row.statusCode = 2 : Nat) : Int)
  services : ∀ name, name ∈ trace.services ↔ name ≠ "" ∧ ∃ row ∈ spans, row.serviceName = some name

/-- What the answers on the same rows have to do with one another. -/
structure Agree {F : Type} (engine : Engine F) (limit : Nat) (summary : Overview F) (items : List Trace)
    (metrics : List (ModelMetrics F)) : Prop where
  traces : items.length = min limit summary.totalTraces
  distinct : (items.map Trace.traceId).Nodup
  newest : items.Pairwise newest
  spans : (items.map Trace.spanCount).sum ≤ summary.totalSpans
  allSpans : summary.totalTraces ≤ limit → (items.map Trace.spanCount).sum = summary.totalSpans
  services : summary.totalTraces ≤ limit →
    ∀ name, name ∈ summary.uniqueServices ↔ ∃ trace ∈ items, name ∈ trace.services
  errors : summary.totalTraces ≤ limit → 0 < summary.totalSpans → summary.errorRate = engine.round
    (engine.intDiv (items.map fun trace => trace.errorCount.getD 0).sum summary.totalSpans) 4
  models : (metrics.map ModelMetrics.model).Nodup
  requests : ((metrics.map ModelMetrics.requestCount).sum : Int) ≤ summary.totalLlmRequests
  llmRequests : summary.totalLlmRequests ≤ summary.totalSpans

section Rows

variable {F : Type} {engine : Engine F} {rows : Multiset Row} {limit : Nat} {items : List Trace}
  {trace : Trace} {summary : Overview F} {metrics : List (ModelMetrics F)}

theorem errorSpans_getD (rows : Multiset Row) :
    (errorSpans rows).getD 0 = (rows.map fun row => if row.statusCode = 2 then (1 : Int) else 0).sum := by
  by_cases h : rows = 0
  · rw [h]
    rfl
  · rw [errorSpans, sumOf_some h, Option.getD_some]

/-- How many rows there are of a kind. -/
theorem sum_indicator {p : Row → Prop} [DecidablePred p] (rows : Multiset Row) :
    (rows.map fun row => if p row then (1 : Int) else 0).sum = (rows.countP p : Nat) := by
  induction rows using Multiset.induction with
  | empty => rfl
  | cons row rows ih =>
    rw [Multiset.map_cons, Multiset.sum_cons, ih]
    by_cases h : p row
    · rw [if_pos h, Multiset.countP_cons_of_pos _ h]
      omega
    · rw [if_neg h, Multiset.countP_cons_of_neg _ h]
      omega

theorem mem_services {services : List String} (h : Services rows services) (name : String) :
    name ∈ services ↔ name ≠ "" ∧ ∃ row ∈ rows, row.serviceName = some name := by
  obtain ⟨names, hnames, rfl⟩ := h
  have hmem : name ∈ names ↔ ∃ row ∈ rows, row.serviceName = some name := by
    rw [← Multiset.mem_coe, hnames, Multiset.mem_dedup, mem_known, Multiset.mem_map]
  simp [hmem, and_comm]

theorem mem_uniqueServices (h : OverviewOf engine rows summary) (name : String) :
    name ∈ summary.uniqueServices ↔ name ≠ "" ∧ ∃ row ∈ rows, row.serviceName = some name := by
  obtain ⟨services, hservices, rfl⟩ := h
  have hmem : name ∈ services ↔ name ≠ "" ∧ ∃ row ∈ rows, row.serviceName = some name := by
    rw [← Multiset.mem_coe, hservices, Multiset.mem_dedup, mem_known, Multiset.mem_map]
    constructor
    · intro ⟨row, hrow, hname⟩
      obtain ⟨hmem, -, hne⟩ := Multiset.mem_filter.mp hrow
      exact ⟨fun hempty => hne (hempty ▸ hname), row, hmem, hname⟩
    · intro ⟨hne, row, hrow, hname⟩
      refine ⟨row, Multiset.mem_filter.mpr ⟨hrow, by simp [hname], fun hempty => hne ?_⟩, hname⟩
      exact Option.some.inj (hname.symm.trans hempty)
  show name ∈ services.filter (· ≠ "") ↔ _
  rw [List.mem_filter, hmem]
  constructor
  · exact fun h => h.1
  · exact fun h => ⟨h, by simpa using h.1⟩

/-- The spans of a trace are its group. -/
theorem IsTrace.summarised {spans : List Row} (h : IsTrace rows trace) (hne : rows ≠ 0)
    (hspans : Ordered (fun a b => a.startTimeUnixNano ≤ b.startTimeUnixNano) rows spans) :
    Summarised trace spans where
  count := by rw [h.count, ← hspans.1, Multiset.coe_card]
  start := by
    obtain ⟨hrows, hordered⟩ := hspans
    cases spans with
    | nil => exact absurd hrows.symm hne
    | cons first rest =>
      rw [h.start, ← hrows, minOf_some (a := first) (Multiset.mem_coe.mpr List.mem_cons_self)]
      · rfl
      · intro row hrow
        rcases List.mem_cons.mp (Multiset.mem_coe.mp hrow) with heq | hrest
        · rw [heq]
        · exact List.rel_of_pairwise_cons hordered hrest
  errors := by
    rw [h.errors, errorSpans, sumOf_some hne, sum_indicator, ← hspans.1, Multiset.coe_countP]
  services name := by
    rw [mem_services h.services, ← hspans.1]
    rfl

theorem TracesOf.mem (h : TracesOf rows limit items) (htrace : trace ∈ items) :
    ∃ group, group = (rows.filter fun row => row.traceId = trace.traceId) ∧ group ≠ 0 ∧
      IsTrace group trace := by
  obtain ⟨table, hrel, hlimited⟩ := h
  obtain ⟨group, hgroup, htraceId, his⟩ :=
    Multiset.exists_mem_of_rel_of_mem (Multiset.rel_flip.mpr hrel) (hlimited.mem htrace)
  refine ⟨group.2, ?_, (of_mem_groupBy hgroup).2.1, his⟩
  rw [htraceId]
  exact filter_of_mem_groupBy hgroup

/-- The groups of all traces, before the limit. -/
structure Tabulated (rows : Multiset Row) (table : Multiset Trace) : Prop where
  ids : table.map Trace.traceId = (rows.map Row.traceId).dedup
  spans : (table.map Trace.spanCount).sum = rows.card
  errors : (table.map fun trace => trace.errorCount.getD 0).sum = (errorSpans rows).getD 0
  services : ∀ name, (∃ trace ∈ table, name ∈ trace.services) ↔
    name ≠ "" ∧ ∃ row ∈ rows, row.serviceName = some name

theorem tabulated_of_rel {table : Multiset Trace} (h : Multiset.Rel (fun group trace =>
    trace.traceId = group.1 ∧ IsTrace group.2 trace) (groupBy Row.traceId rows) table) :
    Tabulated rows table where
  ids := by
    rw [← map_fst_groupBy]
    exact (map_of_rel h fun group trace hgroup => hgroup.1.symm).symm
  spans := by
    have hcard := congrArg Multiset.card (groupBy_bind Row.traceId rows)
    rw [Multiset.card_bind] at hcard
    rw [← hcard]
    exact congrArg Multiset.sum (map_of_rel h fun group trace hgroup => hgroup.2.count.symm).symm
  errors := by
    rw [errorSpans_getD, ← groupBy_sum Row.traceId]
    have hgroups := @map_of_rel _ _ _ _ _ _ (fun group : String × Multiset Row => (errorSpans group.2).getD 0)
      (fun trace : Trace => trace.errorCount.getD 0) h fun group trace hgroup => by rw [hgroup.2.errors]
    rw [← hgroups]
    simp only [errorSpans_getD]
  services name := by
    constructor
    · intro ⟨trace, htrace, hname⟩
      obtain ⟨group, hgroup, -, his⟩ :=
        Multiset.exists_mem_of_rel_of_mem (Multiset.rel_flip.mpr h) htrace
      obtain ⟨hne, row, hrow, hservice⟩ := (mem_services his.services name).mp hname
      exact ⟨hne, row, Multiset.mem_of_le (of_mem_groupBy hgroup).1 hrow, hservice⟩
    · intro ⟨hne, row, hrow, hservice⟩
      have hbind := groupBy_bind Row.traceId rows
      rw [← hbind] at hrow
      obtain ⟨group, hgroup, hmem⟩ := Multiset.mem_bind.mp hrow
      obtain ⟨trace, htrace, -, his⟩ := Multiset.exists_mem_of_rel_of_mem h hgroup
      exact ⟨trace, htrace, (mem_services his.services name).mpr ⟨hne, row, hmem, hservice⟩⟩

theorem countDistinct_traces {table : Multiset Trace} (h : Tabulated rows table) :
    countDistinct (rows.map fun row => some row.traceId) = table.card := by
  rw [countDistinct, known_some, ← h.ids, Multiset.card_map]

/-- Every span that names a model is a request to one. -/
theorem isLlmRequest_of_model {row : Row}
    (h : (engine.jsonExtractString row.attributesJson "$.\"gen_ai.request.model\"").isSome) :
    isLlmRequest engine row = true := by
  simp [isLlmRequest, h]

theorem ModelsOf.requests (h : ModelsOf engine rows metrics) :
    (metrics.map ModelMetrics.requestCount).sum = rows.card := by
  have hcard := congrArg Multiset.card (groupBy_bind (fun row : Row =>
    engine.jsonExtractString row.attributesJson "$.\"gen_ai.request.model\"") rows)
  rw [Multiset.card_bind] at hcard
  rw [← hcard, ← Multiset.sum_coe, ← Multiset.map_coe, h.1, Multiset.map_map]
  rfl

theorem ModelsOf.models (h : ModelsOf engine rows metrics) : (metrics.map ModelMetrics.model).Nodup := by
  rw [← Multiset.coe_nodup, ← Multiset.map_coe, h.1, Multiset.map_map]
  have hkeys := map_fst_groupBy (fun row : Row =>
    engine.jsonExtractString row.attributesJson "$.\"gen_ai.request.model\"") rows
  have hnodup := Multiset.nodup_dedup (rows.map fun row : Row =>
    engine.jsonExtractString row.attributesJson "$.\"gen_ai.request.model\"")
  rw [← hkeys] at hnodup
  exact hnodup

theorem OverviewOf.llmRequests (h : OverviewOf engine rows summary) :
    summary.totalLlmRequests = (rows.countP fun row => isLlmRequest engine row : Nat) := by
  obtain ⟨services, -, rfl⟩ := h
  show (sumOf (rows.map fun row => some (if isLlmRequest engine row then (1 : Int) else 0))).getD 0 = _
  by_cases hzero : rows = 0
  · rw [hzero]
    rfl
  · rw [sumOf_some hzero, Option.getD_some, sum_indicator]

theorem OverviewOf.totalTraces (h : OverviewOf engine rows summary) :
    summary.totalTraces = countDistinct (rows.map fun row => some row.traceId) := by
  obtain ⟨services, -, rfl⟩ := h
  rfl

/-- The trace of every row is listed, if the limit admits all traces. -/
theorem TracesOf.exists_trace (h : TracesOf rows limit items)
    (hle : countDistinct (rows.map fun row => some row.traceId) ≤ limit) {row : Row} (hrow : row ∈ rows) :
    ∃ trace ∈ items, trace.traceId = row.traceId := by
  obtain ⟨table, hrel, hlimited⟩ := h
  have htable := tabulated_of_rel hrel
  rw [countDistinct_traces htable] at hle
  have hmem : row.traceId ∈ table.map Trace.traceId := by
    rw [htable.ids, Multiset.mem_dedup]
    exact Multiset.mem_map_of_mem Row.traceId hrow
  rw [← (hlimited.ordered hle).1] at hmem
  exact Multiset.mem_map.mp hmem

/-- The three queries on the rows of one project. -/
theorem agree_of_rows {p : Row → Prop} [DecidablePred p] (hsummary : OverviewOf engine rows summary)
    (hitems : TracesOf rows limit items) (hmetrics : ModelsOf engine (rows.filter p) metrics)
    (hp : ∀ row, p row → isLlmRequest engine row = true) : Agree engine limit summary items metrics := by
  obtain ⟨table, hrel, hlimited⟩ := hitems
  have htable := tabulated_of_rel hrel
  have htotal : summary.totalTraces = table.card := by
    rw [hsummary.totalTraces, countDistinct_traces htable]
  have hspans : summary.totalSpans = rows.card := by
    obtain ⟨services, -, hsame⟩ := hsummary
    rw [hsame]
  have hllm := hsummary.llmRequests
  have hall : summary.totalTraces ≤ limit → (items : Multiset Trace) = table :=
    fun hle => (hlimited.ordered (htotal ▸ hle)).1
  constructor
  case traces => rw [hlimited.length, htotal]
  case distinct =>
    have hnodup := Multiset.nodup_dedup (rows.map Row.traceId)
    rw [← htable.ids] at hnodup
    exact Multiset.coe_nodup.mp (Multiset.nodup_of_le (Multiset.map_le_map hlimited.le_rows) hnodup)
  case newest =>
    obtain ⟨all, hordered, hitems⟩ := hlimited
    rw [hitems]
    exact hordered.2.sublist (List.take_sublist limit all)
  case spans =>
    obtain ⟨all, hordered, hitems⟩ := hlimited
    have hsum : (all.map Trace.spanCount).sum = rows.card := by
      rw [← htable.spans, ← hordered.1]
      rfl
    rw [hspans, ← hsum, hitems]
    exact ((List.take_sublist limit all).map _).sum_le_sum fun _ _ => Nat.zero_le _
  case allSpans =>
    intro hle
    rw [hspans, ← htable.spans, ← hall hle]
    rfl
  case services =>
    intro hle name
    rw [mem_uniqueServices hsummary, ← htable.services, ← hall hle]
    rfl
  case errors =>
    intro hle hpos
    have hsum : (items.map fun trace => trace.errorCount.getD 0).sum = (errorSpans rows).getD 0 := by
      rw [← htable.errors, ← hall hle]
      rfl
    rw [hspans] at hpos
    obtain ⟨services, -, hsame⟩ := hsummary
    rw [hsum, hsame]
    simp only [if_pos hpos]
  case models => exact hmetrics.models
  case requests =>
    rw [hmetrics.requests, hllm, Multiset.countP_eq_card_filter]
    exact Int.ofNat_le.mpr (Multiset.card_le_card (Multiset.monotone_filter_right rows hp))
  case llmRequests =>
    rw [hllm, hspans]
    exact Int.ofNat_le.mpr (Multiset.countP_le_card _ _)

end Rows

section Endpoints

variable {F : Type} {engine : Engine F} {store : DataStore} {auth : AuthIdentity}
  {projectId : Option String} {limit : Int} {items : List Trace} {summary : Overview F}
  {metrics : List (ModelMetrics F)}

/-- A caller who gets a summary has a project to ask for. -/
theorem scope_of_overview
    (h : Answers engine store auth (.analyticsOverview projectId) (.ok (.overview summary))) :
    ∃ project, scope auth projectId = .ok project := by
  cases hscope : scope auth projectId with
  | error e =>
    simp only [Answers, AnalyticsOverview] at h
    rw [onProject_error hscope] at h
    cases h
  | ok project => exact ⟨project, rfl⟩

/-- What a caller is told by different endpoints fits together, and the details of every trace that is
listed can be asked for; when all traces are listed, there are no others. -/
theorem endpoints_agree
    (hoverview : Answers engine store auth (.analyticsOverview projectId) (.ok (.overview summary)))
    (htraces : Answers engine store auth (.listTraces limit projectId none) (.ok (.traces items)))
    (hmodels : Answers engine store auth (.analyticsModels projectId) (.ok (.models metrics))) :
    Agree engine limit.toNat summary items metrics ∧
    (∀ trace ∈ items, ∀ answer, Answers engine store auth (.getTrace trace.traceId projectId) answer →
      ∃ spans, answer = .ok (.spans spans) ∧ Summarised trace spans) ∧
    (summary.totalTraces ≤ limit.toNat → ∀ traceId, (∀ trace ∈ items, trace.traceId ≠ traceId) →
      ∀ answer, Answers engine store auth (.getTrace traceId projectId) answer →
        answer = .error ⟨404, "trace not found"⟩) := by
  have hlimit : ¬(limit < 1 ∨ 1000 < limit) := by
    intro hlimit
    simp [Answers, ListTraces, if_pos hlimit] at htraces
  obtain ⟨project, hscope⟩ := scope_of_overview hoverview
  rw [answers_overview hscope] at hoverview
  rw [answers_traces hscope hlimit] at htraces
  rw [answers_models hscope] at hmodels
  obtain ⟨_, hsummary, hsame⟩ := hoverview
  obtain rfl := Body.overview.inj (Except.ok.inj hsame)
  obtain ⟨_, hitems, hsame⟩ := htraces
  obtain rfl := Body.traces.inj (Except.ok.inj hsame)
  obtain ⟨_, hmetrics, hsame⟩ := hmodels
  obtain rfl := Body.models.inj (Except.ok.inj hsame)
  have hservice : (store.rows.filter fun row => restricted project row.projectId ∧
      restricted none row.serviceName) = store.rows.filter fun row => restricted project row.projectId := by
    simp [restricted, given]
  rw [hservice] at hitems
  rw [← Multiset.filter_filter] at hmetrics
  have hget : ∀ traceId answer, Answers engine store auth (.getTrace traceId projectId) answer →
      SpansOf ((store.rows.filter fun row => restricted project row.projectId).filter fun row =>
        row.traceId = traceId) answer := by
    intro traceId answer h
    rw [Multiset.filter_filter]
    exact (answers_trace hscope).mp h
  refine ⟨?_, ?_, ?_⟩
  · exact agree_of_rows hsummary hitems hmetrics fun row => isLlmRequest_of_model
  · intro trace htrace answer hanswer
    obtain ⟨group, hgroup, hne, his⟩ := hitems.mem htrace
    obtain ⟨spans, hspans, rfl⟩ := hget _ _ hanswer
    rw [← hgroup] at hspans
    have hsome : spans ≠ [] := fun hnil => hne (by rw [← hspans.1, hnil]; rfl)
    exact ⟨spans, if_neg hsome, his.summarised hne hspans⟩
  · intro hle traceId hother answer hanswer
    obtain ⟨spans, hspans, rfl⟩ := hget _ _ hanswer
    have hnone : ((store.rows.filter fun row => restricted project row.projectId).filter fun row =>
        row.traceId = traceId) = 0 := by
      apply Multiset.filter_eq_nil.mpr
      intro row hrow heq
      obtain ⟨trace, htrace, hsame⟩ := hitems.exists_trace (hsummary.totalTraces ▸ hle) hrow
      exact hother trace htrace (hsame.trans heq)
    rw [hnone] at hspans
    exact if_pos (ordered_zero.mp hspans)

end Endpoints

theorem endpoints_agree_quiet : ∃ (summary : Overview Rat) (items : List Trace)
    (metrics : List (ModelMetrics Rat)), items.length = 1 ∧ Agree sampleEngine 100 summary items metrics := by
  obtain ⟨services, hservices⟩ := exists_distinct (known (((quietStore.rows.filter fun row =>
    restricted none row.projectId).filter fun row => row.serviceName.isSome ∧
      row.serviceName ≠ some "").map Row.serviceName))
  obtain ⟨items, hitems⟩ := exists_tracesOf (quietStore.rows.filter fun row =>
    restricted none row.projectId ∧ restricted none row.serviceName) 100
  obtain ⟨metrics, hmetrics⟩ := exists_ordered
    (fun metrics : ModelMetrics Rat => OrderDual.toDual metrics.requestCount)
    ((groupBy (fun row => sampleEngine.jsonExtractString row.attributesJson "$.\"gen_ai.request.model\"")
      (quietStore.rows.filter fun row =>
        (sampleEngine.jsonExtractString row.attributesJson "$.\"gen_ai.request.model\"").isSome ∧
          restricted none row.projectId)).map fun group => modelMetrics sampleEngine group.1 group.2)
  have hscope : scope ⟨true, none⟩ none = .ok none := rfl
  obtain ⟨hagree, -⟩ := @endpoints_agree Rat sampleEngine quietStore ⟨true, none⟩ none 100 items _ metrics
    ((answers_overview hscope).mpr ⟨_, ⟨services, hservices, rfl⟩, rfl⟩)
    ((answers_traces hscope (by decide)).mpr ⟨items, hitems, rfl⟩)
    ((answers_models hscope).mpr ⟨metrics, hmetrics, rfl⟩)
  have hcount : countDistinct ((quietStore.rows.filter fun row => restricted none row.projectId).map
      fun row => some row.traceId) = 1 := by decide +kernel
  refine ⟨_, items, metrics, ?_, hagree⟩
  rw [hagree.traces]
  exact congrArg (min 100) hcount

end Lrcp.Api
