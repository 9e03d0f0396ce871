import Lrcp.Api.Isolation
import Mathlib.Data.Finset.Max
import Mathlib.Algebra.Order.BigOperators.Group.Multiset

namespace Lrcp.Api

open Lrcp.Otlp (Row Libs rows requestRows inInt64)
open Lrcp.Framework.Sql

/-- The rows that `list_traces` selects, those of the project and the service. -/
def DataStore.selected (store : DataStore) (auth : AuthIdentity) (projectId service : Option String) :
    Multiset Row :=
  match scope auth projectId with
  | .error _ => 0
  | .ok projectId => store.rows.filter fun row =>
      restricted projectId row.projectId ∧ restricted service row.serviceName

/-- The spans that one item of `list_traces` summarises. -/
def DataStore.spansOf (store : DataStore) (auth : AuthIdentity) (projectId service : Option String)
    (trace : Trace) : Multiset Row :=
  (store.selected auth projectId service).filter fun row => row.traceId = trace.traceId

/-- The row is one that `_rows` made of a span with times below `2 ^ 63`. -/
structure Ingested (libs : Libs) (row : Row) : Prop where
  produced : ∃ payload sourceFile recordOffset rs,
    rows libs payload sourceFile recordOffset = .ok rs ∧ row ∈ rs
  start : row.startTimeUnixNano < 2 ^ 63
  stop : row.endTimeUnixNano < 2 ^ 63

/-- The durations of a trace and those of its spans agree. -/
structure Consistent (spans : Multiset Row) (trace : Trace) (wall total : Int) : Prop where
  wallClock : trace.wallClockDurationNs = some wall
  aggregate : trace.aggregateSpanDurationNs = some total
  noOverflow : inInt64 wall
  span : ∀ row ∈ spans, 0 ≤ (row.durationNs : Int) ∧ (row.durationNs : Int) ≤ wall
  spans : total ≤ trace.spanCount * wall

section Rows

variable {libs : Libs} {row : Row}

/-- The duration is clamped at ingestion. -/
theorem rows_duration {payload : Wal.Bytes} {sourceFile : String} {recordOffset : Nat}
    {rs : List Row} (h : rows libs payload sourceFile recordOffset = .ok rs) (hr : row ∈ rs) :
    row.durationNs = row.endTimeUnixNano - row.startTimeUnixNano := by
  unfold rows at h
  split at h
  · cases h
  · split_ifs at h with h0
    rw [← Except.ok.inj h] at hr
    simp only [requestRows, List.mem_flatMap, List.mem_map] at hr
    obtain ⟨_, -, _, -, span, -, hspan⟩ := hr
    rw [← hspan]
    rfl

theorem Ingested.duration (h : Ingested libs row) :
    row.durationNs = row.endTimeUnixNano - row.startTimeUnixNano := by
  obtain ⟨_, _, _, _, hrows, hmem⟩ := h.produced
  exact rows_duration hrows hmem

end Rows

section Traces

variable {libs : Libs} {spans : Multiset Row} {trace : Trace}

/-- The first start and the last end of a trace, the difference of which is reported. -/
theorem IsTrace.ends (h : IsTrace spans trace) (hne : spans ≠ 0) :
    ∃ first ∈ spans, ∃ last ∈ spans,
      (∀ row ∈ spans, first.startTimeUnixNano ≤ row.startTimeUnixNano) ∧
      (∀ row ∈ spans, row.endTimeUnixNano ≤ last.endTimeUnixNano) ∧
      trace.wallClockDurationNs = some ((last.endTimeUnixNano : Int) - first.startTimeUnixNano) := by
  obtain ⟨first, hfirst, hmin⟩ := Multiset.exists_min_image Row.startTimeUnixNano hne
  obtain ⟨last, hlast, hmax⟩ := Multiset.exists_max_image Row.endTimeUnixNano hne
  refine ⟨first, hfirst, last, hlast, hmin, hmax, ?_⟩
  have hlatest : maxOf (spans.map fun row => some (row.endTimeUnixNano : Int)) =
      some (last.endTimeUnixNano : Int) :=
    maxOf_some hlast fun row hrow => Int.ofNat_le.mpr (hmax row hrow)
  rw [h.wallClock, hlatest, minOf_some hfirst hmin]
  rfl

/-- Some span starts no later than some span ends. -/
def Overlaps (spans : Multiset Row) : Prop :=
  ∃ row ∈ spans, ∃ row' ∈ spans, row.startTimeUnixNano ≤ row'.endTimeUnixNano

theorem IsTrace.noOverflow (h : IsTrace spans trace) (hne : spans ≠ 0)
    (hrows : ∀ row ∈ spans, Ingested libs row) :
    ∃ wall, trace.wallClockDurationNs = some wall ∧ inInt64 wall := by
  obtain ⟨first, hfirst, last, hlast, -, -, hwall⟩ := h.ends hne
  refine ⟨_, hwall, ?_⟩
  have hstart := (hrows first hfirst).start
  have hstop := (hrows last hlast).stop
  simp only [inInt64, decide_eq_true_eq]
  omega

theorem IsTrace.consistent_iff (h : IsTrace spans trace) (hne : spans ≠ 0)
    (hrows : ∀ row ∈ spans, Ingested libs row) :
    (∃ wall total, Consistent spans trace wall total) ↔ Overlaps spans := by
  obtain ⟨first, hfirst, last, hlast, hmin, hmax, hwall⟩ := h.ends hne
  constructor
  · intro ⟨wall, total, hc⟩
    have hbound := hc.span first hfirst
    have hvalue := Option.some.inj (hwall.symm.trans hc.wallClock)
    exact ⟨first, hfirst, last, hlast, by omega⟩
  · intro ⟨row, hrow, row', hrow', hle⟩
    have hordered : first.startTimeUnixNano ≤ last.endTimeUnixNano :=
      ((hmin row hrow).trans hle).trans (hmax row' hrow')
    have hspan : ∀ row ∈ spans,
        (row.durationNs : Int) ≤ (last.endTimeUnixNano : Int) - first.startTimeUnixNano := by
      intro row hrow
      have hduration := (hrows row hrow).duration
      have hstart := hmin row hrow
      have hstop := hmax row hrow
      omega
    have htotal : (spans.map fun row => (row.durationNs : Int)).sum ≤
        spans.card * ((last.endTimeUnixNano : Int) - first.startTimeUnixNano) := by
      have hsum := Multiset.sum_le_card_nsmul (spans.map fun row => (row.durationNs : Int))
        ((last.endTimeUnixNano : Int) - first.startTimeUnixNano) (by simpa using hspan)
      simpa using hsum
    obtain ⟨_, hwall', hfits⟩ := h.noOverflow hne hrows
    refine ⟨_, _, hwall, h.aggregate.trans (sumOf_some hne), ?_, fun row hrow => ?_, ?_⟩
    · rw [Option.some.inj (hwall.symm.trans hwall')]
      exact hfits
    · exact ⟨by omega, hspan row hrow⟩
    · rw [h.count]
      exact htotal

variable {F : Type} {store : DataStore} {auth : AuthIdentity} {limit : Int}
  {projectId service : Option String} {items : List Trace}

/-- Every item has the aggregates of the selected rows of its trace, of which there are some. -/
theorem listTraces_item
    (h : ListTraces store auth limit projectId service (.ok (.traces items) : Answer F))
    (htrace : trace ∈ items) :
    IsTrace (store.spansOf auth projectId service trace) trace ∧
      store.spansOf auth projectId service trace ≠ 0 := by
  unfold ListTraces at h
  split_ifs at h with hlimit
  unfold onProject at h
  cases hscope : scope auth projectId with
  | error e => simp [hscope] at h
  | ok owner =>
    simp only [hscope] at h
    split_ifs at h with hfiles
    · simp only [Except.ok.injEq, Body.traces.injEq] at h
      simp [h] at htrace
    · obtain ⟨items', ⟨table, hrel, hlimited⟩, hitems⟩ := h
      have hsame : items = items' := by simpa using hitems
      rw [hsame] at htrace
      obtain ⟨group, hgroup, htraceId, his⟩ :=
        Multiset.exists_mem_of_rel_of_mem (Multiset.rel_flip.mpr hrel) (hlimited.mem htrace)
      have hspans : store.spansOf auth projectId service trace = group.2 := by
        rw [filter_of_mem_groupBy hgroup, ← htraceId]
        simp only [DataStore.spansOf, DataStore.selected, hscope]
      rw [hspans]
      exact ⟨his, (of_mem_groupBy hgroup).2.1⟩

theorem mem_of_mem_spansOf {row : Row} (h : row ∈ store.spansOf auth projectId service trace) :
    row ∈ store.rows := by
  have hselected := Multiset.mem_of_mem_filter h
  unfold DataStore.selected at hselected
  split at hselected
  · cases Multiset.notMem_zero row hselected
  · exact Multiset.mem_of_mem_filter hselected

/-- The durations of an item of `list_traces` are consistent exactly when its trace does
not start after it has ended. The reported difference never overflows. -/
theorem listTraces_durations
    (hrows : ∀ row ∈ store.rows, Ingested libs row)
    (h : ListTraces store auth limit projectId service (.ok (.traces items) : Answer F)) :
    ∀ trace ∈ items,
      (∃ wall, trace.wallClockDurationNs = some wall ∧ inInt64 wall) ∧
      ((∃ wall total,
          Consistent (store.spansOf auth projectId service trace) trace wall total) ↔
        Overlaps (store.spansOf auth projectId service trace)) := by
  intro trace htrace
  obtain ⟨his, hne⟩ := listTraces_item h htrace
  have hspans : ∀ row ∈ store.spansOf auth projectId service trace, Ingested libs row :=
    fun row hrow => hrows row (mem_of_mem_spansOf hrow)
  exact ⟨his.noOverflow hne hspans, his.consistent_iff hne hspans⟩

end Traces

section Examples

def timedSpan (stop : UInt64) : Otlp.Span :=
  { Store.bareSpan with startTimeUnixNano := 5, endTimeUnixNano := stop }

/-- The encoding of a request with this span, for a stop below 256. -/
def timedPayload (stop : UInt8) : Wal.Bytes :=
  [0x0a, 0x16, 0x12, 0x14, 0x12, 0x12, 0x39, 5, 0, 0, 0, 0, 0, 0, 0, 0x41, stop, 0, 0, 0, 0, 0, 0, 0]

/-- The libraries as they behave on two such payloads. -/
def timedLibs : Libs :=
  { Store.sampleLibs with
    parseFromString := fun payload =>
      if payload = timedPayload 15 then some (Store.spanRequest (timedSpan 15))
      else if payload = timedPayload 0 then some (Store.spanRequest (timedSpan 0))
      else none }

def timedRow (stop : UInt64) : Row :=
  Otlp.spanRow timedLibs "wal-0.wal" 0 [] none none none none (timedSpan stop)

def timedStore (stop : UInt64) : DataStore := .ofFiles [("a.parquet", [timedRow stop])] []

def timedTrace (stop : UInt64) : Trace where
  traceId := ""
  startTimeUnixNano := some 5
  endTimeUnixNano := some stop.toNat
  wallClockDurationNs := some (stop.toNat - 5)
  aggregateSpanDurationNs := some (stop.toNat - 5 : Nat)
  spanCount := 1
  serviceName := none
  services := []
  projectId := none
  errorCount := some 0

theorem isTrace_timed (stop : UInt64) : IsTrace {timedRow stop} (timedTrace stop) where
  start := rfl
  stop := rfl
  wallClock := rfl
  aggregate := rfl
  count := rfl
  service := rfl
  services := ⟨[], rfl, rfl⟩
  project := rfl
  errors := rfl

theorem listTraces_timed (stop : UInt64) :
    ListTraces (timedStore stop) ⟨true, none⟩ 100 none none
      (.ok (.traces [timedTrace stop]) : Answer Rat) := by
  have hgroups : groupBy Row.traceId ((timedStore stop).rows.filter fun row =>
      restricted none row.projectId ∧ restricted none row.serviceName) =
      {("", {timedRow stop})} := rfl
  show ∃ items, TracesOf ((timedStore stop).rows.filter fun row =>
    restricted none row.projectId ∧ restricted none row.serviceName) 100 items ∧ _ = _
  refine ⟨[timedTrace stop], ⟨{timedTrace stop}, ?_, ?_⟩, rfl⟩
  · rw [hgroups]
    exact .cons ⟨rfl, isTrace_timed stop⟩ .zero
  · exact ⟨_, ⟨rfl, List.pairwise_singleton _ _⟩, rfl⟩

theorem ingested_timed {stop : UInt64} (h : stop = 15 ∨ stop = 0) :
    ∀ row ∈ (timedStore stop).rows, Ingested timedLibs row := by
  intro row hrow
  rw [Multiset.mem_singleton.mp (show row ∈ {timedRow stop} from hrow)]
  refine ⟨⟨timedPayload stop.toUInt8, "wal-0.wal", 0, [timedRow stop], ?_, List.mem_singleton_self _⟩,
    ?_, ?_⟩
  · rcases h with rfl | rfl <;> rfl
  · show (5 : Nat) < 2 ^ 63
    omega
  · rcases h with rfl | rfl <;> decide

theorem listTraces_durations_timed :
    (∃ wall, (timedTrace 15).wallClockDurationNs = some wall ∧ inInt64 wall) ∧
    ((∃ wall total,
        Consistent ((timedStore 15).spansOf ⟨true, none⟩ none none (timedTrace 15)) (timedTrace 15)
          wall total) ↔
      Overlaps ((timedStore 15).spansOf ⟨true, none⟩ none none (timedTrace 15))) :=
  listTraces_durations (ingested_timed (.inl rfl)) (listTraces_timed 15) (timedTrace 15) (by simp)

/-- A span without an end: the wall-clock duration of its trace is negative. -/
theorem not_listTraces_durations :
    (∀ row ∈ (timedStore 0).rows, Ingested timedLibs row) ∧
    ListTraces (timedStore 0) ⟨true, none⟩ 100 none none
      (.ok (.traces [timedTrace 0]) : Answer Rat) ∧
    ¬∃ wall total, Consistent ((timedStore 0).spansOf ⟨true, none⟩ none none (timedTrace 0))
      (timedTrace 0) wall total := by
  refine ⟨ingested_timed (.inr rfl), listTraces_timed 0, ?_⟩
  intro ⟨wall, total, h⟩
  have hwall : -5 = wall := Option.some.inj h.wallClock
  have hspan := h.span (timedRow 0) (Multiset.mem_singleton_self _)
  omega

end Examples

end Lrcp.Api
