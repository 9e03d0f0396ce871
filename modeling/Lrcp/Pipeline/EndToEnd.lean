import Lrcp.Framework.Sql
import Lrcp.Pipeline.Ingestion
import Lrcp.Store.Concurrent
import Lrcp.Store.Delivery
import Lrcp.Store.Schedule
import Lrcp.Wal.Format
import Mathlib.Algebra.Order.BigOperators.Group.List

namespace Lrcp.Pipeline

open Lrcp.Framework Lrcp.Wal Lrcp.Gateway

/-- The request that a record comes from: its segment and its body. -/
def posted (e : Store.Entry) : String × Bytes := (e.1, e.2.payload)

def payloadOf (e : Store.Entry) : Bytes := e.2.payload

/-- The records of the bodies stored, segment by segment, as the backend reads them. -/
def entriesOf (stored : List (String × Bytes)) (M : Nat) : List Store.Entry :=
  (stored.map Prod.fst).dedup.flatMap fun f =>
    (walRecordsFrom f ((bodiesOf stored f).flatMap encodeRecord) 0 M).1.map fun r => (f, r)

/-- The spans of the requests with these bodies. -/
def spansOf (protobuf : Protobuf) (bodies : List Bytes) : Nat :=
  (bodies.map fun body => ((protobuf.parseFromString body).map spanCount).getD 0).sum

section Entries

variable {M : Nat} {stored : List (String × Bytes)} {e : Store.Entry}

theorem bodiesOf_posted (stored : List (String × Bytes)) (f : String) :
    (bodiesOf stored f).map (fun body => (f, body)) = stored.filter fun entry => entry.1 = f := by
  unfold bodiesOf
  rw [List.map_map]
  conv_rhs => rw [← List.map_id (stored.filter fun entry => entry.1 = f)]
  apply List.map_congr_left
  intro entry he
  have hf : entry.1 = f := by simpa using (List.mem_filter.mp he).2
  simp [← hf]

/-- The requests stored, segment by segment. -/
theorem stored_perm (stored : List (String × Bytes)) :
    ((stored.map Prod.fst).dedup.flatMap fun f =>
      (bodiesOf stored f).map fun body => (f, body)).Perm stored := by
  apply Multiset.coe_eq_coe.mp
  have hbind := Sql.groupBy_bind Prod.fst (stored : Multiset (String × Bytes))
  rw [Sql.groupBy, Multiset.bind_map, Multiset.map_coe, Multiset.coe_dedup] at hbind
  simp only [Multiset.filter_coe, Multiset.coe_bind] at hbind
  conv_rhs => rw [← hbind]
  simp only [bodiesOf_posted]

theorem mem_entriesOf :
    e ∈ entriesOf stored M ↔ HasRecord M ((bodiesOf stored e.1).flatMap encodeRecord) e.2 := by
  unfold entriesOf
  constructor
  · intro he
    obtain ⟨f, -, hmem⟩ := List.mem_flatMap.mp he
    obtain ⟨r, hr, rfl⟩ := List.mem_map.mp hmem
    exact mem_walRecordsFrom.mp hr
  · intro he
    refine List.mem_flatMap.mpr ⟨e.1, ?_, List.mem_map.mpr ⟨e.2, mem_walRecordsFrom.mpr he, rfl⟩⟩
    rw [List.mem_dedup]
    by_contra hnone
    have hnil : bodiesOf stored e.1 = [] := by
      apply List.eq_nil_iff_forall_not_mem.mpr
      intro body hbody
      exact hnone (List.mem_map.mpr ⟨_, mem_bodiesOf.mp hbody, rfl⟩)
    have hstop := he.2.stop_le
    have hlt := he.2.start_lt_stop
    rw [hnil] at hstop
    simp only [List.flatMap_nil, List.length_nil] at hstop
    omega

theorem fst_mem_of_entriesOf (h : e ∈ entriesOf stored M) : e.1 ∈ stored.map Prod.fst := by
  obtain ⟨f, hf, hmem⟩ := List.mem_flatMap.mp h
  obtain ⟨r, -, rfl⟩ := List.mem_map.mp hmem
  exact List.mem_dedup.mp hf

theorem nodup_entriesOf : ((entriesOf stored M).map Store.Entry.key).Nodup := by
  unfold entriesOf
  rw [List.map_flatMap]
  refine List.nodup_flatMap.mpr ⟨fun f _ => ?_, ?_⟩
  · obtain ⟨q, hq, -⟩ := walRecordsFrom_reads f ((bodiesOf stored f).flatMap encodeRecord) 0 M
    rw [List.map_map]
    refine List.pairwise_map.mpr (hq.increasing.imp fun {a b} hlt heq => ?_)
    have hstart : a.start = b.start := (Prod.mk.inj heq).2
    omega
  · refine (List.nodup_dedup _).imp fun {f g} hne key hf hg => ?_
    obtain ⟨e, he, rfl⟩ := List.mem_map.mp hf
    obtain ⟨r, -, rfl⟩ := List.mem_map.mp he
    obtain ⟨e', he', heq⟩ := List.mem_map.mp hg
    obtain ⟨r', -, rfl⟩ := List.mem_map.mp he'
    exact hne (Prod.mk.inj heq).1.symm

/-- What the records come from, segment by segment. -/
theorem posted_entriesOf (stored : List (String × Bytes)) (M : Nat) : (entriesOf stored M).map posted =
    (stored.map Prod.fst).dedup.flatMap fun f =>
      ((walRecordsFrom f ((bodiesOf stored f).flatMap encodeRecord) 0 M).1.map
        WalRecord.payload).map fun body => (f, body) := by
  unfold entriesOf
  rw [List.map_flatMap]
  congr 1
  funext f
  rw [List.map_map, List.map_map]
  rfl

/-- Every record comes from a request stored, and no two come from the same. -/
theorem entriesOf_subperm (h : ∀ entry ∈ stored, entry.2.length < 2 ^ 32) (M : Nat) :
    ((entriesOf stored M).map posted).Subperm stored := by
  rw [posted_entriesOf]
  refine List.Subperm.trans (List.Sublist.subperm ?_) (stored_perm stored).subperm
  induction (stored.map Prod.fst).dedup with
  | nil => exact List.Sublist.refl _
  | cons f fs ih =>
    rw [List.flatMap_cons, List.flatMap_cons]
    refine List.Sublist.append (List.Sublist.map _ ?_) ih
    apply (walRecordsFrom_payloads fun payload hp => ?_).sublist
    exact h (f, payload) (mem_bodiesOf.mp hp)

/-- Without an empty body there is a record for every request stored. -/
theorem entriesOf_perm (h : ∀ entry ∈ stored, entry.2.length ≤ M ∧ entry.2.length < 2 ^ 32)
    (hne : ∀ entry ∈ stored, entry.2 ≠ []) : ((entriesOf stored M).map posted).Perm stored := by
  rw [posted_entriesOf]
  have hall : ∀ f, (walRecordsFrom f ((bodiesOf stored f).flatMap encodeRecord) 0 M).1.map
      WalRecord.payload = bodiesOf stored f := by
    intro f
    refine (walRecordsFrom_encode f fun payload hp => ?_).1
    have hmem := mem_bodiesOf.mp hp
    exact ⟨hne _ hmem, h _ hmem⟩
  simp only [hall]
  exact stored_perm stored

end Entries

/-- Thread `t` has called `materialize` at the first deployment, and the call has returned at the second. -/
structure Materialized (S : System Store.Op Otlp.PyError Unit Store.World Store.Thread) (libs : Otlp.Libs)
    (settings : Store.Settings) (protobuf : Protobuf) (config : ServerConfig) (t : Store.Thread)
    (D E : Deployment) : Prop where
  idle : D.pool.thread t = none
  during : Deployment.During S protobuf config t { D with
    pool := ⟨Function.update D.pool.thread t (some (Store.materialize libs settings t).discard),
      D.pool.state⟩ } E
  returned : E.pool.thread t = some (.ret ())

/-- Once a call of `materialize` has returned, every request that was acknowledged before the call is
visible for good, with each of its rows once, unless an empty body has been received. -/
def Delivers (S : System Store.Op Otlp.PyError Unit Store.World Store.Thread) (libs : Otlp.Libs)
    (settings : Store.Thread → Store.Settings) (app : Nat) (protobuf : Protobuf) (config : ServerConfig) : Prop :=
  ∀ w D E F t, Store.Initial libs w → w.walDir = ∅ → t.process ≠ app →
    Deployment.Reach S protobuf config (.new w) D → (∀ body ∈ D.received, body ≠ []) →
    Materialized S libs (settings t) protobuf config t D E → Deployment.Reach S protobuf config E F →
    ∃ C : List Store.Entry, (C.map Store.Entry.key).Nodup ∧ (C.map posted).Perm D.acknowledged ∧
      ∀ e ∈ C, Otlp.rows libs e.2.payload e.1 e.2.start = .ok (Store.rowsOf libs e) ∧
        (Store.rowsFrom e.1 e.2.start F.pool.state.visible).Perm (Store.rowsOf libs e)

section Rows

variable {libs : Otlp.Libs} {protobuf : Protobuf} {w : Store.World} {C : List Store.Entry} {f : String}
  {r : WalRecord}

/-- A committed record is visible exactly once. -/
theorem rowsFrom_perm (hcommitted : Store.Committed libs w f r)
    (hrows : Store.rowsFrom f r.start w.visible = [] ∨ ∃ rs, Otlp.rows libs r.payload f r.start = .ok rs ∧
      (Store.rowsFrom f r.start w.visible).Perm rs) :
    Otlp.rows libs r.payload f r.start = .ok (Store.rowsOf libs (f, r)) ∧
      (Store.rowsFrom f r.start w.visible).Perm (Store.rowsOf libs (f, r)) := by
  obtain ⟨rs, hrs, hvisible⟩ := hcommitted
  have hparsed : Otlp.rows libs r.payload f r.start = .ok (Store.rowsOf libs (f, r)) := by
    rw [Store.rowsOf_ok (e := (f, r)) hrs]
    exact hrs
  obtain rfl : Store.rowsOf libs (f, r) = rs := Store.rowsOf_ok (e := (f, r)) hrs
  refine ⟨hparsed, ?_⟩
  rcases hrows with hnil | ⟨rs', hrs', hperm⟩
  · have hsame : Store.rowsFrom f r.start (Store.rowsOf libs (f, r)) = Store.rowsOf libs (f, r) := by
      rw [Store.rowsFrom_rowsOf hparsed, if_pos (by rfl)]
    have hfrom : (Store.rowsFrom f r.start (Store.rowsOf libs (f, r))).Subperm
        (Store.rowsFrom f r.start w.visible) := hvisible.filter _
    rw [hsame, hnil, List.subperm_nil] at hfrom
    rw [hfrom, hnil]
  · rw [hparsed] at hrs'
    obtain rfl := Except.ok.inj hrs'
    exact hperm

/-- A request has as many rows as spans. -/
theorem length_rows {payload : Bytes} {offset : Nat} {rs : List Otlp.Row}
    (h : Otlp.rows libs payload f offset = .ok rs) :
    rs.length = ((libs.parseFromString payload).map spanCount).getD 0 := by
  unfold Otlp.rows at h
  cases hparse : libs.parseFromString payload with
  | none => simp [hparse] at h
  | some request =>
    simp only [hparse] at h
    split_ifs at h
    obtain rfl := Except.ok.inj h
    simp [Otlp.requestRows, spanCount, List.length_flatMap]

end Rows

section Delivery

variable {libs : Otlp.Libs} {settings : Store.Thread → Store.Settings} {app M : Nat} {Stop : Store.World → Prop}
  {config : ServerConfig} {protobuf : Protobuf} {w : Store.World} {D E F : Deployment} {t : Store.Thread}
  {C P : List Store.Entry} {p : Store.Progress} {stored : List (String × Bytes)} {o : String → Bytes}

theorem hasSuffix_segmentName (now sequence : Nat) : hasSuffix ".wal" (segmentName now sequence) = true := by
  unfold hasSuffix
  rw [toList_segmentName, List.isSuffixOf_iff_suffix]
  exact List.suffix_append _ _

theorem flushed_settled (w : Store.World) (h : Store.Flushed w) : Store.Flushed w.settled := h

theorem Holds.written (h : Holds config stored D) (f : String) :
    D.pool.state.settled.written f = (bodiesOf stored f).flatMap encodeRecord := by
  obtain ⟨path, part, htorn, hsegments⟩ := h.segments
  exact hsegments.settled htorn f

theorem Holds.bounded (h : Holds config stored D) :
    ∀ entry ∈ stored, entry.2.length ≤ config.maxBodyBytes ∧ entry.2.length < 2 ^ 32 := by
  obtain ⟨path, part, htorn, hsegments⟩ := h.segments
  exact hsegments.bounded

theorem Holds.mem_entriesOf (h : Holds config stored D) {e : Store.Entry} :
    e ∈ entriesOf stored M ↔ HasRecord M (D.pool.state.settled.written e.1) e.2 := by
  rw [h.written]
  exact Pipeline.mem_entriesOf

/-- The records in the ledger come from requests stored. -/
theorem Holds.subperm_stored (h : Holds config stored D)
    (L : Store.Ledger libs M C P D.pool.state.settled p) :
    (C.map Store.Entry.key).Nodup ∧ (C.map posted).Subperm stored := by
  have hkeys : (C.map Store.Entry.key).Nodup := by
    have hdistinct := L.distinct
    rw [List.map_append, List.nodup_append] at hdistinct
    exact hdistinct.1
  have hsubset : C ⊆ entriesOf stored M :=
    fun e he => h.mem_entriesOf.mpr (L.record e (List.mem_append_left P he))
  obtain ⟨C', hperm, hsublist⟩ := List.subperm_of_subset (List.Nodup.of_map _ hkeys) hsubset
  have hposted : (C.map posted).Subperm ((entriesOf stored M).map posted) :=
    ⟨C'.map posted, hperm.map posted, hsublist.map posted⟩
  exact ⟨hkeys, hposted.trans (entriesOf_subperm (fun entry he => (h.bounded entry he).2) M)⟩

theorem Holds.subperm_received (h : Holds config stored D)
    (L : Store.Ledger libs M C P D.pool.state.settled p) : (C.map payloadOf).Subperm D.received := by
  obtain ⟨l, hperm, hsublist⟩ := (h.subperm_stored L).2
  have hpayloads : (C.map payloadOf).Perm (l.map Prod.snd) := by
    have hmap := hperm.symm.map Prod.snd
    rw [List.map_map] at hmap
    exact hmap
  exact hpayloads.subperm.trans ((hsublist.map Prod.snd).trans h.received).subperm

theorem Holds.stored_received (h : Holds config stored D) {entry : String × Bytes} (he : entry ∈ stored) :
    entry.2 ∈ D.received := h.received.subset (List.mem_map_of_mem he)

/-- The acknowledged requests have records of their own. -/
theorem Holds.acknowledged_entries (h : Holds config stored D)
    (hbodies : ∀ entry ∈ stored, entry.2 ≠ [] ∧ entry.2.length ≤ M) :
    ∃ C : List Store.Entry, C.Sublist (entriesOf stored M) ∧ (C.map posted).Perm D.acknowledged := by
  have hperm : ((entriesOf stored M).map posted).Perm stored := by
    apply entriesOf_perm
    · exact fun entry he => ⟨(hbodies entry he).2, (h.bounded entry he).2⟩
    · exact fun entry he => (hbodies entry he).1
  obtain ⟨l, hl, hsublist⟩ := h.acknowledged.subperm.trans hperm.symm.subperm
  obtain ⟨C, hC, rfl⟩ := List.sublist_map_iff.mp hsublist
  exact ⟨C, hC, hl⟩

/-- A call of `materialize` commits the records that were there when it was made. -/
theorem Linked.delivered (h : Linked protobuf config D) (hlibs : Store.FreshNames libs)
    (hM : ∀ t, (settings t).maxWalRecordBytes = M) (hsize : 0 < (settings t).materializeBatchSize)
    (ht : t.process ≠ app)
    (hsound : Framework.Sound (Store.service libs settings app Store.Op.spares Store.Flushed)
      (Store.Intact libs (Store.Attended libs M o)) (Store.Undisturbed libs (Store.Attended libs M o))
      (Store.Yields libs (Store.Attended libs M o)) (D.pool.map Store.World.settled))
    (hE : Materialized (Store.patientService libs settings app Store.Flushed) libs (settings t) protobuf config
      t D E)
    (hF : Deployment.Reach (Store.patientService libs settings app Store.Flushed) protobuf config E F) :
    (Store.service libs settings app Store.Op.spares Store.Flushed).Reach (D.pool.map Store.World.settled)
        (F.pool.map Store.World.settled) ∧
      Linked protobuf config F ∧ ∀ stored, Holds config stored D → ∀ e ∈ entriesOf stored M,
        Store.Committed libs F.pool.state.settled e.1 e.2 := by
  have U : Store.Upheld libs settings Store.Flushed (Store.Attended libs M o) (Store.Lasting M o) :=
    Store.attended_upheld hM
  have hcompatible := @Store.service_compatible libs settings app Store.Flushed _ _ hlibs U
  have hcalled : Linked protobuf config { D with pool := ⟨Function.update D.pool.thread t
      (some (Store.materialize libs (settings t) t).discard), D.pool.state⟩ } := h
  have hstart := @Store.reach_called libs settings app Store.Flushed t (D.pool.map Store.World.settled) _
    Store.Op.spares _ _ ht hE.idle (.materialize hsize) .refl
  obtain ⟨hduring, hlinked⟩ := hcalled.during hlibs U flushed_settled (hcompatible.sound_reach hsound hstart)
    hE.during
  have hreach := hstart.trans (System.reach_during hduring)
  have hsoundE := hcompatible.sound_reach hsound hreach
  obtain ⟨hlater, hlinked', -, -⟩ := hlinked.reach hlibs U flushed_settled hsoundE hF
  refine ⟨hreach.trans hlater, hlinked', fun stored hholds e he => ?_⟩
  have hwal : hasSuffix ".wal" e.1 = true := by
    obtain ⟨entry, hentry, hname⟩ := List.mem_map.mp (fst_mem_of_entriesOf he)
    obtain ⟨path, part, htorn, hsegments⟩ := hholds.segments
    obtain ⟨now, sequence, hkept⟩ := hsegments.kept entry hentry
    rw [← hname, hkept]
    exact hasSuffix_segmentName now sequence
  have hcommitted := Store.materialize_committed hlibs hM hsound hsize ht hE.idle hduring hE.returned hwal
    (hholds.mem_entriesOf.mp he)
  exact hcommitted.advances (Store.service_advances hlibs U hsoundE hlater)

/-- A segment of admissible bodies is read without an error. -/
theorem Holds.clean (h : Holds config stored D) {f : String}
    (hall : ∀ body ∈ bodiesOf stored f, Admissible M body) :
    Boundary M (D.pool.state.settled.written f) (D.pool.state.settled.written f).length := by
  rw [h.written]
  exact (@walRecordsFrom_clean f _ M).mp (walRecordsFrom_encode f hall).2

/-- A segment that is quarantined holds a body that the backend does not take. -/
theorem Holds.refused (h : Holds config stored D) (L : Store.Ledger libs M C P D.pool.state.settled p)
    (hf : f ∈ D.pool.state.quarantined) : ∃ body ∈ bodiesOf stored f, ¬Admissible M body := by
  by_contra hnone
  push Not at hnone
  exact L.dirty f hf (h.clean hnone)

theorem Deployment.During.reach {S : System Store.Op Otlp.PyError Unit Store.World Store.Thread} {t : Store.Thread}
    (h : Deployment.During S protobuf config t D E) : Deployment.Reach S protobuf config D E :=
  Relation.ReflTransGen.mono (fun _ _ hs => hs.1) _ _ h

/-- A call of `materialize` is a part of a run. -/
theorem Materialized.reach (hsize : 0 < (settings t).materializeBatchSize) (ht : t.process ≠ app)
    (h : Materialized (Store.patientService libs settings app Stop) libs (settings t) protobuf config t D E) :
    Deployment.Reach (Store.patientService libs settings app Stop) protobuf config D E := by
  have hstart : (Store.patientService libs settings app Stop).start t
      (Store.materialize libs (settings t) t).discard D.pool.state := by
    simp only [Store.patientService, System.guard, Store.service, if_neg ht]
    exact ⟨Nat, _, .materialize hsize, rfl⟩
  exact .head (.backend (.start t h.idle hstart)) h.during.reach

/-- What is known once `materialize` has returned. -/
theorem delivered_new (hlibs : Store.FreshNames libs) (hM : ∀ t, (settings t).maxWalRecordBytes = M)
    (hsize : 0 < (settings t).materializeBatchSize) (ht : t.process ≠ app) (hw : Store.Initial libs w)
    (hempty : w.walDir = ∅)
    (hD : Deployment.Reach (Store.patientService libs settings app Store.Flushed) protobuf config (.new w) D)
    (hE : Materialized (Store.patientService libs settings app Store.Flushed) libs (settings t) protobuf config
      t D E)
    (hF : Deployment.Reach (Store.patientService libs settings app Store.Flushed) protobuf config E F) :
    (∃ stored, Holds config stored D ∧ ∀ e ∈ entriesOf stored M,
      Otlp.rows libs e.2.payload e.1 e.2.start = .ok (Store.rowsOf libs e) ∧
        (Store.rowsFrom e.1 e.2.start F.pool.state.visible).Perm (Store.rowsOf libs e)) ∧
    ∃ C : List Store.Entry, (C.map payloadOf).Subperm F.received ∧
      F.pool.state.visible.Perm (C.flatMap (Store.rowsOf libs)) := by
  have U : Store.Upheld libs settings Store.Flushed (Store.Attended libs M w.written)
      (Store.Lasting M w.written) := Store.attended_upheld hM
  have U' : Store.Upheld libs settings Store.Flushed (Store.Recorded libs M w.written)
      (Store.Lasting M w.written) := Store.recorded_upheld hM
  obtain ⟨hreach, hlinked, hsound⟩ := reach_new hlibs U flushed_settled hw hw.attended hempty hD
  obtain ⟨hcalled, hlinked', hall⟩ := hlinked.delivered hlibs hM hsize ht hsound hE hF
  have hadvances := Store.service_advances hlibs U hsound hcalled
  have hsince := Store.service_sound hlibs U' hw hw.recorded (hreach.trans hcalled)
  obtain ⟨p, hkept⟩ := hsince.1.kept
  obtain ⟨stored, hholds⟩ := hlinked.holds
  obtain ⟨stored', hholds'⟩ := hlinked'.holds
  refine ⟨⟨stored, hholds, fun e he => ?_⟩, ?_⟩
  · have hr := (hholds.mem_entriesOf.mp he).grow (hadvances.written e.1)
    exact rowsFrom_perm (hall stored hholds e he) (hkept.rowsFrom_advances (.refl _) hr.2)
  · obtain ⟨-, C, P, L⟩ := hkept
    exact ⟨C, hholds'.subperm_received L, L.visible⟩

end Delivery

/-- A thread runs while the gateway and the others stand still. -/
theorem during_thread {S : System Store.Op Otlp.PyError Unit Store.World Store.Thread} {protobuf : Protobuf}
    {config : ServerConfig} {D : Deployment} {t : Store.Thread} {q q' : Store.Call Unit} {w w' : Store.World}
    (h : Prog.Runs (S.machine t) (q, w) (q', w')) :
    Deployment.During S protobuf config t
      { D with pool := ⟨Function.update D.pool.thread t (some q), w⟩ }
      { D with pool := ⟨Function.update D.pool.thread t (some q'), w'⟩ } := by
  have hduring := System.during_runs (S := S.offline) (t := D.pool.thread) h
  apply Relation.ReflTransGen.lift (fun X => ({ D with pool := X } : Deployment)) _ _ _ hduring
  exact fun X Y hXY => ⟨.backend hXY.1, hXY.2⟩

/-- A thread makes a call while the gateway and the others stand still. -/
theorem reach_thread {S : System Store.Op Otlp.PyError Unit Store.World Store.Thread} {protobuf : Protobuf}
    {config : ServerConfig} {D : Deployment} {t : Store.Thread} {q q' : Store.Call Unit} {w' : Store.World}
    (hidle : D.pool.thread t = none) (hstart : S.start t q D.pool.state)
    (h : Prog.Runs (S.machine t) (q, D.pool.state) (q', w')) :
    Deployment.Reach S protobuf config D
      { D with pool := ⟨Function.update D.pool.thread t (some q'), w'⟩ } := by
  have hcall : Deployment.Step S protobuf config D
      { D with pool := ⟨Function.update D.pool.thread t (some q), D.pool.state⟩ } :=
    .backend (.start t hidle hstart)
  exact .head hcall (during_thread h).reach

/-- The segment that an operation looks at. -/
def looksAt : {α : Type} → Store.Op α → Option String
  | _, .statWal f => some f
  | _, .readHeader f _ => some f
  | _, .readPayload f _ _ => some f
  | _, .commitMark f _ => some f
  | _, _ => none

/-- The regular effect of an operation, if a segment that it looks at holds one record or none. -/
def execPatient {α : Type} (o : Store.Op α) (w : Store.World) : Option (Except Otlp.PyError α × Store.World) :=
  if (looksAt o).all fun f => w.content f ∈ [[], encodeRecord Store.spanPayload, encodeRecord []] then
    Store.execFlushed o w
  else none

theorem execPatient_step (thread : Nat) {α : Type} (o : Store.Op α) (w : Store.World)
    (r : Except Otlp.PyError α) (w' : Store.World) (h : execPatient o w = some (r, w')) :
    ((Store.patientService Store.sampleLibs (fun _ => {}) 0 Store.Flushed).machine ⟨1, thread⟩).step o w r w' := by
  unfold execPatient at h
  split_ifs at h with hlooks
  have hwhole : ∀ f, w.content f ∈ [[], encodeRecord Store.spanPayload, encodeRecord []] →
      Whole (w.content f) := by
    intro f hf
    simp only [List.mem_cons, List.not_mem_nil, or_false] at hf
    rcases hf with hf | hf | hf
    · exact hf ▸ whole_nil
    · rw [hf]
      exact ⟨[Store.spanPayload], by decide, by simp⟩
    · rw [hf]
      exact ⟨[[]], by decide, by simp⟩
  refine ⟨?_, Store.execFlushed_step o w r w' h⟩
  cases o with
  | statWal f => exact hwhole f (by simpa [looksAt] using hlooks)
  | readHeader f position => exact .inr (hwhole f (by simpa [looksAt] using hlooks))
  | readPayload f position length => exact .inr (hwhole f (by simpa [looksAt] using hlooks))
  | commitMark f size => exact hwhole f (by simpa [looksAt] using hlooks)
  | _ => trivial

/-- The header of the record has been written, and its payload has not. -/
def halfWritten : Call (SharedState × HttpResponse) × Store.World × Nat :=
  Prog.follow gatewayFirst 2 (onRead sampleGateway {} ⟨⟨64 * 1024 * 1024, "wal-1-0.wal", 0, true⟩, {}⟩
    (sampleRequest Store.spanPayload), servedNone.pool.state, 1)

/-- A call of `materialize` by a thread of the second process. -/
def materializeIn (thread : Nat) (w : Store.World) : Store.Call Unit × Store.World :=
  Prog.follow Store.execFlushed 70 ((Store.materialize Store.sampleLibs {} ⟨1, thread⟩).discard, w)

/-- The gateway goes on after such a call. -/
def finishedLate : Call (SharedState × HttpResponse) × Store.World × Nat :=
  Prog.follow gatewayFirst 20 (halfWritten.1, (materializeIn 0 halfWritten.2.1).2, halfWritten.2.2)

def halfServed : Deployment :=
  { servingOne.write halfWritten.2 with
    process := .serving (sampleRequest Store.spanPayload) halfWritten.1 }

/-- A call of `materialize` has come in between. -/
def materializedHalf : Deployment :=
  { halfServed with
    pool := ⟨Function.update (fun _ => none) ⟨1, 0⟩ (some (.ret ())), (materializeIn 0 halfWritten.2.1).2⟩ }

/-- The request is answered with 200 after all. -/
def answeredLate (state : SharedState) : Deployment :=
  { materializedHalf.write finishedLate.2 with
    process := .waiting state
    acknowledged := [("wal-1-0.wal", Store.spanPayload)] }

/-- The request is answered with 200, for this segment. -/
def acceptedIn (path : String) : Call (SharedState × HttpResponse) → Bool
  | .ret (state, response) => response.status = .ok && state.walWriter.currentPath = path
  | _ => false

theorem acceptedIn_ret {path : String} {p : Call (SharedState × HttpResponse)} (h : acceptedIn path p = true) :
    ∃ state response, p = .ret (state, response) ∧ response.status = .ok ∧ state.walWriter.currentPath = path := by
  cases p with
  | ret answer =>
    obtain ⟨state, response⟩ := answer
    simp only [acceptedIn, Bool.and_eq_true, decide_eq_true_eq] at h
    exact ⟨state, response, rfl, h⟩
  | _ => cases h

theorem materializeIn_runs {thread : Nat} {w : Store.World}
    (h : (materializeIn thread w).1.outcome? = some (.ok ())) :
    Prog.Runs ((Store.service Store.sampleLibs (fun _ => {}) 0 Store.Op.spares Store.Flushed).machine ⟨1, thread⟩)
      ((Store.materialize Store.sampleLibs {} ⟨1, thread⟩).discard, w) (.ret (), (materializeIn thread w).2) :=
  Prog.follow_outcome (r := .ok ()) Store.execFlushed_step h

theorem answeredLate_reach : ∃ state, Deployment.Reach
    (Store.service Store.sampleLibs (fun _ => {}) 0 Store.Op.spares Store.Flushed) sampleGateway {}
      (.new (.ofSegments ∅)) (answeredLate state) := by
  obtain ⟨state, response, hret, hstatus, hpath⟩ :=
    @acceptedIn_ret "wal-1-0.wal" finishedLate.1 (by decide +kernel)
  have hhalf := @reach_served
    (Store.service Store.sampleLibs (fun _ => {}) 0 Store.Op.spares Store.Flushed) sampleGateway {} servingOne
    _ _ halfWritten.1 halfWritten.2 rfl (Prog.follow_runs gatewayFirst_step 2 _)
  have hcall := @reach_thread
    (Store.service Store.sampleLibs (fun _ => {}) 0 Store.Op.spares Store.Flushed) sampleGateway {} halfServed
    ⟨1, 0⟩ _ _ _ rfl ⟨Nat, _, .materialize (by decide), rfl⟩
    (@materializeIn_runs 0 halfWritten.2.1 (by decide +kernel))
  have hserve := @reach_served
    (Store.service Store.sampleLibs (fun _ => {}) 0 Store.Op.spares Store.Flushed) sampleGateway {}
    materializedHalf _ _ finishedLate.1 finishedLate.2 rfl (Prog.follow_runs gatewayFirst_step 20 _)
  rw [hret] at hserve
  have hanswer := @Deployment.Step.answer
    (Store.service Store.sampleLibs (fun _ => {}) 0 Store.Op.spares Store.Flushed) sampleGateway {}
    { materializedHalf.write finishedLate.2 with
      process := .serving (sampleRequest Store.spanPayload) (.ret (state, response)) } _ _ _ rfl
  rw [if_pos (by rw [hstatus]; rfl), hpath] at hanswer
  exact ⟨state, ((((servingOne_reach _).trans hhalf).trans hcall).trans hserve).tail hanswer⟩

/-- A call that reads a segment between the header and the payload of a record quarantines it, and the
request is never visible. -/
theorem not_delivers_torn : ¬Delivers (Store.service Store.sampleLibs (fun _ => {}) 0 Store.Op.spares Store.Flushed)
    Store.sampleLibs (fun _ => {}) 0 sampleGateway {} := by
  intro h
  have hinitial : Store.Initial Store.sampleLibs (.ofSegments ∅) := Store.initial_ofSegments _ _
  obtain ⟨state, hreach⟩ := answeredLate_reach
  have hvisible : (materializeIn 1 finishedLate.2.1).2.visible = [] :=
    List.isEmpty_iff.mp (by decide +kernel)
  have hduring := @during_thread
    (Store.service Store.sampleLibs (fun _ => {}) 0 Store.Op.spares Store.Flushed) sampleGateway {}
    (answeredLate state) ⟨1, 1⟩ _ _ _ _ (@materializeIn_runs 1 finishedLate.2.1 (by decide +kernel))
  obtain ⟨C, -, hposted, hall⟩ := h _ _ _ _ _ hinitial rfl (by decide) hreach
    (List.forall_mem_singleton.mpr (by decide)) ⟨rfl, hduring, by simp⟩ .refl
  obtain ⟨e, he, hentry⟩ := List.mem_map.mp (hposted.mem_iff.mpr (List.mem_singleton.mpr rfl))
  obtain ⟨hrows, hperm⟩ := hall e he
  have hpayload : e.2.payload = Store.spanPayload := congrArg Prod.snd hentry
  have hlength := length_rows hrows
  have hspans : ((Store.sampleLibs.parseFromString Store.spanPayload).map spanCount).getD 0 = 1 := by
    decide +kernel
  dsimp only at hperm
  rw [hvisible] at hperm
  rw [hpayload, hspans, ← hperm.length_eq] at hlength
  cases hlength

end Lrcp.Pipeline
