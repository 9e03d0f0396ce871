import Lrcp.Pipeline.EndToEnd

namespace Lrcp.Pipeline

open Lrcp.Framework Lrcp.Wal Lrcp.Gateway

/-- As long as the gateway receives bodies that the backend takes, no segment is ever quarantined, and once a
call of `materialize` has returned, every request that was acknowledged before the call is committed. -/
def Polls (S : System Store.Op Otlp.PyError Unit Store.World Store.Thread) (libs : Otlp.Libs)
    (settings : Store.Thread → Store.Settings) (app M : Nat) (protobuf : Protobuf) (config : ServerConfig) : Prop :=
  ∀ w D, Store.Initial libs w → w.walDir = ∅ → Deployment.Reach S protobuf config (.new w) D →
    (∀ body ∈ D.received, body ≠ [] ∧ body.length ≤ M) →
    D.pool.state.quarantined = [] ∧
    ∀ E t, t.process ≠ app → Materialized S libs (settings t) protobuf config t D E →
      ∃ C : List Store.Entry, (C.map Store.Entry.key).Nodup ∧ (C.map posted).Perm D.acknowledged ∧
        ∀ e ∈ C, Store.Committed libs E.pool.state e.1 e.2

section Polling

variable {libs : Otlp.Libs} {settings : Store.Thread → Store.Settings} {app M : Nat} {config : ServerConfig}
  {protobuf : Protobuf} {stored : List (String × Bytes)} {D : Deployment} {w : Store.World}

/-- No segment that has been received whole is quarantined. -/
theorem Holds.unquarantined {C P : List Store.Entry} {p : Store.Progress} (h : Holds config stored D)
    (L : Store.Ledger libs M C P D.pool.state.settled p)
    (hbodies : ∀ entry ∈ stored, entry.2 ≠ [] ∧ entry.2.length ≤ M) : D.pool.state.quarantined = [] := by
  apply List.eq_nil_iff_forall_not_mem.mpr
  intro f hf
  obtain ⟨body, hbody, hrefused⟩ := h.refused L hf
  have hmem := mem_bodiesOf.mp hbody
  obtain ⟨hne, hle⟩ := hbodies _ hmem
  exact hrefused ⟨hne, hle, (h.bounded _ hmem).2⟩

/-- `materialize` may poll the segment that is being written, as long as it does not catch a record that is
being written, and no lock is given back, and no holder of it killed, while rows of a marked segment wait in a
batch. -/
theorem polls_patient (hlibs : Store.FreshNames libs) (hM : ∀ t, (settings t).maxWalRecordBytes = M)
    (hsize : ∀ t, 0 < (settings t).materializeBatchSize) :
    Polls (Store.patientService libs settings app Store.Flushed) libs settings app M protobuf config := by
  intro w D hw hempty hD hbodies
  have U : Store.Upheld libs settings Store.Flushed (Store.Recorded libs M w.written)
      (Store.Lasting M w.written) := Store.recorded_upheld hM
  obtain ⟨-, hlinked, hsound⟩ := reach_new hlibs U flushed_settled hw hw.recorded hempty hD
  obtain ⟨stored, hholds⟩ := hlinked.holds
  obtain ⟨p, -, C, P, L⟩ := hsound.1.kept
  refine ⟨hholds.unquarantined L fun entry he => hbodies _ (hholds.stored_received he), fun E t ht hE => ?_⟩
  obtain ⟨⟨stored, hholds, hall⟩, -⟩ := delivered_new hlibs hM (hsize t) ht hw hempty hD hE .refl
  obtain ⟨C, hC, hposted⟩ := hholds.acknowledged_entries fun entry he => hbodies _ (hholds.stored_received he)
  refine ⟨C, nodup_entriesOf.sublist (hC.map Store.Entry.key), hposted, fun e he => ?_⟩
  obtain ⟨hrows, hperm⟩ := hall e (hC.subset he)
  exact ⟨_, hrows, hperm.symm.subperm.trans List.filter_sublist.subperm⟩

end Polling

/-- A call of `materialize` begins after the header of the record has been written. -/
def polling : Store.Call Unit × Store.World :=
  Prog.follow execPatient 5 ((Store.materialize Store.sampleLibs {} ⟨1, 0⟩).discard, halfWritten.2.1)

/-- The gateway finishes the record meanwhile. -/
def finishedMeanwhile : Call (SharedState × HttpResponse) × Store.World × Nat :=
  Prog.follow gatewayFirst 20 (halfWritten.1, polling.2, halfWritten.2.2)

/-- The call goes on. -/
def polled : Store.Call Unit × Store.World := Prog.follow execPatient 60 (polling.1, finishedMeanwhile.2.1)

/-- The request is answered with 200, and the call returns. -/
def polledServed (state : SharedState) : Deployment where
  pool := ⟨Function.update (fun _ => none) ⟨1, 0⟩ (some (.ret ())), polled.2⟩
  sequence := finishedMeanwhile.2.2
  process := .waiting state
  received := [Store.spanPayload]
  acknowledged := [("wal-1-0.wal", Store.spanPayload)]

theorem polledServed_reach : ∃ state, Deployment.Reach
    (Store.patientService Store.sampleLibs (fun _ => {}) 0 Store.Flushed) sampleGateway {}
      (.new (.ofSegments ∅)) (polledServed state) := by
  obtain ⟨state, response, hret, hstatus, hpath⟩ :=
    @acceptedIn_ret "wal-1-0.wal" finishedMeanwhile.1 (by decide +kernel)
  have hhalf := @reach_served (Store.patientService Store.sampleLibs (fun _ => {}) 0 Store.Flushed)
    sampleGateway {} servingOne _ _ halfWritten.1 halfWritten.2 rfl (Prog.follow_runs gatewayFirst_step 2 _)
  have hbegin := @reach_thread (Store.patientService Store.sampleLibs (fun _ => {}) 0 Store.Flushed)
    sampleGateway {} halfServed ⟨1, 0⟩ _ polling.1 polling.2 rfl ⟨Nat, _, .materialize (by decide), rfl⟩
    (Prog.follow_runs (execPatient_step 0) 5 _)
  have hserve := @reach_served (Store.patientService Store.sampleLibs (fun _ => {}) 0 Store.Flushed)
    sampleGateway {} { halfServed with
      pool := ⟨Function.update (fun _ => none) ⟨1, 0⟩ (some polling.1), polling.2⟩ } _ _
    finishedMeanwhile.1 finishedMeanwhile.2 rfl (Prog.follow_runs gatewayFirst_step 20 _)
  rw [hret] at hserve
  have hanswer := @Deployment.Step.answer (Store.patientService Store.sampleLibs (fun _ => {}) 0 Store.Flushed)
    sampleGateway {} { polledServed state with
      pool := ⟨Function.update (fun _ => none) ⟨1, 0⟩ (some polling.1), finishedMeanwhile.2.1⟩
      process := .serving (sampleRequest Store.spanPayload) (.ret (state, response))
      acknowledged := [] } _ _ _ rfl
  rw [if_pos (by rw [hstatus]; rfl), hpath] at hanswer
  have hpolled : Prog.Runs ((Store.patientService Store.sampleLibs (fun _ => {}) 0 Store.Flushed).machine ⟨1, 0⟩)
      (polling.1, finishedMeanwhile.2.1) (.ret (), polled.2) :=
    Prog.follow_outcome (r := .ok ()) (execPatient_step 0) (by decide +kernel)
  have hreturn := @during_thread (Store.patientService Store.sampleLibs (fun _ => {}) 0 Store.Flushed)
    sampleGateway {} { polledServed state with pool := ⟨fun _ => none, polled.2⟩ } ⟨1, 0⟩ _ _ _ _ hpolled
  have hanswered := ((((servingOne_reach _).trans hhalf).trans hbegin).trans hserve).tail hanswer
  exact ⟨state, hanswered.trans hreturn.reach⟩

/-- A call that begins while the record is being written, and one after it. -/
theorem polls_patient_one : ∃ D E : Deployment, D.pool.state.quarantined = [] ∧
    D.acknowledged = [("wal-1-0.wal", Store.spanPayload)] ∧ ∃ C : List Store.Entry,
      (C.map posted).Perm D.acknowledged ∧ ∀ e ∈ C, Store.Committed Store.sampleLibs E.pool.state e.1 e.2 := by
  have hM : ∀ t : Store.Thread, ((fun _ => {}) t : Store.Settings).maxWalRecordBytes = 64 * 1024 * 1024 :=
    fun _ => rfl
  have hinitial : Store.Initial Store.sampleLibs (.ofSegments ∅) := Store.initial_ofSegments _ _
  obtain ⟨state, hreach⟩ := polledServed_reach
  have hended : (Prog.follow execPatient 60 ((Store.materialize Store.sampleLibs {} ⟨1, 1⟩).discard,
      (polledServed state).pool.state)).1.outcome? = some (.ok ()) := by
    dsimp only [polledServed]
    decide +kernel
  have hrun := @Prog.follow_outcome _ _ _ _ _ execPatient (execPatient_step 1) 60
    ((Store.materialize Store.sampleLibs {} ⟨1, 1⟩).discard, (polledServed state).pool.state) (.ok ()) hended
  have hpolls := @polls_patient Store.sampleLibs (fun _ => {}) 0 _ {} sampleGateway
    Store.sampleLibs_freshNames hM fun _ => by decide
  obtain ⟨hquarantined, hcommitted⟩ := hpolls _ _ hinitial rfl hreach (List.forall_mem_singleton.mpr (by decide))
  obtain ⟨C, -, hposted, hall⟩ := hcommitted _ ⟨1, 1⟩ (by decide)
    ⟨rfl, during_thread (D := polledServed state) hrun, by simp [Prog.done]⟩
  exact ⟨polledServed state, _, hquarantined, rfl, C, hposted, hall⟩

/-- A call that reads a segment between the header and the payload of a record takes the record for a
truncated one, although nothing has failed. -/
theorem not_polls : ¬Polls (Store.faultless Store.sampleLibs (fun _ => {}) 0 Store.Op.spares) Store.sampleLibs
    (fun _ => {}) 0 (64 * 1024 * 1024) sampleGateway {} := by
  intro h
  have hinitial : Store.Initial Store.sampleLibs (.ofSegments ∅) := Store.initial_ofSegments _ _
  have hhalf := @reach_served (Store.faultless Store.sampleLibs (fun _ => {}) 0 Store.Op.spares) sampleGateway {}
    servingOne _ _ halfWritten.1 halfWritten.2 rfl (Prog.follow_runs gatewayFirst_step 2 _)
  have hrun : Prog.Runs (Store.regular Store.sampleLibs {})
      ((Store.materialize Store.sampleLibs {} ⟨1, 0⟩).discard, halfWritten.2.1)
      (.ret (), (halfWritten.2.1.follow Store.sampleLibs {} 70
        (Store.materialize Store.sampleLibs {} ⟨1, 0⟩).discard).2) :=
    Store.World.follow_outcome (r := .ok ()) (by decide +kernel)
  have hcall := @reach_thread (Store.faultless Store.sampleLibs (fun _ => {}) 0 Store.Op.spares) sampleGateway {}
    halfServed ⟨1, 0⟩ _ _ _ rfl ⟨Nat, _, .materialize (by decide), rfl⟩ hrun
  obtain ⟨hnone, -⟩ := h _ _ hinitial rfl (((servingOne_reach _).trans hhalf).trans hcall)
    (List.forall_mem_singleton.mpr (by decide))
  have hone : (halfWritten.2.1.follow Store.sampleLibs {} 70
      (Store.materialize Store.sampleLibs {} ⟨1, 0⟩).discard).2.quarantined = ["wal-1-0.wal"] := by
    decide +kernel
  dsimp only at hnone
  rw [hone] at hnone
  cases hnone

end Lrcp.Pipeline
