import Lrcp.Store.Runs
import Mathlib.Data.List.Flatten

namespace Lrcp.Store

open Lrcp.Wal Lrcp.Otlp Lrcp.Framework

/-- All spans of the record are in committed files that are there. -/
def Committed (libs : Libs) (w : World) (f : String) (r : WalRecord) : Prop :=
  ∃ rs, rows libs r.payload f r.start = .ok rs ∧ rs.Subperm w.visible

/-- The next run of `materialize` starts reading the segment at or before the record. -/
structure Pending (w : World) (f : String) (r : WalRecord) : Prop where
  present : f ∈ w.walDir
  unquarantined : f ∉ w.quarantined
  unread : w.maxOffset f ≤ r.start

/-- No stop while spans of a segment that has been marked are still in the batch. -/
def Flushed (w : World) : Prop := w.history.unflushed = false

section Rest

variable {libs : Libs} {M : Nat} {C : List Entry} {w : World} {f : String} {r : WalRecord}

theorem Ledger.committed {P : List Entry} {p : Progress} (L : Ledger libs M C P w p)
    (hmem : (f, r) ∈ C) : Committed libs w f r := by
  refine ⟨_, L.parsed (f, r) (List.mem_append_left P hmem), ?_⟩
  have hsub : ([(f, r)].flatMap (rowsOf libs)).Sublist (C.flatMap (rowsOf libs)) :=
    (List.singleton_sublist.mpr hmem).flatMap _
  rw [List.flatMap_singleton] at hsub
  exact hsub.subperm.trans L.visible.symm.subperm

theorem Rest.not_lost (h : Rest libs M True True C w) (hr : HasRecord M (w.written f) r) :
    Committed libs w f r ∨ Pending w f r := by
  rcases (h.coverage trivial).covered f r hr with hnil | hmem | ⟨hle, hq, hdir⟩
  · exact .inl ⟨[], hnil, List.nil_subperm⟩
  · rw [List.append_nil] at hmem
    exact .inl (h.ledger.committed hmem)
  · exact .inr ⟨hdir trivial, hq, hle⟩

end Rest

/-- In every run in which no call stops between the mark on a segment with spans
in the batch and the next commit of the batch, every record is committed or
still pending. -/
theorem committed_or_pending {libs : Libs} (hlibs : FreshNames libs) {M : Nat} {w : World}
    (h : Reachable libs M Flushed w) {f : String} {r : WalRecord} (hr : HasRecord M (w.written f) r) :
    Committed libs w f r ∨ Pending w f r := by
  have hrest : ∃ C, Rest libs M True True C w := h.rest hlibs fun _ => ⟨trivial, fun _ hs => hs⟩
  obtain ⟨C, hC⟩ := hrest
  exact hC.not_lost hr

/-- A process is killed when it has read the span of `sealedSegment` and not marked the segment. -/
def killedEarly : World :=
  (sealedSegment.follow sampleLibs {} 24 (materialize sampleLibs {} ⟨0, 0⟩)).2.crash ⟨0, 0⟩

/-- Another one materializes after it. -/
def retriedRun : World := (killedEarly.follow sampleLibs {} 60 (materialize sampleLibs {} ⟨1, 0⟩)).2

theorem committed_or_pending_killed : retriedRun.visible.length = 1 ∧
    (Committed sampleLibs retriedRun "wal-0.wal" ⟨0, 14, spanPayload⟩ ∨
      Pending retriedRun "wal-0.wal" ⟨0, 14, spanPayload⟩) := by
  refine ⟨by decide +kernel, ?_⟩
  have hkilled := @World.follow_runs sampleLibs {} Nat 24 (materialize sampleLibs {} ⟨0, 0⟩) sealedSegment
  have hrun : Prog.Runs (regular sampleLibs {}) (materialize sampleLibs {} ⟨1, 0⟩, killedEarly)
      (.ret 1, retriedRun) := World.follow_outcome (r := .ok 1) (by decide +kernel)
  have hstopped : Reachable sampleLibs (64 * 1024 * 1024) Flushed killedEarly :=
    .stopped (.start (initial_ofSegments _ _)) (.materialize (by decide)) rfl (regular_faulty hkilled)
      (by unfold Flushed; decide +kernel)
  apply committed_or_pending sampleLibs_freshNames (M := 64 * 1024 * 1024)
  · exact .returned hstopped (.materialize (by decide)) rfl (regular_faulty hrun)
  · apply (@mem_walRecordsFrom "wal-0.wal" _ _ _).mp
    decide +kernel

/-- The process is killed between the mark on the sealed segment and the commit
of the batch: the span is not committed, and the next run starts behind it. -/
theorem not_committed_or_pending :
    ¬ ∀ (libs : Libs) (M : Nat) (w : World) (f : String) (r : WalRecord), FreshNames libs →
      Reachable libs M (fun _ => True) w → HasRecord M (w.written f) r →
        Committed libs w f r ∨ Pending w f r := by
  intro h
  have hstopped := @World.follow_runs sampleLibs {} Nat 25 (materialize sampleLibs {} ⟨0, 0⟩) sealedSegment
  have hlost := h sampleLibs (64 * 1024 * 1024) _ "wal-0.wal" ⟨0, 14, spanPayload⟩ sampleLibs_freshNames
    (.stopped (.start (initial_ofSegments _ _)) (.materialize (by decide)) rfl
      (regular_faulty hstopped) trivial)
    ((@mem_walRecordsFrom "wal-0.wal" _ _ _).mp (by decide +kernel))
  rcases hlost with ⟨rs, hrs, hvisible⟩ | hpending
  · have hnone : (World.crash (sealedSegment.follow sampleLibs {} 25
        (materialize sampleLibs {} ⟨0, 0⟩)).2 ⟨0, 0⟩).visible = [] := by decide +kernel
    have hone : (rows sampleLibs spanPayload "wal-0.wal" 0).map List.length = .ok 1 := by decide +kernel
    rw [hrs] at hone
    have hle := hvisible.length_le
    rw [hnone, Except.ok.inj hone] at hle
    simp at hle
  · exact absurd hpending.unread (by decide +kernel)

end Lrcp.Store
