import Lrcp.Store.AutoCleanup
import Lrcp.Store.NoLoss
import Lrcp.Store.Release
import Lrcp.Wal.Whole

namespace Lrcp.Store

open Lrcp.Wal Lrcp.Otlp Lrcp.Framework

/-- The segment cannot be read to its end, or one of its records is not usable. -/
def Spoiled (libs : Libs) (M : Nat) (f : String) (data : Bytes) : Prop :=
  ¬Clean M data ∨ ∃ r, HasRecord M data r ∧ ¬Usable libs f r

/-- A run of `materialize` returns, only spoiled segments are quarantined, and every
record before the first one of its segment that is not usable is committed. -/
def Contained (libs : Libs) (settings : Settings) (t : Thread) (w : World) : Prop :=
  ∃ total w', Prog.Runs (regular libs settings) (materialize libs settings t, w) (.ret total, w') ∧
    (∀ f ∈ w'.quarantined, Spoiled libs settings.maxWalRecordBytes f (w.written f)) ∧
    ∀ f ∈ w.walDir, hasSuffix ".wal" f = true → ∀ r,
      HasRecord settings.maxWalRecordBytes (w.content f) r →
      (∀ r', HasRecord settings.maxWalRecordBytes (w.content f) r' → r'.start ≤ r.start →
        Usable libs f r') → Committed libs w' f r

section Containment

variable {libs : Libs} {settings : Settings} {t : Thread} {C : List Entry} {w w' : World}
  {tracked : Prop} {total : Nat}

/-- When `materialize` has returned, every record of every segment has been read,
and what has rows is committed. -/
theorem Rest.materialized (h : Rest libs settings.maxWalRecordBytes True tracked C w)
    (hlibs : FreshNames libs) (hsize : 0 < settings.materializeBatchSize)
    (hr : Prog.Runs (faulty libs settings) (materialize libs settings t, w) (.ret total, w')) :
    ∃ C', Rest libs settings.maxWalRecordBytes True tracked C' w' ∧ C <+: C' ∧
      (∀ f, w'.written f = w.written f) ∧
      (C'.flatMap (rowsOf libs)).length = (C.flatMap (rowsOf libs)).length + total ∧
      ∀ f ∈ w.walDir, hasSuffix ".wal" f = true → ∀ r,
        HasRecord settings.maxWalRecordBytes (w.content f) r →
          rows libs r.payload f r.start = .ok [] ∨ (f, r) ∈ C' := by
  obtain ⟨-, hended⟩ := h.runs (materialize_triple hlibs hsize) hr
  obtain ⟨hfresh, hunlocked, p, ⟨hwritten, C', P, hpre, htotal, L, hcoverage⟩, hdone⟩ :=
    hended (.ok total) rfl
  obtain ⟨hnil, htotal', hfinished⟩ := hdone total rfl
  replace hwritten : ∀ f, w'.written f = w.written f := hwritten
  rw [L.batch, List.flatMap_eq_nil_iff] at hnil
  have hrest : Rest libs settings.maxWalRecordBytes True tracked C' w' :=
    ⟨hfresh, hunlocked, L.drop, fun hc => (hcoverage hc).drop L (.inl hnil)⟩
  refine ⟨C', hrest, hpre, hwritten, by rw [htotal, htotal'], fun f hf hwal r hrec => ?_⟩
  have hrec' : HasRecord settings.maxWalRecordBytes (w'.written f) r := by
    rw [hwritten, written_of_mem hf]
    exact hrec
  rcases (hcoverage trivial).covered f r hrec' with hempty | hmem | ⟨hle, hq, -⟩
  · exact .inl hempty
  · rcases List.mem_append.mp hmem with hmem | hmem
    · exact .inr hmem
    · have hparsed := L.parsed (f, r) (List.mem_append_right C' hmem)
      rw [hnil (f, r) hmem] at hparsed
      exact .inl hparsed
  · exfalso
    rcases hfinished f hwal with hquarantined | hend
    · exact hq hquarantined
    · have hstop := hrec.2.stop_le
      have hlt := hrec.2.start_lt_stop
      rw [World.content] at hstop
      omega

theorem Rest.usable {M : Nat} (h : Rest libs M True tracked C w) {f : String} {r : WalRecord}
    (hr : rows libs r.payload f r.start = .ok [] ∨ (f, r) ∈ C) : Usable libs f r := by
  rcases hr with hempty | hmem
  · exact ⟨[], hempty, fun row hrow => by cases hrow⟩
  · exact ⟨_, h.ledger.parsed (f, r) (List.mem_append_left [] hmem), h.ledger.fits (f, r) hmem⟩

/-- A record that is not usable keeps `materialize` from returning. -/
theorem Rest.all_usable (h : Rest libs settings.maxWalRecordBytes True tracked C w)
    (hlibs : FreshNames libs) (hsize : 0 < settings.materializeBatchSize)
    (hr : Prog.Runs (faulty libs settings) (materialize libs settings t, w) (.ret total, w'))
    {f : String} (hf : f ∈ w.walDir) (hwal : hasSuffix ".wal" f = true) {r : WalRecord}
    (hrec : HasRecord settings.maxWalRecordBytes (w.content f) r) : Usable libs f r := by
  obtain ⟨C', hrest, -, -, -, hall⟩ := h.materialized hlibs hsize hr
  exact hrest.usable (hall f hf hwal r hrec)

/-- What is still to be read has to be usable. -/
theorem Rest.pendingReadable (h : Rest libs settings.maxWalRecordBytes True tracked C w)
    (hpending : PendingUsable libs settings.maxWalRecordBytes w) :
    PendingReadable libs settings.maxWalRecordBytes w := by
  intro f hf hwal hq
  have hboundary := h.ledger.watermark f
  rw [written_of_mem hf] at hboundary
  exact ⟨hboundary, fun r hr hle => hpending f hf hwal hq r hr hle⟩

theorem Reachable.unlocked {M : Nat} {Stop : World → Prop} (h : Reachable libs M Stop w)
    (hrest : Rest libs M True tracked C w) (t : Thread) : Unlocked t w :=
  ⟨hrest.unlocked, h.rlock t.process⟩

end Containment

/-- In every run in which no call stops while rows of a marked segment wait in its
batch: `materialize` does what it should unless it meets a record that it cannot
use or has a segment to clean up. -/
theorem materialize_contained {libs : Libs} (hlibs : FreshNames libs) {settings : Settings}
    (hsize : 0 < settings.materializeBatchSize) {w : World}
    (h : Reachable libs settings.maxWalRecordBytes Flushed w) (t : Thread) :
    Contained libs settings t w ↔ PendingUsable libs settings.maxWalRecordBytes w ∧
      (settings.autoCleanupWal = true → NoSegment w.walDir) := by
  have hrest : ∃ C, Rest libs settings.maxWalRecordBytes True True C w :=
    h.rest hlibs fun _ => ⟨trivial, fun _ hs => hs⟩
  obtain ⟨C, hC⟩ := hrest
  constructor
  · intro hcontained
    obtain ⟨total, w', hr, -⟩ := hcontained
    refine ⟨fun f hf hwal _ r hrec _ => ?_, fun hauto => ?_⟩
    · exact hC.all_usable hlibs hsize (regular_faulty hr) hf hwal hrec
    · exact (materialize_walDir hr).1 hauto
  · intro hcond
    obtain ⟨hpending, hnone⟩ := hcond
    obtain ⟨total, w', hr, -, -⟩ := materialize_reaches (h.unlocked hC t) (hC.pendingReadable hpending) hnone
    have hreg := patient_regular hr
    obtain ⟨C', hrest, hpre, hwritten, -, hall⟩ := hC.materialized hlibs hsize (regular_faulty hreg)
    refine ⟨total, w', hreg, fun f hf => .inl ?_, fun f hf hwal r hrec _ => ?_⟩
    · have hdirty := hrest.ledger.dirty f hf
      rw [hwritten] at hdirty
      exact hdirty
    · rcases hall f hf hwal r hrec with hempty | hmem
      · exact ⟨[], hempty, List.nil_subperm⟩
      · exact hrest.ledger.committed hmem

theorem materialize_contained_sealed : Contained sampleLibs {} ⟨0, 0⟩ sealedSegment := by
  apply (materialize_contained sampleLibs_freshNames (by decide) (.start (initial_ofSegments _ _)) _).mpr
  refine ⟨fun f hf _ _ r hr _ => ?_, fun h => by cases h⟩
  have hall : ∀ f ∈ sealedSegment.walDir.keys,
      ∀ r ∈ (walRecordsFrom "" (sealedSegment.content f) 0 (64 * 1024 * 1024)).1,
        (rows sampleLibs r.payload f r.start).map (·.all Row.fitsSchema) = .ok true := by decide +kernel
  have hrow := hall f hf r ((@mem_walRecordsFrom "" _ _ _).mpr hr)
  cases hrows : rows sampleLibs r.payload f r.start with
  | error e =>
    rw [hrows] at hrow
    cases hrow
  | ok rs =>
    rw [hrows] at hrow
    exact ⟨rs, hrows, List.all_eq_true.mp (Except.ok.inj hrow)⟩

/-- A record that is not a protobuf message, and a span in the segment behind it. -/
def malformedSegment : World :=
  .ofSegments ((AList.insert "wal-0.wal" (encodeRecord [0xff]) ∅).insert "wal-1.wal"
    (encodeRecord spanPayload))

/-- The malformed record stops the call, and nothing of the other segment is committed. -/
theorem not_contained :
    (∃ w', Prog.Runs (regular sampleLibs {}) (materialize sampleLibs {} ⟨0, 0⟩, malformedSegment)
      (.raise (.decodeError "Error parsing message"), w') ∧ w'.visible = []) ∧
    ¬Contained sampleLibs {} ⟨0, 0⟩ malformedSegment := by
  constructor
  · refine ⟨_, World.follow_outcome (n := 60) (r := .error (.decodeError "Error parsing message"))
      (by decide +kernel), by decide +kernel⟩
  · intro h
    obtain ⟨total, w', hr, -⟩ := h
    have hrest : Rest sampleLibs (64 * 1024 * 1024) True True [] malformedSegment :=
      (initial_ofSegments sampleLibs _).rest
    have husable := hrest.all_usable sampleLibs_freshNames (by decide) (regular_faulty hr)
      (f := "wal-0.wal") (by decide) (by decide) (r := ⟨0, 9, [0xff]⟩)
      ((@mem_walRecordsFrom "wal-0.wal" _ _ _).mp (by decide +kernel))
    obtain ⟨rs, hrows, -⟩ := husable
    cases hrows

end Lrcp.Store
