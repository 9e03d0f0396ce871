import Lrcp.Store.Containment

namespace Lrcp.Store

open Lrcp.Wal Lrcp.Otlp Lrcp.Framework

/-- The bytes of a segment in a directory; none for a name that is not there. -/
def bytesOf (d : Table Bytes) (f : String) : Bytes := (d.lookup f).getD []

/-- A version of the directory `full`: every segment is complete, or it is cut at
one of its record boundaries. Segments may be missing. -/
structure Version (M : Nat) (full d : Table Bytes) : Prop where
  present : ∀ f ∈ d, f ∈ full
  cut : ∀ f ∈ d, bytesOf d f = bytesOf full f ∨
    (bytesOf d f <+: bytesOf full f ∧ Boundary M (bytesOf full f) (bytesOf d f).length)

/-- Segments only get longer, and none goes away. -/
def Grows (d d' : Table Bytes) : Prop := ∀ f ∈ d, f ∈ d' ∧ bytesOf d f <+: bytesOf d' f

/-- Complete runs of `materialize` without errors, over growing versions of the
directory `full`, which have returned numbers that add up to the last argument. -/
inductive Scheduled (libs : Libs) (M : Nat) (full : Table Bytes) : World → Nat → Prop
  | start {w} (h : Initial libs w) (hv : Version M full w.walDir) : Scheduled libs M full w 0
  | grown {w n d} (h : Scheduled libs M full w n) (hg : Grows w.walDir d) (hv : Version M full d) :
      Scheduled libs M full { w with walDir := d } n
  | run {w w' n t settings total} (h : Scheduled libs M full w n)
      (hM : settings.maxWalRecordBytes = M) (hsize : 0 < settings.materializeBatchSize)
      (hr : Prog.Runs (regular libs settings) (materialize libs settings t, w) (.ret total, w')) :
      Scheduled libs M full w' (n + total)

/-- The last run of a schedule has been over the whole directory. -/
def Completed (libs : Libs) (M : Nat) (full : Table Bytes) (w' : World) (n' : Nat) : Prop :=
  ∃ w n t settings total, Scheduled libs M full w n ∧ w.walDir = full ∧
    settings.maxWalRecordBytes = M ∧ 0 < settings.materializeBatchSize ∧
    Prog.Runs (regular libs settings) (materialize libs settings t, w) (.ret total, w') ∧ n' = n + total

/-- What one plain pass over the directory reads: the records of each segment
before the first one that is not valid. -/
def recordsOf (M : Nat) (d : Table Bytes) : List Entry :=
  d.keys.flatMap fun f => (walRecordsFrom f (bytesOf d f) 0 M).1.map fun r => (f, r)

/-- The rows of these records. -/
def rowsOfDir (libs : Libs) (M : Nat) (d : Table Bytes) : List Row :=
  (recordsOf M d).flatMap (rowsOf libs)

section Records

variable {M : Nat} {data : Bytes} {d : Table Bytes}

theorem mem_recordsOf {e : Entry} : e ∈ recordsOf M d ↔ e.1 ∈ d ∧ HasRecord M (bytesOf d e.1) e.2 := by
  unfold recordsOf
  constructor
  · intro h
    obtain ⟨f, hf, hmem⟩ := List.mem_flatMap.mp h
    obtain ⟨r, hr, rfl⟩ := List.mem_map.mp hmem
    exact ⟨hf, (mem_walRecordsFrom).mp hr⟩
  · intro h
    exact List.mem_flatMap.mpr ⟨e.1, h.1, List.mem_map.mpr ⟨e.2, mem_walRecordsFrom.mpr h.2, rfl⟩⟩

theorem nodup_recordsOf : (recordsOf M d).Nodup := by
  unfold recordsOf
  refine List.nodup_flatMap.mpr ⟨fun f _ => ?_, ?_⟩
  · obtain ⟨q, hq, -⟩ := walRecordsFrom_reads f (bytesOf d f) 0 M
    have hnodup : (walRecordsFrom f (bytesOf d f) 0 M).1.Nodup := by
      refine hq.increasing.imp fun {a b} hlt heq => ?_
      rw [heq] at hlt
      exact Nat.lt_irrefl _ hlt
    exact hnodup.map fun a b h => (Prod.mk.inj h).2
  · refine d.nodupKeys.imp fun {f g} hne e hf hg => ?_
    obtain ⟨r, -, rfl⟩ := List.mem_map.mp hf
    obtain ⟨r', -, h⟩ := List.mem_map.mp hg
    exact hne (Prod.mk.inj h).1.symm

/-- Records without rows do not count. -/
theorem flatMap_perm {libs : Libs} {C E : List Entry} (hC : C.Nodup) (hE : E.Nodup)
    (h : ∀ e, rowsOf libs e ≠ [] → (e ∈ C ↔ e ∈ E)) :
    (C.flatMap (rowsOf libs)).Perm (E.flatMap (rowsOf libs)) := by
  rw [← flatMap_withRows libs C, ← flatMap_withRows libs E]
  apply List.Perm.flatMap_right
  apply (List.perm_ext_iff_of_nodup (hC.filter _) (hE.filter _)).mpr
  intro e
  rw [← withRows, ← withRows, mem_withRows, mem_withRows]
  exact and_congr_left (h e)

end Records

/-- What holds between the runs of a schedule. -/
structure Scheduling (libs : Libs) (M : Nat) (full : Table Bytes) (C : List Entry) (w : World) (n : Nat) :
    Prop where
  rest : Rest libs M True False C w
  count : (C.flatMap (rowsOf libs)).length = n
  rlock : ∀ process, w.rlock process = none
  version : Version M full w.walDir
  absent : ∀ f, f ∉ w.walDir → w.written f = []

section Scheduling

variable {libs : Libs} {settings : Settings} {M : Nat} {full d : Table Bytes} {C : List Entry}
  {w w' : World} {t : Thread} {n total : Nat} {f : String}

theorem written_bytesOf (hf : f ∈ w.walDir) : w.written f = bytesOf w.walDir f := written_of_mem hf

/-- A segment that is not complete ends with a record. -/
theorem Version.clean (h : Version M full d) (hf : f ∈ d) :
    bytesOf d f = bytesOf full f ∨ Clean M (bytesOf d f) := by
  refine (h.cut f hf).imp_right fun hcut => ?_
  obtain ⟨hgrow, rs, hrs⟩ := hcut
  exact ⟨rs, hrs.shrink hgrow (Nat.le_refl _)⟩

theorem Version.grow (h : Version M full d) (hf : f ∈ d) : bytesOf d f <+: bytesOf full f := by
  rcases h.cut f hf with heq | hcut
  · rw [heq]
  · exact hcut.1

/-- The next version: where segments get longer, they could be read to their end before. -/
theorem Scheduling.grown (h : Scheduling libs M full C w n) (hg : Grows w.walDir d)
    (hv : Version M full d) : Scheduling libs M full C { w with walDir := d } n := by
  have hwritten : ∀ f, f ∈ d → World.written { w with walDir := d } f = bytesOf d f := by
    intro f hf
    exact written_bytesOf (w := { w with walDir := d }) hf
  have hgrow : ∀ f, w.written f <+: World.written { w with walDir := d } f := by
    intro f
    by_cases hf : f ∈ w.walDir
    · rw [written_bytesOf hf, hwritten f (hg f hf).1]
      exact (hg f hf).2
    · rw [h.absent f hf]
      exact List.nil_prefix
  -- either the segment does not change, or it could be read to its end
  have hclean : ∀ f, w.written f = World.written { w with walDir := d } f ∨ Clean M (w.written f) := by
    intro f
    by_cases hf : f ∈ w.walDir
    · rcases h.version.clean hf with hfull | hclean
      · refine .inl ((hgrow f).eq_of_length_le ?_)
        rw [written_bytesOf hf, hwritten f (hg f hf).1, hfull]
        exact (hv.grow (hg f hf).1).length_le
      · rw [written_bytesOf hf]
        exact .inr hclean
    · rw [h.absent f hf]
      exact .inr Boundary.zero
  have hL : Ledger libs M C [] { w with walDir := d } {} := by
    refine h.rest.ledger.grow ?_ ?_ ?_ ?_ hgrow fun f hf => ?_
    · rfl
    · exact fun _ _ => rfl
    · rfl
    · rfl
    rcases hclean f with heq | hclean
    · rw [← heq]
      exact h.rest.ledger.dirty f hf
    · exact absurd hclean (h.rest.ledger.dirty f hf)
  refine
    { rest := ⟨h.rest.fresh.of_eq (Nat.le_refl _) (fun _ hf => hf) rfl, h.rest.unlocked, hL, fun hc => ?_⟩
      count := h.count
      rlock := h.rlock
      version := hv
      absent := fun f hf => ?_ }
  · apply (h.rest.coverage hc).grow h.rest.ledger (fun f hf => (hg f hf).1) hgrow
    · intro f r hr hstop
      rcases hclean f with heq | hclean
      · rw [← heq] at hr
        exact absurd hr.2.stop_le hstop
      · exact hclean
    · exact False.elim
    · exact False.elim
  · have hf' : f ∉ w.walDir := fun hmem => hf (hg f hmem).1
    have hnil := h.absent f hf'
    rw [World.written, AList.lookup_eq_none.mpr hf'] at hnil
    rw [World.written, AList.lookup_eq_none.mpr hf]
    exact hnil

/-- A run: what it returns is the number of rows more. -/
theorem Scheduling.run (h : Scheduling libs M full C w n) (hlibs : FreshNames libs)
    (hM : settings.maxWalRecordBytes = M) (hsize : 0 < settings.materializeBatchSize)
    (hr : Prog.Runs (regular libs settings) (materialize libs settings t, w) (.ret total, w')) :
    ∃ C', Scheduling libs M full C' w' (n + total) ∧ w'.walDir = w.walDir ∧
      ∀ f ∈ w.walDir, hasSuffix ".wal" f = true → ∀ r, HasRecord M (bytesOf w.walDir f) r →
        rows libs r.payload f r.start = .ok [] ∨ (f, r) ∈ C' := by
  subst hM
  obtain ⟨C', hrest, -, hwritten, hcount, hall⟩ := h.rest.materialized hlibs hsize (regular_faulty hr)
  have hdir := (materialize_walDir hr).2
  have hcall : IsCall libs t settings (materialize libs settings t) := .materialize hsize
  refine ⟨C', ⟨hrest, by rw [hcount, h.count], hcall.released h.rlock (regular_faulty hr),
    by rw [hdir]; exact h.version, fun f hf => ?_⟩, hdir, hall⟩
  rw [hdir] at hf
  rw [hwritten]
  exact h.absent f hf

theorem Scheduled.scheduling (h : Scheduled libs M full w n) (hlibs : FreshNames libs) :
    ∃ C, Scheduling libs M full C w n := by
  induction h with
  | start h hv =>
    refine ⟨[], h.rest, rfl, h.rlock, hv, fun f hf => ?_⟩
    rw [World.written, AList.lookup_eq_none.mpr hf, h.history]
    rfl
  | grown _ hg hv ih =>
    obtain ⟨C, hC⟩ := ih
    exact ⟨C, hC.grown hg hv⟩
  | run _ hM hsize hr ih =>
    obtain ⟨C, hC⟩ := ih
    obtain ⟨C', hC', -⟩ := hC.run hlibs hM hsize hr
    exact ⟨C', hC'⟩

/-- When everything has been read, what is committed are the rows of one plain pass. -/
theorem Scheduling.rows_perm (h : Scheduling libs M full C w n) (hfull : w.walDir = full)
    (hall : ∀ f ∈ full, ∀ r, HasRecord M (bytesOf full f) r →
      rows libs r.payload f r.start = .ok [] ∨ (f, r) ∈ C) :
    w.visible.Perm (rowsOfDir libs M full) ∧ n = (rowsOfDir libs M full).length := by
  have hL := h.rest.ledger
  have hkeys := hL.distinct
  rw [List.append_nil] at hkeys
  have hperm : (C.flatMap (rowsOf libs)).Perm (rowsOfDir libs M full) := by
    apply flatMap_perm hkeys.of_map nodup_recordsOf
    intro e he
    rw [mem_recordsOf]
    constructor
    · intro hmem
      have hrec := hL.record e (List.mem_append_left [] hmem)
      by_cases hf : e.1 ∈ w.walDir
      · rw [written_bytesOf hf] at hrec
        rw [hfull] at hf hrec
        exact ⟨hf, hrec⟩
      · have hlt := hrec.2.start_lt_stop
        have hle := hrec.2.stop_le
        rw [h.absent e.1 hf, List.length_nil] at hle
        omega
    · intro hmem
      rcases hall e.1 hmem.1 e.2 hmem.2 with hempty | hmem
      · exact absurd (rowsOf_ok hempty) he
      · exact hmem
  refine ⟨hL.visible.trans hperm, ?_⟩
  rw [← h.count]
  exact hperm.length_eq

end Scheduling

/-- Every schedule that ends with a run over the whole directory has the outcome
of one plain pass, and one more run adds nothing. -/
theorem completed_rows {libs : Libs} (hlibs : FreshNames libs) {M : Nat} {full : Table Bytes}
    (hfull : ∀ f ∈ full, hasSuffix ".wal" f = true) {w : World} {n : Nat}
    (h : Completed libs M full w n) :
    w.visible.Perm (rowsOfDir libs M full) ∧ n = (rowsOfDir libs M full).length ∧
      ∀ (settings : Settings) (t : Thread), settings.maxWalRecordBytes = M →
        0 < settings.materializeBatchSize →
        (settings.autoCleanupWal = false → ∃ w', Prog.Runs (regular libs settings)
          (materialize libs settings t, w) (.ret 0, w')) ∧
        ∀ total w', Prog.Runs (regular libs settings) (materialize libs settings t, w) (.ret total, w') →
          total = 0 ∧ w'.visible.Perm w.visible := by
  obtain ⟨w₀, n₀, t₀, settings₀, total₀, hs, hdir₀, hM₀, hsize₀, hr₀, rfl⟩ := h
  obtain ⟨C₀, hC₀⟩ := hs.scheduling hlibs
  obtain ⟨C, hC, hdir, hall⟩ := hC₀.run hlibs hM₀ hsize₀ hr₀
  rw [hdir₀] at hdir hall
  have hread : ∀ f ∈ full, ∀ r, HasRecord M (bytesOf full f) r →
      rows libs r.payload f r.start = .ok [] ∨ (f, r) ∈ C :=
    fun f hf r hr => hall f hf (hfull f hf) r hr
  obtain ⟨hperm, hcount⟩ := hC.rows_perm hdir hread
  refine ⟨hperm, hcount, fun settings t hM hsize => ?_⟩
  have hagain : ∀ total w', Prog.Runs (regular libs settings) (materialize libs settings t, w)
      (.ret total, w') → total = 0 ∧ w'.visible.Perm w.visible := by
    intro total w' hr
    obtain ⟨C', hC', hdir', hall'⟩ := hC.run hlibs hM hsize hr
    rw [hdir] at hdir' hall'
    obtain ⟨hperm', hcount'⟩ := hC'.rows_perm hdir' fun f hf r hr => hall' f hf (hfull f hf) r hr
    exact ⟨by omega, hperm'.trans hperm.symm⟩
  refine ⟨fun hoff => ?_, hagain⟩
  subst hM
  have hpending : PendingUsable libs settings.maxWalRecordBytes w := by
    intro f hf _ _ r hr _
    rw [World.content, hdir] at hr
    rw [hdir] at hf
    exact hC.rest.usable (hread f hf r hr)
  have hunlocked : Unlocked t w := ⟨hC.rest.unlocked, hC.rlock t.process⟩
  obtain ⟨total, w', hr, -⟩ := materialize_reaches hunlocked (hC.rest.pendingReadable hpending)
    fun hon => by rw [hoff] at hon; cases hon
  obtain ⟨rfl, -⟩ := hagain total w' (patient_regular hr)
  exact ⟨w', patient_regular hr⟩

/-- Two spans with a torn record behind them, and a segment with one span. -/
def tornDir : Table Bytes :=
  (AList.insert "wal-0.wal" (encodeRecord spanPayload ++ encodeRecord spanPayload ++ [0]) ∅).insert
    "wal-1.wal" (encodeRecord spanPayload)

/-- After a run over the first span alone. -/
def firstRun : World :=
  ((World.ofSegments (AList.insert "wal-0.wal" (encodeRecord spanPayload) ∅)).follow sampleLibs
    { materializeBatchSize := 1 } 60 (materialize sampleLibs { materializeBatchSize := 1 } ⟨0, 0⟩)).2

/-- After a run over all of `tornDir`. -/
def secondRun : World :=
  ({ firstRun with walDir := tornDir }.follow sampleLibs {} 80 (materialize sampleLibs {} ⟨0, 0⟩)).2

theorem completed_rows_torn : secondRun.visible.Perm (rowsOfDir sampleLibs (64 * 1024 * 1024) tornDir) ∧
    3 = (rowsOfDir sampleLibs (64 * 1024 * 1024) tornDir).length := by
  have hboundary : Boundary (64 * 1024 * 1024) (bytesOf tornDir "wal-0.wal") 14 := by
    have hhas : HasRecord (64 * 1024 * 1024) (bytesOf tornDir "wal-0.wal") ⟨0, 14, spanPayload⟩ :=
      (@mem_walRecordsFrom "wal-0.wal" _ _ _).mp (by decide +kernel)
    exact hhas.boundary_stop
  have honly : ∀ d : Table Bytes, d.keys = ["wal-0.wal"] → ∀ f ∈ d, f = "wal-0.wal" := by
    intro d hd f hf
    have hmem : f ∈ d.keys := hf
    rw [hd] at hmem
    exact List.mem_singleton.mp hmem
  have hversion : Version (64 * 1024 * 1024) tornDir (AList.insert "wal-0.wal" (encodeRecord spanPayload) ∅) := by
    refine ⟨fun f hf => ?_, fun f hf => ?_⟩
    · obtain rfl := honly _ rfl f hf
      decide
    · obtain rfl := honly _ rfl f hf
      exact .inr ⟨by decide +kernel, hboundary⟩
  have hfirst : Scheduled sampleLibs (64 * 1024 * 1024) tornDir firstRun (0 + 1) := by
    refine .run (.start (initial_ofSegments _ _) hversion) rfl (by decide)
      (World.follow_outcome (r := .ok 1) (by decide +kernel))
  have hgrown : Scheduled sampleLibs (64 * 1024 * 1024) tornDir { firstRun with walDir := tornDir } (0 + 1) := by
    refine hfirst.grown (fun f hf => ?_) ⟨fun f hf => hf, fun f hf => .inl rfl⟩
    obtain rfl := honly _ (by decide +kernel) f hf
    exact ⟨by decide, by decide +kernel⟩
  have hsecond : Completed sampleLibs (64 * 1024 * 1024) tornDir secondRun (0 + 1 + 2) :=
    ⟨_, _, ⟨0, 0⟩, {}, 2, hgrown, rfl, rfl, by decide,
      World.follow_outcome (r := .ok 2) (by decide +kernel), rfl⟩
  have h := completed_rows sampleLibs_freshNames (by decide) hsecond
  exact ⟨h.1, h.2.1⟩

end Lrcp.Store
