import Lrcp.Store.Startup

namespace Lrcp.Store

open Lrcp.Wal Lrcp.Otlp Lrcp.Framework

section Delivery

variable {libs : Libs} {settings : Settings} {M : Nat} {o : String → Bytes} {w w' : World}
  {p : Progress} {f : String} {r : WalRecord} {t : Thread}

theorem attended_durable : Durable Flushed (Attended libs M o) where
  quiet h hq := h.quiet hq
  relocked h hr := h.relocked hr
  gateway h hg := by
    obtain ⟨f, bytes, hf, rfl⟩ := hg
    exact h.extend hf
  drop h hstop := by
    obtain ⟨C, P, L, hC⟩ := h.books
    exact ⟨h.origin, h.marked, C, [], L.drop, hC.drop L (.inr ⟨trivial, hstop⟩)⟩

theorem Initial.attended (h : Initial libs w) : Attended libs M w.written w {} where
  origin _ := .inl rfl
  marked f _ hmark := by
    rw [h.isFullyProcessed] at hmark
    cases hmark
  books := ⟨[], [], h.ledger, h.coverage⟩

theorem Committed.advances (h : Committed libs w f r) (hadvances : Advances w w') :
    Committed libs w' f r := by
  obtain ⟨rs, hrs, hvisible⟩ := h
  exact ⟨rs, hrs, hvisible.trans hadvances.visible⟩

/-- With nothing in the batch, a record is committed or still to be read. -/
theorem Attended.committed_or (h : Attended libs M o w p) (hnil : p.batch.rows = [])
    (hr : HasRecord M (w.written f) r) : Committed libs w f r ∨
      (w.position p.batch f ≤ r.start ∧ f ∉ w.quarantined ∧ f ∈ w.walDir) := by
  obtain ⟨C, P, L, hC⟩ := h.books
  rcases hC.covered f r hr with hempty | hmem | ⟨hle, hq, hdir⟩
  · exact .inl ⟨[], hempty, List.nil_subperm⟩
  · rcases List.mem_append.mp hmem with hmem | hmem
    · exact .inl (L.committed hmem)
    · have hparsed := L.parsed (f, r) (List.mem_append_right C hmem)
      rw [L.batch, List.flatMap_eq_nil_iff] at hnil
      rw [hnil (f, r) hmem] at hparsed
      exact .inl ⟨[], hparsed, List.nil_subperm⟩
  · exact .inr ⟨hle, hq, hdir trivial⟩

/-- When `materialize` returns, beside any calls, starts and kills, the records that were
there when it was called are committed. -/
theorem materialize_parallel (hlibs : FreshNames libs) (hsize : 0 < settings.materializeBatchSize)
    (d : String → Bytes) (hK : ∀ c, c.owner = t → Discipline libs settings (Op.releases Flushed) c Eq
      (fun _ _ => True) (Attended libs M o) (Lasting M o)) :
    Triple (guarded libs settings (Op.releases Flushed)) (Undisturbed libs (Attended libs M o) t)
      (Yields libs (Attended libs M o) t)
      (fun w => Intact libs (Attended libs M o) w ∧ ∀ f, d f <+: w.written f)
      (materialize libs settings t)
      fun res w => Intact libs (Attended libs M o) w ∧ ∀ total, res = .ok total → ∀ f r,
        hasSuffix ".wal" f = true → HasRecord M (d f) r → Committed libs w f r := by
  unfold materialize
  apply parallel_lock attended_durable
  · exact fun w w' hw hadvances f => (hw f).trans (hadvances.written f)
  · exact fun _ w w' hw hadvances f r hwal hr => (hw f r hwal hr).advances hadvances
  intro c hc
  -- the segments as they are when the lock has been taken
  apply Triple.pre (H := fun w => ∃ w₁, (Attended libs M o w₁ {} ∧ ∀ f, d f <+: w₁.written f) ∧
    At libs c (fun w p => Attended libs M o w p ∧ Advances w₁ w) {}
      (AtLeast (fun f => (w₁.content f).length) (· ∈ w₁.walDir)) w)
  · intro w hw
    obtain ⟨hin, hI, hd⟩ := hw
    exact ⟨w, ⟨hI, hd⟩, hin, ⟨hI, .refl w⟩, fun _ => Nat.le_refl _, fun _ h => h⟩
  apply Triple.exists_pre
  intro w₁
  apply Triple.assume
  intro hw₁
  obtain ⟨hattended, hd⟩ := hw₁
  have hbody := (((hK c hc).parallel hc).since w₁).materializeAll_triple hlibs hsize
    (fun f => (w₁.content f).length) (· ∈ w₁.walDir)
  rw [hc] at hbody
  apply hbody.post
  intro res w hw
  cases res with
  | error e =>
    obtain ⟨p, hin, hI, -⟩ := hw
    exact ⟨hin, ⟨p, hI.1⟩, fun a h => by cases h⟩
  | ok total =>
    obtain ⟨p, hnil, -, hin, hI, hcaught⟩ := hw
    refine ⟨hin, ⟨p, hI.1⟩, fun _ _ f r hwal hr => ?_⟩
    have hr₁ : HasRecord M (w₁.written f) r := hr.grow (hd f)
    rcases hattended.committed_or rfl hr₁ with hcommitted | ⟨-, -, hdir⟩
    · exact hcommitted.advances hI.2
    rcases hI.1.committed_or hnil (hr₁.grow (hI.2.written f)) with hcommitted | ⟨hle, hq, -⟩
    · exact hcommitted
    · exfalso
      rw [written_of_mem hdir] at hr₁
      have hstop := hr₁.2.stop_le
      have hlt := hr₁.2.start_lt_stop
      rcases hcaught.finished f hwal hdir with hquarantined | hend
      · exact hq hquarantined
      · omega

end Delivery

section Served

variable {libs : Libs} {settings : Thread → Settings} {app M : Nat} {o : String → Bytes} {w : World}
  {X Y Z : Pool Op PyError Unit World Thread} {f : String} {r : WalRecord} {t : Thread}

theorem attended_upheld (hM : ∀ t, (settings t).maxWalRecordBytes = M) :
    Upheld libs settings Flushed (Attended libs M o) (Lasting M o) := by
  refine ⟨attended_durable, fun t c _ => ?_⟩
  rw [← hM t]
  apply (attended_discipline (o := o)).conseq
  · exact fun _ _ _ => trivial
  · exact fun w w' hheld hR => ⟨hR ▸ hheld, hR ▸ .refl w⟩
  · exact fun w w' p _ hI hR => hR ▸ hI
  · exact fun _ _ _ _ _ _ _ => trivial

/-- In every run in which nobody gives the lock back, and no holder of it is killed, while rows of
a marked segment wait in a batch: a record is committed or still to be read. -/
theorem committed_or_pending_service (hlibs : FreshNames libs)
    (hM : ∀ t, (settings t).maxWalRecordBytes = M) (hw : Initial libs w)
    (hX : (service libs settings app Op.spares Flushed).Reach ⟨fun _ => none, w⟩ X)
    (hflushed : Flushed X.state) (hr : HasRecord M (X.state.written f) r) :
    Committed libs X.state f r ∨ Pending X.state f r := by
  obtain ⟨p, hkept⟩ := (service_sound hlibs (attended_upheld hM) hw hw.attended hX).1.kept
  rcases (attended_durable.drop hkept hflushed).committed_or rfl hr with hcommitted | ⟨hle, hq, hdir⟩
  · exact .inl hcommitted
  · exact .inr ⟨hdir, hq, hle⟩

/-- When a call of `materialize` returns, what was in a segment when the thread made it is visible. -/
theorem materialize_committed (hlibs : FreshNames libs) (hM : ∀ t, (settings t).maxWalRecordBytes = M)
    (hX : Framework.Sound (service libs settings app Op.spares Flushed) (Intact libs (Attended libs M o))
      (Undisturbed libs (Attended libs M o)) (Yields libs (Attended libs M o)) X)
    (hsize : 0 < (settings t).materializeBatchSize) (ht : t.process ≠ app) (hidle : X.thread t = none)
    (hY : (service libs settings app Op.spares Flushed).During t
      ⟨Function.update X.thread t (some (materialize libs (settings t) t).discard), X.state⟩ Y)
    (hreturned : Y.thread t = some (.ret ())) (hwal : hasSuffix ".wal" f = true)
    (hr : HasRecord M (X.state.written f) r) : Committed libs Y.state f r := by
  have U : Upheld libs settings Flushed (Attended libs M o) (Lasting M o) := attended_upheld hM
  have hstart := @reach_called libs settings app Flushed t X _ Op.spares _ _ ht hidle
    (.materialize hsize) .refl
  have htriple := (materialize_parallel hlibs hsize X.state.written (U.discipline t)).discard
    (Q := fun res w => res = .ok () → ∀ f r, hasSuffix ".wal" f = true →
      HasRecord M (X.state.written f) r → Committed libs w f r)
    (fun total w hw _ => hw.2 total rfl) fun e w _ h => by cases h
  have hcovered := Covered.of_triple (Undisturbed.refl libs (Attended libs M o) t) htriple
    (s := X.state) ⟨hX.1, fun _ => List.prefix_rfl⟩
  have hmachine : (service libs settings app Op.spares Flushed).machine t =
      guarded libs (settings t) (Op.releases Flushed) := by
    simp only [service, if_neg ht]
  rw [← hmachine] at hcovered
  have hcompatible := @service_compatible libs settings app Flushed _ _ hlibs U
  obtain ⟨q, hq, hend⟩ := hcompatible.follow (hcompatible.sound_reach hX hstart) (by simp) hcovered hY
  obtain rfl : .ret () = q := Option.some.inj (hreturned.symm.trans hq)
  obtain ⟨w', hR, hall⟩ := hend.outcome (r := .ok ())
  exact (hall rfl f r hwal hr).advances hR.advances

/-- In such a run, what was in a segment when a thread called `materialize` is visible for good once the
call has returned, whatever else goes on beside it and later. -/
theorem materialize_delivers (hlibs : FreshNames libs) (hM : ∀ t, (settings t).maxWalRecordBytes = M)
    (hw : Initial libs w)
    (hX : (service libs settings app Op.spares Flushed).Reach ⟨fun _ => none, w⟩ X)
    (hsize : 0 < (settings t).materializeBatchSize) (ht : t.process ≠ app) (hidle : X.thread t = none)
    (hY : (service libs settings app Op.spares Flushed).During t
      ⟨Function.update X.thread t (some (materialize libs (settings t) t).discard), X.state⟩ Y)
    (hreturned : Y.thread t = some (.ret ()))
    (hZ : (service libs settings app Op.spares Flushed).Reach Y Z) (hwal : hasSuffix ".wal" f = true)
    (hr : HasRecord M (X.state.written f) r) : Committed libs Z.state f r := by
  have U : Upheld libs settings Flushed (Attended libs M w.written) (Lasting M w.written) :=
    attended_upheld hM
  have hsound := service_sound hlibs U hw hw.attended hX
  have hcommitted := materialize_committed hlibs hM hsound hsize ht hidle hY hreturned hwal hr
  have hreach := reach_called ht hidle (.materialize hsize) hY
  have hYsound := (service_compatible hlibs U).sound_reach hsound hreach
  exact hcommitted.advances (service_advances hlibs U hYsound hZ)

end Served

/-- The regular effect of an operation, unless it gives the lock back too early. -/
def execFlushed {α : Type} (o : Op α) (w : World) : Option (Except PyError α × World) :=
  match o with
  | .rollback c => if w.history.unflushed then none else some (World.exec sampleLibs {} (.rollback c) w)
  | o => some (World.exec sampleLibs {} o w)

theorem execFlushed_step {α : Type} (o : Op α) (w : World) (r : Except PyError α) (w' : World)
    (h : execFlushed o w = some (r, w')) : (guarded sampleLibs {} (Op.releases Flushed)).step o w r w' := by
  cases o with
  | rollback c =>
    simp only [execFlushed] at h
    split_ifs at h with hflag
    exact ⟨fun _ => by simpa [Flushed] using hflag, .inl (Option.some.inj h)⟩
  | _ => exact ⟨trivial, .inl (Option.some.inj h)⟩

/-- A call of `materialize` on `sealedSegment`. -/
def sealedCall (n : Nat) : Call Unit × World :=
  Prog.follow execFlushed n ((materialize sampleLibs {} ⟨1, 0⟩).discard, sealedSegment)

theorem sealedCall_runs : ∃ w, Prog.Runs (guarded sampleLibs {} (Op.releases Flushed))
    ((materialize sampleLibs {} ⟨1, 0⟩).discard, sealedSegment) (.ret (), w) ∧ Flushed w ∧
      HasRecord (64 * 1024 * 1024) (w.written "wal-0.wal") ⟨0, 14, spanPayload⟩ := by
  refine ⟨(sealedCall 60).2, Prog.follow_outcome (r := .ok ()) execFlushed_step (by decide +kernel), ?_,
    (@mem_walRecordsFrom "wal-0.wal" _ _ _).mp (by decide +kernel)⟩
  unfold Flushed
  decide +kernel

theorem materialize_delivers_sealed : ∃ w, Prog.Runs (guarded sampleLibs {} (Op.releases Flushed))
    ((materialize sampleLibs {} ⟨1, 0⟩).discard, sealedSegment) (.ret (), w) ∧
      Committed sampleLibs w "wal-0.wal" ⟨0, 14, spanPayload⟩ := by
  obtain ⟨w, hrun, -, -⟩ := sealedCall_runs
  have hduring := System.during_runs
    (S := service sampleLibs (fun _ => {}) 0 Op.spares Flushed) (t := fun _ => none) (i := ⟨1, 0⟩) hrun
  have hM : ∀ t : Thread, ((fun _ => {}) t : Settings).maxWalRecordBytes = 64 * 1024 * 1024 := fun _ => rfl
  have hinitial : Initial sampleLibs sealedSegment := initial_ofSegments _ _
  have hr : HasRecord (64 * 1024 * 1024) (sealedSegment.written "wal-0.wal") ⟨0, 14, spanPayload⟩ :=
    (@mem_walRecordsFrom "wal-0.wal" _ _ _).mp (by decide +kernel)
  refine ⟨w, hrun, ?_⟩
  exact @materialize_delivers sampleLibs (fun _ => {}) 0 _ sealedSegment ⟨fun _ => none, sealedSegment⟩
    _ _ "wal-0.wal" _ ⟨1, 0⟩ sampleLibs_freshNames hM hinitial .refl (by decide) (by decide) rfl hduring
    (by simp) .refl (by decide +kernel) hr

theorem committed_or_pending_service_sealed : ∃ w,
    Prog.Runs (guarded sampleLibs {} (Op.releases Flushed))
      ((materialize sampleLibs {} ⟨1, 0⟩).discard, sealedSegment) (.ret (), w) ∧
      (Committed sampleLibs w "wal-0.wal" ⟨0, 14, spanPayload⟩ ∨
        Pending w "wal-0.wal" ⟨0, 14, spanPayload⟩) := by
  obtain ⟨w, hrun, hflushed, hr⟩ := sealedCall_runs
  have hreach := System.reach_start (S := service sampleLibs (fun _ => {}) 0 Op.spares Flushed)
    (t := fun _ => none) (i := ⟨1, 0⟩) rfl ⟨Nat, _, .materialize (by decide), rfl⟩ hrun
  have hinitial : Initial sampleLibs sealedSegment := initial_ofSegments _ _
  exact ⟨w, hrun, committed_or_pending_service sampleLibs_freshNames (fun _ => rfl) hinitial hreach
    hflushed hr⟩

end Lrcp.Store
