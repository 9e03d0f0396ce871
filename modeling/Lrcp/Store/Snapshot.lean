import Lrcp.Framework.Termination
import Lrcp.Store.Startup

namespace Lrcp.Store

open Lrcp.Wal Lrcp.Otlp Lrcp.Framework

/-- The manifest is read, unless nothing is committed, and a file is there when it is asked for. -/
def Op.attentive : {α : Type} → Op α → World → Except PyError α → Bool
  | _, .selectCommittedOrdered, w, r => w.committedNames.isEmpty || r.isOk
  | _, .existsParquet f, w, r => decide (f ∈ w.parquetDir) && r.isOk
  | _, _, _, _ => true

/-- The operations, where the ones that look for the committed files find them. -/
def attentive (libs : Libs) (settings : Settings) : Machine Op PyError World where
  step o w r w' := (faulty libs settings).step o w r w' ∧ o.attentive w r = true

/-- A query that answers, beside the threads of `S`, has computed its answer over the rows of the files
that were `COMMITTED` at one moment between its start and its end. `M` is what the operations of the
query do. -/
def AnswersSnapshot (libs : Libs) (S : System Op PyError Unit World Thread)
    (M : Machine Op PyError World) : Prop :=
  ∀ w X Y rows, Initial libs w → S.Reach ⟨fun _ => none, w⟩ X →
    Relation.ReflTransGen (Interleaving M.beside S.Step) (queryRows, X) (.ret rows, Y) →
    ∃ Z, S.Reach X Z ∧ S.Reach Z Y ∧ rows.Perm Z.state.visible

section Snapshot

variable {libs : Libs} {settings : Thread → Settings} {own : Settings} {app : Nat} {α : Type}
  {S : System Op PyError Unit World Thread} {X Y Z : Pool Op PyError Unit World Thread}
  {files : List String}

theorem reach_stable : Stable S.Reach (S.Reach X) := fun _ _ h h' => h.trans h'

/-- An operation of a query that only asks. -/
theorem ask_beside {o : Op α} {P : Pool Op PyError Unit World Thread → Prop}
    {Q : Except PyError α → Pool Op PyError Unit World Thread → Prop}
    (hsame : ∀ w, (World.exec libs own o w).2 = w)
    (hP : Stable S.Reach P)
    (h : ∀ r Y, P Y → o.attentive Y.state r = true →
      r = (World.exec libs own o Y.state).1 ∨ (∃ e, r = .error e) → Q r Y) :
    Triple (attentive libs own).beside S.Reach (fun _ _ => True) P
      (Prog.perform o) Q := by
  apply Triple.perform hP
  intro Y r Y' hY hstep
  obtain ⟨hthread, hfaulty, hattentive⟩ := hstep
  obtain ⟨threads, w'⟩ := Y'
  obtain rfl : threads = Y.thread := hthread
  rcases hfaulty with hexec | ⟨e, -, rfl, hw'⟩
  · replace hexec : World.exec libs own o Y.state = (r, w') := hexec
    obtain rfl : Y.state = w' := by
      rw [← hsame Y.state, hexec]
    exact ⟨trivial, h r Y hY hattentive (.inl (by rw [hexec]))⟩
  · obtain rfl : w' = Y.state := hw'
    exact ⟨trivial, h _ Y hY hattentive (.inr ⟨e, rfl⟩)⟩

/-- What is read from a file that has been committed since are the rows that it had then. -/
theorem iterBatches_beside (hZ : ∀ Y, S.Reach Z Y → Advances Z.state Y.state) {f : String}
    (hf : Z.state.isCommitted f = true) :
    Triple (attentive libs own).beside S.Reach (fun _ _ => True) (S.Reach Z)
      (Prog.perform (.iterBatches f))
      fun r Y => S.Reach Z Y ∧ ∀ batches, r = .ok batches → batches.flatten = Z.state.rowsIn f := by
  apply ask_beside
  · intro w
    simp only [World.exec]
    split
    · rfl
    · split_ifs <;> rfl
  · exact reach_stable
  intro r Y hY _ hr
  refine ⟨hY, fun batches hok => ?_⟩
  subst hok
  rcases hr with hr | ⟨e, he⟩
  · simp only [World.exec] at hr
    cases hl : Y.state.parquetDir.lookup f with
    | none =>
      rw [hl] at hr
      cases hr
    | some file =>
      have hsettled : Z.state.parquetDir.lookup f = some file := by
        rcases (hZ Y hY).settled f (isCommitted_mem hf) with heq | hnone
        · rw [← heq, hl]
        · rw [hl] at hnone
          cases hnone
      rw [hl] at hr
      dsimp only at hr
      split_ifs at hr
      · rw [Except.ok.inj hr, flatten_toChunks, World.rowsIn, hsettled]
        rfl
  · cases he

theorem readParquet_beside (hZ : ∀ Y, S.Reach Z Y → Advances Z.state Y.state)
    (hfiles : ∀ f ∈ files, Z.state.isCommitted f = true) :
    Triple (attentive libs own).beside S.Reach (fun _ _ => True) (S.Reach Z) (readParquet files)
      fun r Y => S.Reach Z Y ∧ ∀ rows, r = .ok rows → rows = files.flatMap Z.state.rowsIn := by
  apply Triple.pre (H := fun Y => ((∀ f ∈ files, Z.state.isCommitted f = true) ∧
    [] ++ files.flatMap Z.state.rowsIn = files.flatMap Z.state.rowsIn) ∧ S.Reach Z Y)
  · exact fun Y hY => ⟨⟨hfiles, rfl⟩, hY⟩
  apply Triple.forEach (I := fun rest rows Y => ((∀ f ∈ rest, Z.state.isCommitted f = true) ∧
    rows ++ rest.flatMap Z.state.rowsIn = files.flatMap Z.state.rowsIn) ∧ S.Reach Z Y)
  · intro f rest rows
    apply Triple.assume
    intro hrest
    obtain ⟨hcommitted, hrows⟩ := hrest
    apply (iterBatches_beside hZ (hcommitted f List.mem_cons_self)).bind
    · intro batches
      apply Triple.ret
      intro Y hY
      refine ⟨⟨fun g hg => hcommitted g (List.mem_cons_of_mem _ hg), ?_⟩, hY.1⟩
      rw [hY.2 batches rfl, List.append_assoc, ← hrows, List.flatMap_cons]
    · exact fun e Y hY => ⟨hY.1, fun rows h => by cases h⟩
  · intro rows Y hY
    refine ⟨hY.2, fun rows' h => ?_⟩
    obtain rfl := Except.ok.inj h
    rw [← hY.1.2, List.flatMap_nil, List.append_nil]

/-- The files are those that were committed when the manifest was read. -/
theorem getCommittedParquetFiles_beside :
    Triple (attentive libs own).beside S.Reach (fun _ _ => True) (S.Reach X) getCommittedParquetFiles
      fun r Y => ∃ Z, (S.Reach X Z ∧
        ∀ files, r = .ok files → files = sortNames Z.state.committedNames) ∧ S.Reach Z Y := by
  unfold getCommittedParquetFiles
  apply Triple.tryThen (J := fun r Y => ∃ Z, (S.Reach X Z ∧
    (∀ files, r = .ok files → files = sortNames Z.state.committedNames) ∧
    ∀ e, r = .error e → Z.state.committedNames = []) ∧ S.Reach Z Y)
  · apply Triple.bind (J := fun r Y => ∃ Z, (S.Reach X Z ∧
      (∀ files, r = .ok files → files = sortNames Z.state.committedNames) ∧
      ∀ e, r = .error e → Z.state.committedNames = []) ∧ S.Reach Z Y)
    · apply ask_beside (fun _ => rfl) reach_stable
      intro r Y hY hattentive hr
      refine ⟨Y, ⟨hY, fun files hok => ?_, fun e he => ?_⟩, .refl⟩
      · rcases hr with hr | ⟨e, he⟩
        · rw [hok] at hr
          exact Except.ok.inj hr
        · rw [hok] at he
          cases he
      · subst he
        simpa [Op.attentive, Except.isOk, Except.toBool] using hattentive
    · intro names
      apply Triple.exists_pre
      intro Z
      apply Triple.assume
      intro hnames
      obtain ⟨hZ, hsorted, -⟩ := hnames
      -- every name of the list passes the test
      apply @Triple.filterBy_eq _ _ _ _ _ _ _ (S.Reach Z) _ fun _ => true
      · intro f _
        apply ask_beside (fun _ => rfl) reach_stable
        intro r Y hY hattentive hr
        rcases hr with rfl | ⟨e, rfl⟩
        · have hf : f ∈ Y.state.parquetDir := by
            simpa [Op.attentive, World.exec, Except.isOk, Except.toBool] using hattentive
          exact ⟨decide_eq_true hf, hY⟩
        · simp [Op.attentive, Except.isOk, Except.toBool] at hattentive
      · intro Y hY
        refine ⟨Z, ⟨hZ, fun files hok => ?_, fun e he => by cases he⟩, hY⟩
        rw [← Except.ok.inj hok, List.filter_true]
        exact hsorted names rfl
    · exact fun e Y hY => hY.imp fun Z hZ => ⟨⟨hZ.1.1, fun files h => (by cases h),
        fun e' _ => hZ.1.2.2 e rfl⟩, hZ.2⟩
  · intro result
    apply Triple.exists_pre
    intro Z
    apply Triple.assume
    intro hresult
    obtain ⟨hZ, hok, herr⟩ := hresult
    cases result with
    | ok files =>
      refine Triple.ret fun Y hY => ⟨Z, ⟨hZ, fun files' h => ?_⟩, hY⟩
      exact hok files' h
    | error e =>
      refine Triple.ret fun Y hY => ⟨Z, ⟨hZ, fun files' h => ?_⟩, hY⟩
      rw [herr e rfl, ← Except.ok.inj h]
      rfl

theorem queryRows_beside (hX : ∀ Z Y, S.Reach X Z → S.Reach Z Y → Advances Z.state Y.state) :
    Triple (attentive libs own).beside S.Reach (fun _ _ => True)
      (S.Reach X) queryRows
      fun r Y => ∃ Z, S.Reach X Z ∧
        S.Reach Z Y ∧
        ∀ rows, r = .ok rows → rows = (sortNames Z.state.committedNames).flatMap Z.state.rowsIn := by
  apply getCommittedParquetFiles_beside.bind
  · intro files
    apply Triple.exists_pre
    intro Z
    apply Triple.assume
    intro hfiles
    obtain ⟨hZ, hsorted⟩ := hfiles
    obtain rfl := hsorted files rfl
    apply Triple.cond
    · intro hnil
      refine Triple.ret fun Y hY => ⟨Z, hZ, hY, fun rows h => ?_⟩
      rw [hnil, ← Except.ok.inj h]
      rfl
    · intro _
      apply (readParquet_beside (fun Y => hX Z Y hZ) ?_).post
      · exact fun r Y hY => ⟨Z, hZ, hY⟩
      · intro f hf
        exact mem_committedNames.mp ((List.perm_insertionSort _ _).mem_iff.mp hf)
  · intro e Y hY
    obtain ⟨Z, hZ, hreach⟩ := hY
    exact ⟨Z, hZ.1, hreach, fun rows h => by cases h⟩

/-- A query that finds the files that it looks for has been given the rows of one moment. -/
theorem query_visible {Stop : World → Prop} {K : World → Progress → Prop}
    {Bad : String → WalCorruptionError → Bytes → Prop} (hlibs : FreshNames libs)
    (U : Upheld libs settings Stop K Bad)
    (hX : Framework.Sound (service libs settings app Op.spares Stop) (Intact libs K) (Undisturbed libs K)
      (Yields libs K) X) {rows : List Row}
    (hrun : Relation.ReflTransGen (Interleaving (attentive libs own).beside
      (service libs settings app Op.spares Stop).Step) (queryRows, X) (.ret rows, Y)) :
    ∃ Z, (service libs settings app Op.spares Stop).Reach X Z ∧
      (service libs settings app Op.spares Stop).Reach Z Y ∧ rows.Perm Z.state.visible := by
  have hcompatible := @service_compatible libs settings app Stop K Bad hlibs U
  have hquery := @queryRows_beside libs own (service libs settings app Op.spares Stop) X
    fun Z Y hZ hY => service_advances hlibs U (hcompatible.sound_reach hX hZ) hY
  obtain ⟨Y', hY', Z, hXZ, hZY, hrows⟩ := hquery.interleaved (r := .ok rows) (fun _ => .refl)
    (fun _ _ _ h h' => h.trans h') (fun _ _ h => .single h) .refl hrun
  refine ⟨Z, hXZ, hZY.trans hY', ?_⟩
  rw [hrows rows rfl]
  exact (List.perm_insertionSort _ _).flatMap_right _

/-- A query that finds the files that it looks for answers over what was visible at one moment. -/
theorem query_snapshot (hlibs : FreshNames libs) :
    AnswersSnapshot libs (service libs settings app Op.spares fun _ => True) (attentive libs own) := by
  intro w X Y rows hw hX hrun
  exact query_visible hlibs complete_upheld (service_sound hlibs complete_upheld hw hw.complete hX) hrun

end Snapshot

/-- The pool in which a call has left `twoFiles`. -/
def twoFilesServed : Pool Op PyError Unit World Thread :=
  ⟨Function.update (fun _ => none) ⟨0, 0⟩ (some (.ret ())), twoFiles⟩

theorem twoFilesServed_faultless : ∃ w, Initial sampleLibs w ∧
    (faultless sampleLibs (fun _ => { materializeBatchSize := 1 }) 1 Op.spares).Reach ⟨fun _ => none, w⟩
      twoFilesServed := by
  have hcall := twoFiles_materialized.andThen (Prog.onOk fun _ => Prog.ret ())
  have hreach := @faultless_call sampleLibs (fun _ => { materializeBatchSize := 1 }) 1 ⟨0, 0⟩ _ _ Op.spares
    (fun _ => none) _ _ _ (by decide) rfl (.materialize (by decide)) hcall
  exact ⟨_, initial_ofSegments _ _, hreach⟩

theorem twoFilesServed_reach : ∃ w, Initial sampleLibs w ∧
    (service sampleLibs (fun _ => { materializeBatchSize := 1 }) 1 Op.spares fun _ => True).Reach ⟨fun _ => none, w⟩
      twoFilesServed := by
  obtain ⟨w, hw, hreach⟩ := twoFilesServed_faultless
  exact ⟨w, hw, faultless_reach hreach⟩

/-- The regular effect of an operation, as long as it finds the files that it looks for. -/
def execAttentive {α : Type} (o : Op α) (w : World) : Option (Except PyError α × World) :=
  if o.attentive w (World.exec sampleLibs {} o w).1 then some (World.exec sampleLibs {} o w) else none

theorem execAttentive_step {α : Type} (o : Op α) (w : World) (r : Except PyError α) (w' : World)
    (h : execAttentive o w = some (r, w')) : (attentive sampleLibs {}).step o w r w' := by
  unfold execAttentive at h
  split_ifs at h with hattentive
  have hexec : World.exec sampleLibs {} o w = (r, w') := Option.some.inj h
  rw [hexec] at hattentive
  exact ⟨.inl hexec, hattentive⟩

theorem execAttentive_regular {α : Type} (o : Op α) (w : World) (r : Except PyError α) (w' : World)
    (h : execAttentive o w = some (r, w')) : (regular sampleLibs {}).step o w r w' := by
  unfold execAttentive at h
  split_ifs at h
  exact Option.some.inj h

/-- A query of `twoFiles` that has read the manifest. -/
def lateQuery : Call (List Row) × World := Prog.follow execAttentive 1 (queryRows, twoFiles)

theorem lateQuery_runs {M : Machine Op PyError World}
    (h : ∀ {γ : Type} (o : Op γ) w r w', execAttentive o w = some (r, w') → M.step o w r w') :
    Prog.Runs M (queryRows, twoFiles) (lateQuery.1, lateQuery.2) := by
  rw [Prod.mk.eta]
  exact Prog.follow_runs h 1 _

/-- Since then the files have been merged, and are still to be removed. -/
def merging : Call Unit × World :=
  lateQuery.2.follow sampleLibs { materializeBatchSize := 1 } 19 (compactParquetFiles ⟨2, 0⟩ 20).discard

/-- A query of `twoFiles` that answers, while a compaction commits. -/
theorem twoFilesServed_query : ∃ (rows : List Row) (Y : Pool Op PyError Unit World Thread), rows.length = 2 ∧
    Y.state.committedNames.length = 1 ∧
    Relation.ReflTransGen (Interleaving (attentive sampleLibs {}).beside
      (service sampleLibs (fun _ => { materializeBatchSize := 1 }) 1 Op.spares fun _ => True).Step)
      (queryRows, twoFilesServed) (.ret rows, Y) := by
  have hlist := lateQuery_runs execAttentive_step
  have hmerge := faultless_reach (@faultless_call sampleLibs (fun _ => { materializeBatchSize := 1 }) 1 ⟨2, 0⟩ _ _
    Op.spares twoFilesServed.thread _ _ _ (by decide) rfl (.compact 20)
    (World.follow_runs 19 (compactParquetFiles ⟨2, 0⟩ 20).discard lateQuery.2))
  obtain ⟨rows, hrows, hlength⟩ : ∃ rows, (Prog.follow execAttentive 12 (lateQuery.1, merging.2)).1.outcome? =
      some (.ok rows) ∧ rows.length = 2 := by
    have hsome : ((Prog.follow execAttentive 12 (lateQuery.1, merging.2)).1.outcome?.bind
        Except.toOption).map List.length = some 2 := by decide +kernel
    obtain ⟨rows, hok, hlength⟩ := Option.map_eq_some_iff.mp hsome
    obtain ⟨r, hr, hok⟩ := Option.bind_eq_some_iff.mp hok
    cases r with
    | ok rows' =>
      obtain rfl := Option.some.inj hok
      exact ⟨_, hr, hlength⟩
    | error e => cases hok
  have hscan := Prog.follow_outcome execAttentive_step hrows
  refine ⟨rows, _, hlength, ?_, ((Interleaving.of_runs (runs_beside hlist)).trans
    (Interleaving.of_beside hmerge)).trans (Interleaving.of_runs (runs_beside hscan))⟩
  decide +kernel

theorem query_snapshot_twoFiles : ∃ (rows : List Row) (Y Z : Pool Op PyError Unit World Thread),
    rows.length = 2 ∧ Y.state.committedNames.length = 1 ∧ rows.Perm Z.state.visible ∧
    (service sampleLibs (fun _ => { materializeBatchSize := 1 }) 1 Op.spares fun _ => True).Reach twoFilesServed Z ∧
    (service sampleLibs (fun _ => { materializeBatchSize := 1 }) 1 Op.spares fun _ => True).Reach Z Y := by
  obtain ⟨w, hw, hX⟩ := twoFilesServed_reach
  obtain ⟨rows, Y, hlength, hmerged, hrun⟩ := twoFilesServed_query
  obtain ⟨Z, hXZ, hZY, hperm⟩ := query_snapshot sampleLibs_freshNames w twoFilesServed _ rows hw hX hrun
  exact ⟨rows, Y, Z, hlength, hmerged, hperm, hXZ, hZY⟩

/-- The files have been merged since, and removed. -/
def mergedSince : World :=
  (lateQuery.2.follow sampleLibs { materializeBatchSize := 1 } 100
    (compactParquetFiles ⟨2, 0⟩ 20).discard).2

/-- A query that has read the manifest before a compaction finds none of the files of its list,
and answers as if there were no rows, although nothing has failed. -/
theorem not_query_snapshot : ¬AnswersSnapshot sampleLibs
    (faultless sampleLibs (fun _ => { materializeBatchSize := 1 }) 1 Op.spares) (regular sampleLibs {}) := by
  intro h
  obtain ⟨w, hw, hX⟩ := twoFilesServed_faultless
  have hlist := lateQuery_runs execAttentive_regular
  have hmerge : Prog.Runs (regular sampleLibs { materializeBatchSize := 1 })
      ((compactParquetFiles ⟨2, 0⟩ 20).discard, lateQuery.2) (.ret (), mergedSince) :=
    World.follow_outcome (r := .ok ()) (by decide +kernel)
  have hcompact := @faultless_call sampleLibs (fun _ => { materializeBatchSize := 1 }) 1 ⟨2, 0⟩ _ _ Op.spares
    twoFilesServed.thread _ _ _ (by decide) rfl (.compact 20) hmerge
  have hscan : Prog.Runs (regular sampleLibs {}) (lateQuery.1, mergedSince)
      (.ret [], (mergedSince.follow sampleLibs {} 10 lateQuery.1).2) :=
    World.follow_outcome (r := .ok []) (by decide +kernel)
  have hrun := ((Interleaving.of_runs (runs_beside hlist)).trans (Interleaving.of_beside hcompact)).trans
    (Interleaving.of_runs (runs_beside hscan))
  obtain ⟨Z, hXZ, -, hrows⟩ := h w twoFilesServed _ [] hw hX hrun
  have hsound := service_sound sampleLibs_freshNames complete_upheld hw hw.complete (faultless_reach hX)
  have hadvances := service_advances sampleLibs_freshNames complete_upheld hsound (faultless_reach hXZ)
  have hle := (hadvances.visible.trans hrows.symm.subperm).length_le
  have htwo : twoFilesServed.state.visible.length = 2 := by decide +kernel
  rw [htwo] at hle
  cases hle

end Lrcp.Store
