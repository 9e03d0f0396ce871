import Lrcp.Store.Discipline

namespace Lrcp.Store

open Lrcp.Wal Lrcp.Otlp Lrcp.Framework

/-- The `n`-th draw has been made, and the manifest does not know its names. -/
def World.Drawn (libs : Libs) (w : World) (n : Nat) : Prop :=
  n < w.stamps ∧ ∀ f ∈ generated libs n, f ∉ w.control.parquetFiles

section Effects

variable {libs : Libs} {w w' : World} {f name : String} {n : Nat}

theorem isCommitted_mem (h : w.isCommitted f = true) : f ∈ w.control.parquetFiles := by
  unfold World.isCommitted at h
  apply AList.lookup_isSome.mp
  cases hl : w.control.parquetFiles.lookup f with
  | none => simp [hl] at h
  | some row => rfl

theorem mem_committedNames : f ∈ w.committedNames ↔ w.isCommitted f = true := by
  unfold World.committedNames
  rw [List.mem_filter]
  exact ⟨And.right, fun h => ⟨AList.mem_keys.mp (isCommitted_mem h), h⟩⟩

theorem Frame.drawn (h : Frame w w') (hd : w.Drawn libs n) : w'.Drawn libs n := by
  unfold World.Drawn at hd ⊢
  rw [h.control, h.stamps]
  exact hd

theorem Quiet.drawn (h : Quiet w w') (hd : w.Drawn libs n) : w'.Drawn libs n := by
  refine ⟨hd.1.trans_le h.stamps, fun f hf => ?_⟩
  rw [h.files]
  exact hd.2 f hf

/-- Only the Parquet directory changes, and for no file of the manifest but by its removal. -/
theorem quiet_of_parquetDir {dir : Table ParquetFile} {renamed : List String}
    (hcommitted : ∀ f, w.isCommitted f = true → dir.lookup f = w.parquetDir.lookup f)
    (hknown : ∀ f ∈ w.control.parquetFiles,
      dir.lookup f = w.parquetDir.lookup f ∨ dir.lookup f = none) :
    Quiet w { w with parquetDir := dir, history := { w.history with renamed } } where
  exclusive := rfl
  walDir := rfl
  unlinked := rfl
  unflushed := rfl
  offsets := rfl
  records := rfl
  files := rfl
  events := rfl
  stamps := Nat.le_refl _
  connections := Nat.le_refl _
  committed := hcommitted
  known := hknown

theorem quiet_erase (h : w.isCommitted f = false) :
    Quiet w { w with parquetDir := w.parquetDir.erase f } := by
  apply quiet_of_parquetDir
  · intro g hg
    have hne : g ≠ f := by
      intro e
      rw [e, h] at hg
      cases hg
    rw [AList.lookup_erase_ne hne]
  · intro g _
    by_cases hne : g = f
    · subst hne
      exact .inr (AList.lookup_erase _ _)
    · exact .inl (AList.lookup_erase_ne hne)

theorem Fresh.erase (h : Fresh libs w) (f : String) :
    Fresh libs { w with parquetDir := w.parquetDir.erase f } where
  unused n hn g hg := by
    obtain ⟨hdir, hfiles⟩ := h.unused n hn g hg
    refine ⟨fun hmem => hdir ?_, hfiles⟩
    exact (AList.mem_erase.mp hmem).2
  manifest := h.manifest

theorem quiet_insert (file : ParquetFile) (h : name ∉ w.control.parquetFiles) :
    Quiet w { w with parquetDir := w.parquetDir.insert name file } := by
  apply quiet_of_parquetDir
  · intro g hg
    have hne : g ≠ name := fun e => h (e ▸ isCommitted_mem hg)
    rw [AList.lookup_insert_ne hne]
  · intro g hg
    have hne : g ≠ name := fun e => h (e ▸ hg)
    exact .inl (AList.lookup_insert_ne hne)

/-- A name that has been drawn is not among those still to be drawn. -/
theorem ne_generated (hlibs : FreshNames libs) {m : Nat} (hnm : n ≠ m) (hname : name ∈ generated libs n)
    {g : String} (hg : g ∈ generated libs m) : g ≠ name := by
  intro e
  subst e
  exact hlibs.disjoint n m hnm hname hg

theorem Fresh.insert (hlibs : FreshNames libs) (h : Fresh libs w) (hn : n < w.stamps)
    (hname : name ∈ generated libs n) (file : ParquetFile) :
    Fresh libs { w with parquetDir := w.parquetDir.insert name file } where
  unused m hm g hg := by
    obtain ⟨hdir, hfiles⟩ := h.unused m hm g hg
    refine ⟨fun hmem => ?_, hfiles⟩
    rcases (AList.mem_insert _).mp hmem with e | hmem
    · exact ne_generated hlibs (Nat.ne_of_lt (hn.trans_le hm)) hname hg e
    · exact hdir hmem
  manifest := h.manifest

/-- The manifest gets one name that has been drawn. -/
theorem Fresh.commit (hlibs : FreshNames libs) (h : Fresh libs w) (hn : n < w.stamps)
    (hname : name ∈ generated libs n) (htmp : hasSuffix ".tmp" name = false)
    (hstamps : w'.stamps = w.stamps) (hdir : w'.parquetDir = w.parquetDir)
    (hfiles : ∀ f ∈ w'.control.parquetFiles, f = name ∨ f ∈ w.control.parquetFiles) :
    Fresh libs w' where
  unused m hm g hg := by
    rw [hstamps] at hm
    obtain ⟨hd, hf⟩ := h.unused m hm g hg
    refine ⟨by rw [hdir]; exact hd, fun hmem => ?_⟩
    rcases hfiles g hmem with e | hmem
    · exact ne_generated hlibs (Nat.ne_of_lt (hn.trans_le hm)) hname hg e
    · exact hf hmem
  manifest f hf := by
    rcases hfiles f hf with rfl | hf
    · exact htmp
    · exact h.manifest f hf

theorem Fresh.of_eq (h : Fresh libs w) (hs : w.stamps ≤ w'.stamps)
    (hdir : ∀ f ∈ w'.parquetDir, f ∈ w.parquetDir)
    (hfiles : w'.control.parquetFiles = w.control.parquetFiles) : Fresh libs w' where
  unused n hn g hg := by
    obtain ⟨hd, hf⟩ := h.unused n (hs.trans hn) g hg
    exact ⟨fun hmem => hd (hdir g hmem), by rw [hfiles]; exact hf⟩
  manifest f hf := h.manifest f (by rw [hfiles] at hf; exact hf)

theorem not_tmp_parquet (name : String) : hasSuffix ".tmp" (name ++ ".parquet") = false := by
  unfold hasSuffix
  rw [Bool.eq_false_iff, ne_eq, List.isSuffixOf_iff_suffix, String.toList_append]
  intro h
  have hlast := List.IsSuffix.getLast h (by decide)
  rw [List.getLast_append_of_ne_nil (by simp) (by decide)] at hlast
  revert hlast
  decide

end Effects

namespace Discipline

variable {libs : Libs} {settings : Settings} {Allowed : Guard} {c : Conn}
  {R G : World → World → Prop} {I : World → Progress → Prop}
  {Bad : String → WalCorruptionError → Bytes → Prop} {p : Progress} {F : World → Prop}

theorem unlinkEach_triple (D : Discipline libs settings Allowed c R G I Bad) (hF : FrameStable F)
    (hQ : QuietStable F) (files : List String) (deletedCount : Nat) :
    Triple (guarded libs settings Allowed) R G
      (At libs c I p fun w => F w ∧ ∀ f ∈ files, w.isCommitted f = false)
      (unlinkEach files deletedCount) fun _ => At libs c I p F := by
  unfold unlinkEach
  have hstable : ∀ files : List String, FrameStable fun w => F w ∧ ∀ f ∈ files, w.isCommitted f = false := by
    intro files w w' h hw
    exact ⟨hF w w' h hw.1, fun f hf => by rw [h.isCommitted]; exact hw.2 f hf⟩
  apply Triple.forEach (I := fun files _ => At libs c I p fun w =>
    F w ∧ ∀ f ∈ files, w.isCommitted f = false)
  · intro f files n
    apply Triple.bind (J := fun r => At libs c I p fun w =>
      F w ∧ ∀ f ∈ files, w.isCommitted f = false)
    · apply Triple.attempt (J := fun _ => At libs c I p fun w =>
        F w ∧ ∀ f ∈ files, w.isCommitted f = false)
      · apply D.quiet (hstable _)
        · intro w r w' hin hw _ hexec
          obtain ⟨rfl, rfl⟩ := Prod.mk.inj hexec
          have hq := quiet_erase (hw.2 f (by simp))
          refine ⟨hq, hin.fresh.erase f, hQ _ _ hq hw.1, fun g hg => ?_⟩
          rw [hq.isCommitted]
          exact hw.2 g (by simp [hg])
        · intro w e hw _
          exact ⟨hw.1, fun g hg => hw.2 g (by simp [hg])⟩
      · intro r w hw
        exact hw
    · intro r
      split
      · exact Triple.ret fun w hw => hw
      · exact Triple.ret fun w hw => hw
      · exact Triple.raise fun w hw => ⟨hw.1, hw.2.1, hw.2.2.1⟩
    · intro e w hw
      exact ⟨hw.1, hw.2.1, hw.2.2.1⟩
  · intro n w hw
    exact ⟨hw.1, hw.2.1, hw.2.2.1⟩

theorem cleanupOrphaned_triple (D : Discipline libs settings Allowed c R G I Bad)
    (hF : FrameStable F) (hQ : QuietStable F) :
    Triple (guarded libs settings Allowed) R G (At libs c I p F) cleanupOrphanedParquetFiles
      fun _ => At libs c I p F := by
  unfold cleanupOrphanedParquetFiles
  apply Triple.bind (D.pass (o := .mkdirParquet) hF fun _ => rfl)
  swap
  · exact fun _ _ hw => hw
  intro _
  apply Triple.bind (J := fun r => At libs c I p fun w => F w ∧
    ∀ files, r = .ok files → ∀ f ∈ files, w.isCommitted f = false)
  · apply D.perform hF
    · intro w r w' hw _ hexec
      obtain ⟨rfl, rfl⟩ := Prod.mk.inj hexec
      refine ⟨D.guarantee_refl hw.1 hw.2.1, hw.1, hw.2.1, hw.2.2, fun files hfiles f hf => ?_⟩
      obtain rfl := Except.ok.inj hfiles
      have htmp := (List.mem_filter.mp hf).2
      cases hcommitted : w.isCommitted f with
      | false => rfl
      | true =>
        rw [hw.1.fresh.manifest f (isCommitted_mem hcommitted)] at htmp
        cases htmp
    · intro w e hw _
      exact ⟨hw.1, hw.2.1, hw.2.2, fun files h => by cases h⟩
  swap
  · exact fun _ _ hw => ⟨hw.1, hw.2.1, hw.2.2.1⟩
  intro tmpFiles
  apply Triple.bind (J := fun _ => At libs c I p F)
  · apply (D.unlinkEach_triple hF hQ tmpFiles 0).pre
    intro w hw
    exact ⟨hw.1, hw.2.1, hw.2.2.1, hw.2.2.2 tmpFiles rfl⟩
  swap
  · exact fun _ _ hw => hw
  intro deletedCount
  apply Triple.bind (J := fun r => At libs c I p fun w => F w ∧
    ∀ committed, r = .ok (.ok committed) → ∀ f, w.isCommitted f = true → f ∈ committed)
  · apply Triple.attempt (J := fun r => At libs c I p fun w => F w ∧
      ∀ committed, r = .ok committed → ∀ f, w.isCommitted f = true → f ∈ committed)
    · apply D.ask (o := .selectCommitted) hF fun _ => rfl
      · intro w hw _
        refine ⟨hw, fun committed hc f hf => ?_⟩
        obtain rfl := Except.ok.inj hc
        exact mem_committedNames.mpr hf
      · intro w e hw _
        exact ⟨hw, fun committed h => by cases h⟩
    · intro r w hw
      refine ⟨hw.1, hw.2.1, hw.2.2.1, fun committed h => ?_⟩
      exact hw.2.2.2 committed (Except.ok.inj h)
  swap
  · exact fun _ _ hw => ⟨hw.1, hw.2.1, hw.2.2.1⟩
  intro result
  split
  · exact Triple.ret fun w hw => ⟨hw.1, hw.2.1, hw.2.2.1⟩
  · exact Triple.raise fun w hw => ⟨hw.1, hw.2.1, hw.2.2.1⟩
  rename_i committed
  apply Triple.bind (J := fun _ => At libs c I p fun w => F w ∧
    ∀ f, w.isCommitted f = true → f ∈ committed)
  · apply (D.pass (F := fun w => F w ∧ ∀ f, w.isCommitted f = true → f ∈ committed)
      (o := .globParquet) ?_ fun _ => rfl).pre
    · intro w hw
      exact ⟨hw.1, hw.2.1, hw.2.2.1, hw.2.2.2 committed rfl⟩
    · intro w w' h hw
      exact ⟨hF w w' h hw.1, fun f hf => hw.2 f (by rw [h.isCommitted] at hf; exact hf)⟩
  swap
  · exact fun _ _ hw => ⟨hw.1, hw.2.1, hw.2.2.1⟩
  intro files
  apply (D.unlinkEach_triple hF hQ _ deletedCount).pre
  intro w hw
  refine ⟨hw.1, hw.2.1, hw.2.2.1, fun f hf => ?_⟩
  have hnot : f ∉ committed := by simpa using (List.mem_filter.mp hf).2
  cases hcommitted : w.isCommitted f with
  | false => rfl
  | true => exact absurd (hw.2.2.2 f hcommitted) hnot

/-- A draw of a timestamp and an identifier. -/
theorem stamp_triple (D : Discipline libs settings Allowed c R G I Bad) (hF : FrameStable F)
    (hQ : QuietStable F) :
    Triple (guarded libs settings Allowed) R G (At libs c I p F) (Prog.perform .stamp)
      fun r => At libs c I p fun w => F w ∧
        ∃ n, r = .ok (libs.timestamp n, libs.uuid4Hex n) ∧ w.Drawn libs n := by
  apply D.quiet (K := fun r w => F w ∧
    ∃ n, r = .ok (libs.timestamp n, libs.uuid4Hex n) ∧ w.Drawn libs n) hF
  · intro w r w' hin hw _ hexec
    obtain ⟨rfl, rfl⟩ := Prod.mk.inj hexec
    have hq : Quiet w { w with stamps := w.stamps + 1 } :=
      { Quiet.refl w with stamps := Nat.le_succ _ }
    refine ⟨hq, hin.fresh.of_eq (Nat.le_succ _) (fun _ h => h) rfl, hQ _ _ hq hw, w.stamps, rfl,
      Nat.lt_succ_self _, fun f hf => (hin.fresh.unused _ (Nat.le_refl _) f hf).2⟩
  · intro w e _ he
    cases he

theorem writeTable_triple (D : Discipline libs settings Allowed c R G I Bad) (hlibs : FreshNames libs)
    (hF : FrameStable F) (hQ : QuietStable F) {n : Nat} {path : String} (rows : List Row)
    (hpath : path ∈ generated libs n) :
    Triple (guarded libs settings Allowed) R G (At libs c I p fun w => F w ∧ w.Drawn libs n)
      (Prog.perform (.writeTable path rows))
      fun r => At libs c I p fun w => (F w ∧ w.Drawn libs n) ∧
        (∀ e, r = .error e → e.isValueError = false) ∧
        (r = .ok () → ∀ file, w.parquetDir.lookup path = some file → file = ⟨rows, true⟩) := by
  apply D.quiet (K := fun r w => (F w ∧ w.Drawn libs n) ∧
        (∀ e, r = .error e → e.isValueError = false) ∧
        (r = .ok () → ∀ file, w.parquetDir.lookup path = some file → file = ⟨rows, true⟩))
  · intro w w' h hw
    exact ⟨hF w w' h hw.1, h.drawn hw.2⟩
  · intro w r w' hin hw _ hexec
    obtain ⟨rfl, rfl⟩ := Prod.mk.inj hexec
    have hq : Quiet w { w with parquetDir := w.parquetDir.insert path ⟨rows, true⟩ } :=
      quiet_insert _ (hw.2.2 path hpath)
    refine ⟨hq, hin.fresh.insert hlibs hw.2.1 hpath _, ⟨hQ _ _ hq hw.1, hq.drawn hw.2⟩,
      (fun e h => by cases h), fun _ file hfile => ?_⟩
    rw [AList.lookup_insert] at hfile
    exact (Option.some.inj hfile).symm
  · intro w e hw he
    obtain rfl := Option.some.inj he
    exact ⟨hw, fun e h => by cases h; rfl, fun h => by cases h⟩

/-- The temporary file is moved to its final name, unless somebody has removed it. -/
theorem replace_triple (D : Discipline libs settings Allowed c R G I Bad) (hlibs : FreshNames libs)
    (hF : FrameStable F) (hQ : QuietStable F) {n : Nat} {temp final : String} {file : ParquetFile}
    (htemp : temp ∈ generated libs n) (hfinal : final ∈ generated libs n) :
    Triple (guarded libs settings Allowed) R G (At libs c I p fun w => (F w ∧ w.Drawn libs n) ∧
        ∀ file', w.parquetDir.lookup temp = some file' → file' = file)
      (Prog.perform (.replace temp final))
      fun r => At libs c I p fun w => (F w ∧ w.Drawn libs n) ∧
        (∀ e, r = .error e → e.isValueError = false) ∧
        (r = .ok () → w.parquetDir.lookup final = some file ∧ final ∈ w.history.renamed) := by
  apply D.quiet (K := fun r w => (F w ∧ w.Drawn libs n) ∧
        (∀ e, r = .error e → e.isValueError = false) ∧
        (r = .ok () → w.parquetDir.lookup final = some file ∧ final ∈ w.history.renamed))
  · intro w w' h hw
    exact ⟨⟨hF w w' h hw.1.1, h.drawn hw.1.2⟩, fun file' hf => hw.2 file' (h.parquet _ _ hf)⟩
  · intro w r w' hin hw _ hexec
    obtain ⟨⟨hw, hd⟩, hfile⟩ := hw
    cases hl : w.parquetDir.lookup temp with
    | none =>
      simp only [World.exec, hl] at hexec
      obtain ⟨rfl, rfl⟩ := Prod.mk.inj hexec
      exact ⟨Quiet.refl w, hin.fresh, ⟨hw, hd⟩, fun e h => by cases h; rfl, fun h => by cases h⟩
    | some file' =>
      obtain rfl := hfile file' hl
      simp only [World.exec, hl] at hexec
      obtain ⟨rfl, rfl⟩ := Prod.mk.inj hexec
      have hq : Quiet w { w with
          parquetDir := (w.parquetDir.erase temp).insert final file'
          history := { w.history with renamed := final :: w.history.renamed } } := by
        have hne : ∀ g ∈ w.control.parquetFiles, g ≠ temp ∧ g ≠ final := by
          intro g hg
          exact ⟨fun e => hd.2 temp htemp (e ▸ hg), fun e => hd.2 final hfinal (e ▸ hg)⟩
        have hsame : ∀ g ∈ w.control.parquetFiles,
            ((w.parquetDir.erase temp).insert final file').lookup g = w.parquetDir.lookup g := by
          intro g hg
          rw [AList.lookup_insert_ne (hne g hg).2, AList.lookup_erase_ne (hne g hg).1]
        exact quiet_of_parquetDir (fun g hg => hsame g (isCommitted_mem hg)) fun g hg => .inl (hsame g hg)
      have hfresh := (hin.fresh.erase temp).insert hlibs hd.1 hfinal file'
      refine ⟨hq, hfresh.of_eq (Nat.le_refl _) (fun _ h => h) rfl, ⟨hQ _ _ hq hw, hq.drawn hd⟩,
        (fun e h => by cases h), fun _ => ⟨AList.lookup_insert _, List.mem_cons_self⟩⟩
  · intro w e hw he
    obtain rfl := Option.some.inj he
    exact ⟨hw.1, fun e h => by cases h; rfl, fun h => by cases h⟩

theorem spansFilename_mem (n : Nat) :
    spansFilename (libs.timestamp n) (libs.uuid4Hex n) ∈ generated libs n := by
  simp [generated]

theorem spansTempPath_mem (n : Nat) :
    spansTempPath (libs.timestamp n) (libs.uuid4Hex n) ∈ generated libs n := by
  simp [generated]

/-- `_flush_batch` on a batch with rows: the batch is committed, or the exception
leaves it as it was. A `ValueError` comes from a row that does not fit the schema. -/
theorem flush_triple (D : Discipline libs settings Allowed c R G I Bad) (hlibs : FreshNames libs)
    {K : World → Prop} (hF : FrameStable F) (hQ : QuietStable F) (hne : p.batch.rows ≠ [])
    (hcommit : ∀ w name, Inside libs c w → F w → K (w.exec libs settings (.commitBatch name
      p.batch.rows.length (p.batch.entries.map fun (f, off, _) => (f, off, ""))
      p.batch.offsets)).2) :
    Triple (guarded libs settings Allowed) R G (At libs c I p F) (p.flush libs)
      fun r w => match r with
        | .ok p' => p' = ⟨{}, p.total + p.batch.rows.length⟩ ∧
            (∀ row ∈ p.batch.rows, row.fitsSchema = true) ∧ At libs c I p' K w
        | .error e => At libs c I p F w ∧
            (e.isValueError = true → ¬∀ row ∈ p.batch.rows, row.fitsSchema = true) := by
  unfold Progress.flush flushBatch
  rw [if_neg hne]
  -- an exception that is no `ValueError` leaves everything as it was
  have hmild : ∀ (e : PyError) (H : World → Prop), (∀ w, H w → F w) → e.isValueError = false →
      ∀ w, At libs c I p H w → At libs c I p F w ∧
        (e.isValueError = true → ¬∀ row ∈ p.batch.rows, row.fitsSchema = true) := by
    intro e H hH he w hw
    refine ⟨⟨hw.1, hw.2.1, hH w hw.2.2⟩, fun h => ?_⟩
    rw [he] at h
    cases h
  apply Triple.bind (J := fun r w => match r with
    | .ok _ => (∀ row ∈ p.batch.rows, row.fitsSchema = true) ∧
        At libs c I ⟨{}, p.total + p.batch.rows.length⟩ K w
    | .error e => At libs c I p F w ∧
        (e.isValueError = true → ¬∀ row ∈ p.batch.rows, row.fitsSchema = true))
  swap
  · exact fun _ => Triple.ret fun w hw => ⟨rfl, hw⟩
  swap
  · exact fun _ _ hw => hw
  apply Triple.bind (D.ask (o := .mkdirParquet)
    (K := fun r w => F w ∧ ∀ e, r = .error e → e.isValueError = false) hF (fun _ => rfl)
    (fun w hw _ => ⟨hw, fun e h => by cases h⟩)
    (fun w e hw he => ⟨hw, fun e' h => by cases h; cases he; rfl⟩))
  swap
  · exact fun e w hw => hmild e _ (fun _ h => h.1) (hw.2.2.2 e rfl) w hw
  intro _
  apply Triple.bind (J := fun r => At libs c I p fun w => F w ∧
    ∃ n, r = .ok (libs.timestamp n, libs.uuid4Hex n) ∧ w.Drawn libs n)
  · exact (D.stamp_triple hF hQ).pre fun w hw => ⟨hw.1, hw.2.1, hw.2.2.1⟩
  swap
  · intro e w hw
    obtain ⟨-, -, -, n, h, -⟩ := hw
    cases h
  intro names
  apply Triple.pre (H := fun w => ∃ n, names = (libs.timestamp n, libs.uuid4Hex n) ∧
    At libs c I p (fun w => F w ∧ w.Drawn libs n) w)
  · intro w hw
    obtain ⟨hin, hI, hF, n, h, hd⟩ := hw
    exact ⟨n, Except.ok.inj h, hin, hI, hF, hd⟩
  apply Triple.exists_pre
  intro n
  apply Triple.assume
  rintro rfl
  dsimp only
  cases htable : fromPylist libs p.batch.rows with
  | error e =>
    apply Triple.bind (J := fun r w => ∃ e, r = .error e ∧ At libs c I p F w)
    · exact Triple.raise fun w hw => ⟨e, rfl, hw.1, hw.2.1, hw.2.2.1⟩
    · intro table
      exact fun _ w hw => by obtain ⟨_, h, -⟩ := hw; cases h
    · intro e w hw
      obtain ⟨_, -, hw⟩ := hw
      refine ⟨hw, fun _ hfits => ?_⟩
      rw [fromPylist_ok.mpr ⟨rfl, hfits⟩] at htable
      cases htable
  | ok table =>
    obtain ⟨rfl, hfits⟩ := fromPylist_ok.mp htable
    apply Triple.bind (J := fun r w => ∃ table, r = .ok table ∧ table = p.batch.rows ∧
      At libs c I p (fun w => F w ∧ w.Drawn libs n) w)
    · exact Triple.ret fun w hw => ⟨_, rfl, rfl, hw⟩
    swap
    · intro e w hw
      obtain ⟨_, h, -⟩ := hw
      cases h
    intro table
    apply Triple.pre (H := fun w => table = p.batch.rows ∧
      At libs c I p (fun w => F w ∧ w.Drawn libs n) w)
    · intro w hw
      obtain ⟨_, h, h', hw⟩ := hw
      obtain rfl := Except.ok.inj h
      exact ⟨h', hw⟩
    apply Triple.assume
    rintro rfl
    apply Triple.bind (D.writeTable_triple hlibs hF hQ p.batch.rows (spansTempPath_mem n))
    swap
    · exact fun e w hw => hmild e _ (fun _ h => h.1.1) (hw.2.2.2.1 e rfl) w hw
    intro _
    apply Triple.bind (J := fun r => At libs c I p fun w => (F w ∧ w.Drawn libs n) ∧
      (∀ e, r = .error e → e.isValueError = false) ∧
      (r = .ok () → w.parquetDir.lookup (spansFilename (libs.timestamp n) (libs.uuid4Hex n)) =
        some ⟨p.batch.rows, true⟩ ∧
        spansFilename (libs.timestamp n) (libs.uuid4Hex n) ∈ w.history.renamed))
    · apply (D.replace_triple hlibs hF hQ (spansTempPath_mem n) (spansFilename_mem n)).pre
      exact fun w hw => ⟨hw.1, hw.2.1, hw.2.2.1, hw.2.2.2.2 rfl⟩
    swap
    · exact fun e w hw => hmild e _ (fun _ h => h.1.1) (hw.2.2.2.1 e rfl) w hw
    intro _
    apply Triple.bind (J := fun r w => match r with
      | .ok _ => At libs c I ⟨{}, p.total + p.batch.rows.length⟩ K w
      | .error e => At libs c I p F w ∧
          (e.isValueError = true → ¬∀ row ∈ p.batch.rows, row.fitsSchema = true))
    swap
    · exact fun _ => Triple.ret fun w hw => ⟨hfits, hw⟩
    swap
    · exact fun _ _ hw => hw
    apply Triple.pre (H := At libs c I p fun w => (F w ∧ w.Drawn libs n) ∧
      w.parquetDir.lookup (spansFilename (libs.timestamp n) (libs.uuid4Hex n)) =
        some ⟨p.batch.rows, true⟩ ∧
      spansFilename (libs.timestamp n) (libs.uuid4Hex n) ∈ w.history.renamed)
    · exact fun w hw => ⟨hw.1, hw.2.1, hw.2.2.1, hw.2.2.2.2 rfl⟩
    apply D.perform
    · intro w w' h hw
      obtain ⟨⟨hF', hd⟩, hl, hr⟩ := hw
      exact ⟨⟨hF w w' h hF', h.drawn hd⟩, by rw [h.kept _ (.inr hr)]; exact hl,
        by rw [h.history]; exact hr⟩
    · intro w r w' hw hallowed hexec
      obtain ⟨hin, hI, ⟨hF', hd⟩, hl, -⟩ := hw
      have hK := hcommit w (spansFilename (libs.timestamp n) (libs.uuid4Hex n)) hin hF'
      have hw' : w' = (w.exec libs settings (.commitBatch
          (spansFilename (libs.timestamp n) (libs.uuid4Hex n)) p.batch.rows.length
          (p.batch.entries.map fun (f, off, _) => (f, off, "")) p.batch.offsets)).2 := by rw [hexec]
      have hin' : Inside libs c w' := by
        subst hw'
        refine ⟨hin.held, hin.serial, hin.fresh.commit hlibs hd.1 (spansFilename_mem n)
          (not_tmp_parquet _) rfl rfl fun f hf => ?_⟩
        exact (AList.mem_insert _).mp hf
      obtain ⟨hG, hI'⟩ := D.flush w w' p _ hin hin' hI hne hfits ⟨n, spansFilename_mem n⟩
        (hd.2 _ (spansFilename_mem n)) hl hallowed hw'
      obtain ⟨rfl, -⟩ := Prod.mk.inj hexec
      exact ⟨hG, hin', hI', hw' ▸ hK⟩
    · intro w e hw he
      obtain rfl := Option.some.inj he
      exact ⟨⟨hw.1, hw.2.1, hw.2.2.1.1⟩, fun h => by cases h⟩

end Discipline

end Lrcp.Store
