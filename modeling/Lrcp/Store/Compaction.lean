import Lrcp.Store.Trial

namespace Lrcp.Store

open Lrcp.Wal Lrcp.Otlp Lrcp.Framework

namespace World

/-- The files that a compaction merges. -/
def toMerge (w : World) (maxFilesToMerge : Nat) : List String := w.present.take maxFilesToMerge

def mergedRows (w : World) (maxFilesToMerge : Nat) : List Row :=
  (w.toMerge maxFilesToMerge).flatMap w.rowsIn

end World

/-- There are files to merge, all of them can be read, and they have rows. -/
structure Mergeable (w : World) (maxFilesToMerge : Nat) : Prop where
  several : 1 < w.present.length
  readable : ∀ f ∈ w.toMerge maxFilesToMerge,
    ∃ file, w.parquetDir.lookup f = some file ∧ file.footer = true
  rows : w.mergedRows maxFilesToMerge ≠ []

/-- Nothing that a query sees differs from `w₀`. -/
structure Steady (libs : Libs) (w₀ w : World) : Prop where
  files : w.control.parquetFiles = w₀.control.parquetFiles
  committed : ∀ f, w₀.isCommitted f = true → w.parquetDir.lookup f = w₀.parquetDir.lookup f
  fresh : Fresh libs w

/-- The manifest has the merged file in place of those merged. -/
structure Swapped (libs : Libs) (w₀ : World) (merged : List String) (name : String)
    (file : ParquetFile) (recordCount : Nat) (w : World) : Prop where
  new : name ∉ w₀.control.parquetFiles
  files : w.control.parquetFiles = (w₀.control.commitCompaction name recordCount merged).parquetFiles
  stored : w.parquetDir.lookup name = some file
  kept : ∀ f, w₀.isCommitted f = true → f ∉ merged →
    w.parquetDir.lookup f = w₀.parquetDir.lookup f
  fresh : Fresh libs w

/-- The files have been merged into one, which is complete unless the close of its
writer has raised. -/
def Compacted (libs : Libs) (w₀ : World) (n : Nat) (s : Trial) : Prop :=
  Mergeable w₀ n ∧ ∃ name file,
    Swapped libs w₀ (w₀.toMerge n) name file (w₀.mergedRows n).length s.world ∧
    (¬s.closeRaised → file = ⟨w₀.mergedRows n, true⟩) ∧ (s.closeRaised → file.footer = false)

/-- What can be said at every moment of a compaction. -/
def Underway (libs : Libs) (w₀ : World) (n : Nat) (s : Trial) : Prop :=
  Steady libs w₀ s.world ∨ Compacted libs w₀ n s

/-- How a compaction ends. It leaves mergeable files as they are only with an
exception that is not due to the close of the writer. -/
def Concluded (libs : Libs) (w₀ : World) (n : Nat) (r : Except PyError Nat) (s : Trial) : Prop :=
  (Steady libs w₀ s.world ∧ (Mergeable w₀ n → ¬s.closeRaised ∧ ∃ e, r = .error e)) ∨
    (Compacted libs w₀ n s ∧ (∀ a, r = .ok a → a = (w₀.mergedRows n).length) ∧
      (s.raised = none → ∀ f ∈ w₀.toMerge n, f ∉ s.world.parquetDir))

section Steady

variable {libs : Libs} {settings : Settings} {w₀ w w' : World} {f name : String} {k n : Nat}

theorem Steady.refl (h : Fresh libs w) : Steady libs w w := ⟨rfl, fun _ _ => rfl, h⟩

theorem Steady.isCommitted (h : Steady libs w₀ w) (f : String) : w.isCommitted f = w₀.isCommitted f := by
  rw [World.isCommitted, h.files, World.isCommitted]

theorem Steady.committedNames (h : Steady libs w₀ w) : w.committedNames = w₀.committedNames := by
  have he : w.isCommitted = w₀.isCommitted := funext h.isCommitted
  rw [World.committedNames, h.files, he, World.committedNames]

theorem Steady.mem (h : Steady libs w₀ w) (hf : w₀.isCommitted f = true) :
    f ∈ w.parquetDir ↔ f ∈ w₀.parquetDir := by
  rw [← AList.lookup_isSome, h.committed f hf, AList.lookup_isSome]

theorem Steady.of_eq (h : Steady libs w₀ w) (hs : w.stamps ≤ w'.stamps)
    (hdir : w'.parquetDir = w.parquetDir)
    (hfiles : w'.control.parquetFiles = w.control.parquetFiles) : Steady libs w₀ w' where
  files := hfiles.trans h.files
  committed f hf := by
    rw [hdir]
    exact h.committed f hf
  fresh := h.fresh.of_eq hs (fun _ hf => by rw [← hdir]; exact hf) hfiles

theorem Steady.insert (hlibs : FreshNames libs) (h : Steady libs w₀ w) (hd : w.Drawn libs k)
    (hname : name ∈ generated libs k) (file : ParquetFile) :
    Steady libs w₀ { w with parquetDir := w.parquetDir.insert name file } where
  files := h.files
  committed f hf := by
    have hne : f ≠ name := by
      rintro rfl
      apply hd.2 f hname
      rw [h.files]
      exact isCommitted_mem hf
    rw [AList.lookup_insert_ne hne]
    exact h.committed f hf
  fresh := h.fresh.insert hlibs hd.1 hname file

theorem Steady.erase (h : Steady libs w₀ w) (hf : w₀.isCommitted f = false) :
    Steady libs w₀ { w with parquetDir := w.parquetDir.erase f } where
  files := h.files
  committed g hg := by
    have hne : g ≠ f := by
      rintro rfl
      rw [hf] at hg
      cases hg
    rw [AList.lookup_erase_ne hne]
    exact h.committed g hg
  fresh := h.fresh.erase f

theorem Steady.not_committed (h : Steady libs w₀ w) (hd : w.Drawn libs k)
    (hname : name ∈ generated libs k) : w₀.isCommitted name = false := by
  cases hcommitted : w₀.isCommitted name with
  | false => rfl
  | true =>
    have hmem := isCommitted_mem hcommitted
    rw [← h.files] at hmem
    exact absurd hmem (hd.2 name hname)

end Steady

/-- Inside the lock, and nothing has raised. -/
def Stage (libs : Libs) (w₀ : World) (K : World → Prop) (s : Trial) : Prop :=
  Steady libs w₀ s.world ∧ s.raised = none ∧ K s.world

/-- Inside the lock, on the way out with an exception. If there was something to
merge, it is due to an operation that has raised. -/
def Off (libs : Libs) (w₀ : World) (n : Nat) (K : World → Prop) (s : Trial) : Prop :=
  Steady libs w₀ s.world ∧ (Mergeable w₀ n → s.raised ≠ none ∧ ¬s.closeRaised) ∧ K s.world

/-- What an operation before the commit leads to. -/
def Staged (libs : Libs) (w₀ : World) (n : Nat) {α : Type} (L : α → World → Prop)
    (H : World → Prop) : Except PyError α → Trial → Prop
  | .ok a => Stage libs w₀ (L a)
  | .error _ => Off libs w₀ n H

section Stage

variable {libs : Libs} {settings : Settings} {w₀ : World} {n : Nat} {α : Type} {o : Op α}
  {K : World → Prop} {L : α → World → Prop} {H : World → Prop}

theorem Off.concluded {s : Trial} (h : Off libs w₀ n K s) (e : PyError) :
    Concluded libs w₀ n (.error e) s :=
  .inl ⟨h.1, fun hm => ⟨(h.2.1 hm).2, e, rfl⟩⟩

theorem Staged.concluded {s : Trial} {e : PyError} (h : Staged libs w₀ n L H (.error e) s) :
    Concluded libs w₀ n (.error e) s := Off.concluded (K := H) h e

/-- One operation of a compaction before the commit. -/
theorem stage_triple (hclose : o.isCloseWriter = false)
    (hok : ∀ w r w', Steady libs w₀ w → K w → World.exec libs settings o w = (r, w') →
      Steady libs w₀ w' ∧ match r with
        | .ok a => L a w'
        | .error _ => ¬Mergeable w₀ n ∧ H w')
    (hremains : ∀ w w', Steady libs w₀ w → K w → Remains w o w' → Steady libs w₀ w' ∧ H w') :
    Triple (trial libs settings) Eq (fun _ s' => Underway libs w₀ n s') (Stage libs w₀ K)
      (Prog.perform o) (Staged libs w₀ n L H) := by
  apply trial_perform
  · intro s r w' hs hexec
    obtain ⟨hsteady, hnone, hK⟩ := hs
    obtain ⟨hsteady', hr⟩ := hok s.world r w' hsteady hK hexec
    refine ⟨.inl hsteady', ?_⟩
    cases r with
    | ok a => exact ⟨hsteady', hnone, hr⟩
    | error e => exact ⟨hsteady', fun hm => absurd hm hr.1, hr.2⟩
  · intro s e w' hs _ _ hw'
    obtain ⟨hsteady, -, hK⟩ := hs
    obtain ⟨hsteady', hH⟩ := hremains s.world w' hsteady hK hw'
    refine ⟨.inl hsteady', hsteady', fun _ => ⟨?_, not_closeRaised hclose w'⟩, hH⟩
    exact Option.some_ne_none _

/-- An operation without effect before the commit. -/
theorem stage_ask (hwriter : o.writer = none) (hclose : o.isCloseWriter = false)
    (hsame : ∀ w, (World.exec libs settings o w).2 = w)
    (hok : ∀ w, Steady libs w₀ w → K w → match (World.exec libs settings o w).1 with
      | .ok a => L a w
      | .error _ => ¬Mergeable w₀ n) :
    Triple (trial libs settings) Eq (fun _ s' => Underway libs w₀ n s') (Stage libs w₀ K)
      (Prog.perform o) (Staged libs w₀ n L K) := by
  apply stage_triple hclose
  · intro w r w' hsteady hK hexec
    have hr := hok w hsteady hK
    have hw := hsame w
    rw [hexec] at hr hw
    obtain rfl : w' = w := hw
    refine ⟨hsteady, ?_⟩
    cases r with
    | ok a => exact hr
    | error e => exact ⟨hr, hK⟩
  · intro w w' hsteady hK hw'
    obtain rfl := hw'.eq hwriter
    exact ⟨hsteady, hK⟩

/-- One operation on the way out. -/
theorem off_triple
    (hok : ∀ w r w', Steady libs w₀ w → K w → World.exec libs settings o w = (r, w') →
      Steady libs w₀ w' ∧ K w')
    (hremains : ∀ w w', Steady libs w₀ w → K w → Remains w o w' → Steady libs w₀ w' ∧ K w') :
    Triple (trial libs settings) Eq (fun _ s' => Underway libs w₀ n s') (Off libs w₀ n K)
      (Prog.perform o) fun _ => Off libs w₀ n K := by
  apply trial_perform
  · intro s r w' hs hexec
    obtain ⟨hsteady, hoff, hK⟩ := hs
    obtain ⟨hsteady', hK'⟩ := hok s.world r w' hsteady hK hexec
    exact ⟨.inl hsteady', hsteady', hoff, hK'⟩
  · intro s e w' hs hnone _ hw'
    obtain ⟨hsteady, hoff, hK⟩ := hs
    obtain ⟨hsteady', hK'⟩ := hremains s.world w' hsteady hK hw'
    exact ⟨.inl hsteady', hsteady', fun hm => absurd hnone (hoff hm).1, hK'⟩

end Stage

/-- The temporary file has been opened, and these rows have been written to it. -/
def Writing (libs : Libs) (k : Nat) (rows : List Row) (w : World) : Prop :=
  w.Drawn libs k ∧ w.parquetDir.lookup (compactedTempPath (libs.timestamp k) (libs.uuid4Hex k)) =
    some ⟨rows, false⟩

section Merging

variable {libs : Libs} {settings : Settings} {w₀ w w' : World} {n k : Nat} {f : String}
  {rows batch : List Row}

theorem mem_present : f ∈ w.present ↔ w.isCommitted f = true ∧ f ∈ w.parquetDir := by
  unfold World.present sortNames
  rw [List.mem_filter, (List.perm_insertionSort _ _).mem_iff, mem_committedNames]
  simp

theorem nodup_present : w.present.Nodup :=
  ((List.perm_insertionSort _ _).nodup_iff.mpr (w.control.parquetFiles.nodupKeys.filter _)).filter _

theorem mem_toMerge (hf : f ∈ w.toMerge n) : w.isCommitted f = true ∧ f ∈ w.parquetDir :=
  mem_present.mp (List.mem_of_mem_take hf)

/-- What a writer leaves when it raises is a temporary file. -/
theorem steady_remains (hlibs : FreshNames libs) {α : Type} {o : Op α}
    (ho : o.writer = some (compactedTempPath (libs.timestamp k) (libs.uuid4Hex k)))
    (h : Steady libs w₀ w) (hd : w.Drawn libs k) (hw' : Remains w o w') :
    Steady libs w₀ w' ∧ w'.Drawn libs k := by
  rcases hw' with rfl | ⟨path, rows, hpath, rfl⟩
  · exact ⟨h, hd⟩
  · obtain rfl := Option.some.inj (ho.symm.trans hpath)
    exact ⟨h.insert hlibs hd (Discipline.compactedTempPath_mem k) _, hd⟩

theorem iterBatches_stage {K : World → Prop} (hf : f ∈ w₀.toMerge n) :
    Triple (trial libs settings) Eq (fun _ s' => Underway libs w₀ n s') (Stage libs w₀ K)
      (Prog.perform (.iterBatches f))
      (Staged libs w₀ n (fun batches w => (∃ file, w₀.parquetDir.lookup f = some file ∧
        file.footer = true ∧ batches.flatten = file.rows) ∧ K w) K) := by
  apply stage_ask rfl rfl
  · intro w
    simp only [World.exec]
    split
    · rfl
    · split_ifs <;> rfl
  · intro w hsteady hK
    obtain ⟨hcommitted, hmem⟩ := mem_toMerge hf
    obtain ⟨file, hfile⟩ := Option.isSome_iff_exists.mp (AList.lookup_isSome.mpr hmem)
    have hl : w.parquetDir.lookup f = some file := (hsteady.committed f hcommitted).trans hfile
    simp only [World.exec, hl]
    by_cases hfooter : file.footer = true
    · rw [if_pos hfooter]
      exact ⟨⟨file, hfile, hfooter, flatten_toChunks _ _⟩, hK⟩
    · rw [if_neg hfooter]
      intro hm
      obtain ⟨file', hfile', hfooter'⟩ := hm.readable f hf
      obtain rfl := Option.some.inj (hfile.symm.trans hfile')
      exact hfooter hfooter'

theorem writeBatch_stage (hlibs : FreshNames libs) :
    Triple (trial libs settings) Eq (fun _ s' => Underway libs w₀ n s')
      (Stage libs w₀ (Writing libs k rows))
      (Prog.perform (.writeBatch (compactedTempPath (libs.timestamp k) (libs.uuid4Hex k)) batch))
      (Staged libs w₀ n (fun _ => Writing libs k (rows ++ batch)) fun w => w.Drawn libs k) := by
  apply stage_triple rfl
  · intro w r w' hsteady hw hexec
    obtain ⟨hd, hl⟩ := hw
    simp only [World.exec, hl] at hexec
    obtain ⟨rfl, rfl⟩ := Prod.mk.inj hexec
    exact ⟨hsteady.insert hlibs hd (Discipline.compactedTempPath_mem k) _, hd, AList.lookup_insert _⟩
  · exact fun w w' hsteady hw hw' => steady_remains hlibs rfl hsteady hw.1 hw'

/-- The rows of one file are written and counted. -/
theorem mergeFile_stage (hlibs : FreshNames libs) (hf : f ∈ w₀.toMerge n) :
    Triple (trial libs settings) Eq (fun _ s' => Underway libs w₀ n s')
      (Stage libs w₀ (Writing libs k rows))
      (mergeFile (compactedTempPath (libs.timestamp k) (libs.uuid4Hex k)) rows.length f)
      fun r s => match r with
        | .ok total => ∃ file, (w₀.parquetDir.lookup f = some file ∧ file.footer = true ∧
            total = (rows ++ file.rows).length) ∧
            Stage libs w₀ (Writing libs k (rows ++ file.rows)) s
        | .error _ => Off libs w₀ n (fun w => w.Drawn libs k) s := by
  unfold mergeFile
  apply Triple.bind (iterBatches_stage hf)
  swap
  · exact fun e s hs => ⟨hs.1, hs.2.1, hs.2.2.1⟩
  intro batches
  apply Triple.pre (H := fun s => ∃ file : ParquetFile, (w₀.parquetDir.lookup f = some file ∧
    file.footer = true ∧ batches.flatten = file.rows) ∧ Stage libs w₀ (Writing libs k rows) s)
  · intro s hs
    obtain ⟨hsteady, hnone, ⟨file, hfile⟩, hw⟩ := hs
    exact ⟨file, hfile, hsteady, hnone, hw⟩
  apply Triple.exists_pre
  intro file
  apply Triple.assume
  intro hfile
  apply (Triple.forEach (I := fun rest total s => ∃ written : List Row,
    (written ++ rest.flatten = file.rows ∧ total = (rows ++ written).length) ∧
    Stage libs w₀ (Writing libs k (rows ++ written)) s) ?_ ?_).pre
  · intro s hs
    refine ⟨[], ⟨hfile.2.2, by rw [List.append_nil]⟩, ?_⟩
    rw [List.append_nil]
    exact hs
  · intro batch rest total
    apply Triple.exists_pre
    intro written
    apply Triple.assume
    intro hwritten
    apply Triple.bind (writeBatch_stage hlibs)
    · intro _
      apply Triple.ret
      intro s hs
      refine ⟨written ++ batch, ⟨?_, ?_⟩, ?_⟩
      · rw [← hwritten.1, List.flatten_cons, List.append_assoc]
      · rw [hwritten.2, ← List.append_assoc]
        exact List.length_append.symm
      · rw [← List.append_assoc]
        exact hs
    · exact fun e s hs => hs
  · intro total s hs
    obtain ⟨written, ⟨hall, htotal⟩, hs⟩ := hs
    obtain rfl : written = file.rows := by simpa using hall
    exact ⟨file, ⟨hfile.1, hfile.2.1, htotal⟩, hs⟩

/-- All rows have been written, and the writer has been closed, or its close has raised. -/
def Closed (libs : Libs) (w₀ : World) (k : Nat) (rows : List Row) (s : Trial) : Prop :=
  Steady libs w₀ s.world ∧ s.world.Drawn libs k ∧ ∃ file,
    s.world.parquetDir.lookup (compactedTempPath (libs.timestamp k) (libs.uuid4Hex k)) = some file ∧
    ((s.raised = none ∧ file = ⟨rows, true⟩) ∨ (s.closeRaised ∧ file.footer = false))

theorem openWriter_stage (hlibs : FreshNames libs) :
    Triple (trial libs settings) Eq (fun _ s' => Underway libs w₀ n s')
      (Stage libs w₀ fun w => w.Drawn libs k)
      (Prog.perform (.openWriter (compactedTempPath (libs.timestamp k) (libs.uuid4Hex k))))
      (Staged libs w₀ n (fun _ => Writing libs k []) fun w => w.Drawn libs k) := by
  apply stage_triple rfl
  · intro w r w' hsteady hd hexec
    obtain ⟨rfl, rfl⟩ := Prod.mk.inj hexec
    exact ⟨hsteady.insert hlibs hd (Discipline.compactedTempPath_mem k) _, hd, AList.lookup_insert _⟩
  · exact fun w w' hsteady hd hw' => steady_remains hlibs rfl hsteady hd hw'

theorem closeWriter_stage (hlibs : FreshNames libs) :
    Triple (trial libs settings) Eq (fun _ s' => Underway libs w₀ n s')
      (Stage libs w₀ (Writing libs k rows))
      (Prog.perform (.closeWriter (compactedTempPath (libs.timestamp k) (libs.uuid4Hex k))))
      fun _ => Closed libs w₀ k rows := by
  apply trial_perform
  · intro s r w' hs hexec
    obtain ⟨hsteady, hnone, hd, hl⟩ := hs
    simp only [World.exec, hl] at hexec
    obtain ⟨-, rfl⟩ := Prod.mk.inj hexec
    have hsteady' := hsteady.insert hlibs hd (Discipline.compactedTempPath_mem k) ⟨rows, true⟩
    exact ⟨.inl hsteady', hsteady', hd, _, AList.lookup_insert _, .inl ⟨hnone, rfl⟩⟩
  · intro s e w' hs hnone _ hw'
    obtain ⟨hsteady, -, hd, hl⟩ := hs
    obtain ⟨hsteady', hd'⟩ := steady_remains hlibs rfl hsteady hd hw'
    refine ⟨.inl hsteady', hsteady', hd', ?_⟩
    rcases hw' with rfl | ⟨path, rows', hpath, rfl⟩
    · exact ⟨_, hl, .inr ⟨rfl, rfl⟩⟩
    · obtain rfl := Option.some.inj hpath
      exact ⟨_, AList.lookup_insert _, .inr ⟨rfl, rfl⟩⟩

theorem closeWriter_off (hlibs : FreshNames libs) :
    Triple (trial libs settings) Eq (fun _ s' => Underway libs w₀ n s')
      (Off libs w₀ n fun w => w.Drawn libs k)
      (Prog.perform (.closeWriter (compactedTempPath (libs.timestamp k) (libs.uuid4Hex k))))
      fun _ => Off libs w₀ n fun w => w.Drawn libs k := by
  apply off_triple
  · intro w r w' hsteady hd hexec
    simp only [World.exec] at hexec
    split at hexec
    · obtain ⟨-, rfl⟩ := Prod.mk.inj hexec
      exact ⟨hsteady, hd⟩
    · obtain ⟨-, rfl⟩ := Prod.mk.inj hexec
      exact ⟨hsteady.insert hlibs hd (Discipline.compactedTempPath_mem k) _, hd⟩
  · exact fun w w' hsteady hd hw' => steady_remains hlibs rfl hsteady hd hw'

/-- The temporary file is removed. -/
theorem unlinkTemp_off :
    Triple (trial libs settings) Eq (fun _ s' => Underway libs w₀ n s')
      (Off libs w₀ n fun w => w.Drawn libs k)
      (Prog.perform (.unlinkParquet (compactedTempPath (libs.timestamp k) (libs.uuid4Hex k))))
      fun _ => Off libs w₀ n fun w => w.Drawn libs k := by
  apply off_triple
  · intro w r w' hsteady hd hexec
    obtain ⟨-, rfl⟩ := Prod.mk.inj hexec
    exact ⟨hsteady.erase (hsteady.not_committed hd (Discipline.compactedTempPath_mem k)), hd⟩
  · intro w w' hsteady hd hw'
    obtain rfl := hw'.eq rfl
    exact ⟨hsteady, hd⟩

/-- The handler of `compact_parquet_files`. -/
theorem unlinkRaise_off {α : Type} (error : PyError) :
    Triple (trial libs settings) Eq (fun _ s' => Underway libs w₀ n s')
      (Off libs w₀ n fun w => w.Drawn libs k)
      (do
        Prog.perform (.unlinkParquet (compactedTempPath (libs.timestamp k) (libs.uuid4Hex k)))
        (.raise error : Call α))
      fun r s => match r with
        | .ok _ => False
        | .error _ => Off libs w₀ n (fun w => w.Drawn libs k) s :=
  Triple.bind unlinkTemp_off (fun _ => Triple.raise fun _ hs => hs) fun _ _ hs => hs

/-- The merged file holds the rows of all files, or it is removed with an exception. -/
theorem writeMerged_stage (hlibs : FreshNames libs) :
    Triple (trial libs settings) Eq (fun _ s' => Underway libs w₀ n s')
      (Stage libs w₀ fun w => w.Drawn libs k)
      (writeMerged (compactedTempPath (libs.timestamp k) (libs.uuid4Hex k)) (w₀.toMerge n))
      fun r s => match r with
        | .ok total => ((∀ f ∈ w₀.toMerge n, ∃ file, w₀.parquetDir.lookup f = some file ∧
            file.footer = true) ∧ total = (w₀.mergedRows n).length) ∧
            Closed libs w₀ k (w₀.mergedRows n) s
        | .error _ => Off libs w₀ n (fun w => w.Drawn libs k) s := by
  unfold writeMerged
  apply Triple.tryThen (openWriter_stage hlibs)
  intro opened
  cases opened with
  | error e =>
    apply (unlinkRaise_off e).post
    intro r s hs
    cases r with
    | ok total => exact hs.elim
    | error e => exact hs
  | ok u =>
    apply Triple.tryThen (J := fun r s => match r with
      | .ok total => ((∀ f ∈ w₀.toMerge n, ∃ file, w₀.parquetDir.lookup f = some file ∧
          file.footer = true) ∧ total = (w₀.mergedRows n).length) ∧
          Stage libs w₀ (Writing libs k (w₀.mergedRows n)) s
      | .error _ => Off libs w₀ n (fun w => w.Drawn libs k) s)
    · apply (Triple.forEach (I := fun rest total s => ∃ merged,
        (merged ++ rest = w₀.toMerge n ∧ (∀ f ∈ merged, ∃ file, w₀.parquetDir.lookup f = some file ∧
          file.footer = true) ∧ total = (merged.flatMap w₀.rowsIn).length) ∧
        Stage libs w₀ (Writing libs k (merged.flatMap w₀.rowsIn)) s) ?_ ?_).pre
      · exact fun s hs => ⟨[], ⟨rfl, fun f hf => (by cases hf), rfl⟩, hs⟩
      · intro f rest total
        apply Triple.exists_pre
        intro merged
        apply Triple.assume
        intro hmerged
        obtain ⟨hsplit, hread, rfl⟩ := hmerged
        have hf : f ∈ w₀.toMerge n := by
          rw [← hsplit]
          simp
        apply (mergeFile_stage hlibs hf).post
        intro r s hs
        cases r with
        | error e => exact hs
        | ok total' =>
          obtain ⟨file, ⟨hfile, hfooter, htotal⟩, hs⟩ := hs
          have hrows : (merged ++ [f]).flatMap w₀.rowsIn = merged.flatMap w₀.rowsIn ++ file.rows := by
            rw [List.flatMap_append, List.flatMap_singleton, World.rowsIn, hfile]
            rfl
          refine ⟨merged ++ [f], ⟨by rw [← hsplit]; simp, fun g hg => ?_, ?_⟩, ?_⟩
          · rcases List.mem_append.mp hg with hg | hg
            · exact hread g hg
            · obtain rfl := List.mem_singleton.mp hg
              exact ⟨file, hfile, hfooter⟩
          · rw [hrows, htotal]
          · rw [hrows]
            exact hs
      · intro total s hs
        obtain ⟨merged, ⟨hall, hread, htotal⟩, hs⟩ := hs
        obtain rfl : merged = w₀.toMerge n := by simpa using hall
        exact ⟨⟨hread, htotal⟩, hs⟩
    intro merged
    cases merged with
    | error e =>
      apply Triple.bind (J := fun _ => Off libs w₀ n fun w => w.Drawn libs k)
      · exact Triple.suppress (closeWriter_off hlibs) fun _ _ hs => hs
      · intro _
        apply (unlinkRaise_off e).post
        intro r s hs
        cases r with
        | ok total => exact hs.elim
        | error e => exact hs
      · exact fun e s hs => hs
    | ok total =>
      apply Triple.assume
      intro hmerged
      apply Triple.bind (J := fun r s => r = .ok () ∧ Closed libs w₀ k (w₀.mergedRows n) s)
      · exact Triple.suppress (closeWriter_stage hlibs) fun _ _ hs => ⟨rfl, hs⟩
      · exact fun _ => Triple.ret fun s hs => ⟨hmerged, hs.2⟩
      · intro e s hs
        cases hs.1

/-- The merged file is in its place and not yet committed. -/
def Renamed (libs : Libs) (w₀ : World) (k : Nat) (rows : List Row) (s : Trial) : Prop :=
  Steady libs w₀ s.world ∧ s.world.Drawn libs k ∧ ∃ file,
    s.world.parquetDir.lookup (compactedFilename (libs.timestamp k) (libs.uuid4Hex k)) = some file ∧
    ((s.raised = none ∧ file = ⟨rows, true⟩) ∨ (s.closeRaised ∧ file.footer = false))

/-- An exception before the commit that is not due to the close of the writer. -/
theorem concluded_raise {α : Type} {o : Op α} {e : PyError} (hsteady : Steady libs w₀ w)
    (hclose : o.isCloseWriter = false) : Concluded libs w₀ n (.error e) ⟨w, some ⟨α, o⟩⟩ :=
  .inl ⟨hsteady, fun _ => ⟨not_closeRaised hclose w, e, rfl⟩⟩

theorem replace_stage (hlibs : FreshNames libs) :
    Triple (trial libs settings) Eq (fun _ s' => Underway libs w₀ n s') (Closed libs w₀ k rows)
      (Prog.perform (.replace (compactedTempPath (libs.timestamp k) (libs.uuid4Hex k))
        (compactedFilename (libs.timestamp k) (libs.uuid4Hex k))))
      fun r s => match r with
        | .ok _ => Renamed libs w₀ k rows s
        | .error e => Concluded libs w₀ n (.error e) s := by
  apply trial_perform
  · intro s r w' hs hexec
    obtain ⟨hsteady, hd, file, hl, hfile⟩ := hs
    simp only [World.exec, hl] at hexec
    obtain ⟨rfl, rfl⟩ := Prod.mk.inj hexec
    have herase := hsteady.erase (hsteady.not_committed hd (Discipline.compactedTempPath_mem k))
    have hinsert := herase.insert hlibs hd (Discipline.compactedFilename_mem k) file
    refine ⟨.inl (hinsert.of_eq (Nat.le_refl _) rfl rfl), hinsert.of_eq (Nat.le_refl _) rfl rfl, hd,
      file, AList.lookup_insert _, hfile⟩
  · intro s e w' hs _ _ hw'
    obtain rfl := hw'.eq rfl
    exact ⟨.inl hs.1, concluded_raise hs.1 rfl⟩

/-- The transaction that swaps the merged files for the new one. -/
theorem commitCompaction_stage (hlibs : FreshNames libs) (hm : Mergeable w₀ n) :
    Triple (trial libs settings) Eq (fun _ s' => Underway libs w₀ n s')
      (Renamed libs w₀ k (w₀.mergedRows n))
      (Prog.perform (.commitCompaction (compactedFilename (libs.timestamp k) (libs.uuid4Hex k))
        (w₀.mergedRows n).length (w₀.toMerge n)))
      fun r s => match r with
        | .ok _ => Compacted libs w₀ n s
        | .error e => Concluded libs w₀ n (.error e) s := by
  apply trial_perform
  · intro s r w' hs hexec
    obtain ⟨hsteady, hd, file, hl, hfile⟩ := hs
    have hname := hd.2 _ (Discipline.compactedFilename_mem k)
    have hw' : w' = (s.world.exec libs settings (.commitCompaction
        (compactedFilename (libs.timestamp k) (libs.uuid4Hex k)) (w₀.mergedRows n).length
        (w₀.toMerge n))).2 := (congrArg Prod.snd hexec).symm
    have hfresh : Fresh libs w' := by
      apply hsteady.fresh.commit hlibs hd.1 (Discipline.compactedFilename_mem k) (not_tmp_parquet _)
      · rw [hw']
        simp only [World.exec, if_neg hname]
      · rw [hw']
        simp only [World.exec, if_neg hname]
      · intro f hf
        rw [hw'] at hf
        exact (mem_commitCompaction hname _).mp hf
    simp only [World.exec, if_neg hname] at hexec hw'
    obtain ⟨rfl, -⟩ := Prod.mk.inj hexec
    have hswapped : Swapped libs w₀ (w₀.toMerge n)
        (compactedFilename (libs.timestamp k) (libs.uuid4Hex k)) file (w₀.mergedRows n).length w' := by
      refine ⟨?_, ?_, ?_, fun f hf _ => ?_, hfresh⟩
      · rw [← hsteady.files]
        exact hname
      · rw [hw']
        unfold ControlStore.commitCompaction
        rw [hsteady.files]
      · rw [hw']
        exact hl
      · rw [hw']
        exact hsteady.committed f hf
    have hcompacted : Compacted libs w₀ n ⟨w', s.raised⟩ := by
      refine ⟨hm, _, file, hswapped, fun hclose => ?_, fun hclose => ?_⟩
      · rcases hfile with hfile | hfile
        · exact hfile.2
        · exact absurd hfile.1 hclose
      · rcases hfile with hfile | hfile
        · rw [Trial.closeRaised, hfile.1] at hclose
          cases hclose
        · exact hfile.2
    exact ⟨.inr hcompacted, hcompacted⟩
  · intro s e w' hs _ _ hw'
    obtain rfl := hw'.eq rfl
    exact ⟨.inl hs.1, concluded_raise hs.1 rfl⟩

theorem Compacted.erase {s : Trial} (h : Compacted libs w₀ n s) (hf : f ∈ w₀.toMerge n) :
    Compacted libs w₀ n ⟨{ s.world with parquetDir := s.world.parquetDir.erase f }, s.raised⟩ := by
  obtain ⟨hm, name, file, hswapped, hfile⟩ := h
  have hname : name ≠ f := fun e => hswapped.new (e ▸ isCommitted_mem (mem_toMerge hf).1)
  refine ⟨hm, name, file, ⟨hswapped.new, hswapped.files, ?_, fun g hg hmerged => ?_,
    hswapped.fresh.erase f⟩, hfile⟩
  · rw [AList.lookup_erase_ne hname]
    exact hswapped.stored
  · have hne : g ≠ f := fun e => hmerged (e ▸ hf)
    rw [AList.lookup_erase_ne hne]
    exact hswapped.kept g hg hmerged

/-- The merged files are removed, whether or not one of them cannot be. -/
theorem unlinkEach_compacted {deletedCount total : Nat} (htotal : total = (w₀.mergedRows n).length) :
    Triple (trial libs settings) Eq (fun _ s' => Underway libs w₀ n s') (Compacted libs w₀ n)
      (do
        let _ ← unlinkEach (w₀.toMerge n) deletedCount
        .ret total)
      (Concluded libs w₀ n) := by
  unfold unlinkEach
  apply Triple.bind (J := fun r s => Compacted libs w₀ n s ∧
    (s.raised = none → ∀ f ∈ w₀.toMerge n, f ∉ s.world.parquetDir))
  · apply (Triple.forEach (I := fun rest _ s => (∀ f ∈ rest, f ∈ w₀.toMerge n) ∧
      Compacted libs w₀ n s ∧ (s.raised = none → ∀ f ∈ w₀.toMerge n, f ∈ rest ∨
        f ∉ s.world.parquetDir)) ?_ ?_).pre
    · exact fun s hs => ⟨fun f hf => hf, hs, fun _ f hf => .inl hf⟩
    · intro f rest deletedCount
      apply Triple.assume
      intro hrest
      apply Triple.tryThen (J := fun r s => (Compacted libs w₀ n s ∧
        (s.raised = none → ∀ f ∈ w₀.toMerge n, f ∈ rest ∨ f ∉ s.world.parquetDir)) ∧
        ((∃ e, r = .error e) → s.raised ≠ none))
      · apply trial_perform
        · intro s r w' hs hexec
          obtain ⟨rfl, rfl⟩ := Prod.mk.inj hexec
          have hcompacted := hs.1.erase (hrest f (by simp))
          refine ⟨.inr hcompacted, ⟨hcompacted, fun hnone g hg => ?_⟩, fun h => ?_⟩
          · by_cases hgf : g = f
            · subst hgf
              exact .inr fun hmem => (AList.mem_erase.mp hmem).1 rfl
            · rcases hs.2 hnone g hg with hmem | hnot
              · exact .inl ((List.mem_cons.mp hmem).resolve_left hgf)
              · exact .inr fun hmem => hnot (AList.mem_erase.mp hmem).2
          · obtain ⟨e, h⟩ := h
            cases h
        · intro s e w' hs hnone _ hw'
          obtain rfl := hw'.eq rfl
          obtain ⟨⟨hm, name, file, hswapped, hfile, -⟩, -⟩ := hs
          have hnot := @not_closeRaised _ (Op.unlinkParquet f) rfl s.world
          have hbefore : ¬s.closeRaised := by simp [Trial.closeRaised, hnone]
          have hcompacted : Compacted libs w₀ n ⟨s.world, some ⟨Unit, .unlinkParquet f⟩⟩ :=
            ⟨hm, name, file, hswapped, fun _ => hfile hbefore, fun h => absurd h hnot⟩
          exact ⟨.inr hcompacted, ⟨hcompacted, fun h => by cases h⟩, fun _ h => by cases h⟩
      intro result
      have hnext : ∀ g ∈ rest, g ∈ w₀.toMerge n := fun g hg => hrest g (by simp [hg])
      split
      · exact Triple.ret fun s hs => ⟨hnext, hs.1⟩
      · exact Triple.ret fun s hs => ⟨hnext, hs.1⟩
      · exact Triple.raise fun s hs => ⟨hs.1.1, fun hnone => absurd hnone (hs.2 ⟨_, rfl⟩)⟩
    · intro _ s hs
      obtain ⟨-, hcompacted, hgone⟩ := hs
      refine ⟨hcompacted, fun hnone f hf => ?_⟩
      rcases hgone hnone f hf with h | h
      · cases h
      · exact h
  · exact fun _ => Triple.ret fun s hs =>
      .inr ⟨hs.1, fun a h => (Except.ok.inj h).symm.trans htotal, hs.2⟩
  · exact fun e s hs => .inr ⟨hs.1, fun a h => (by cases h), hs.2⟩

theorem existsParquet_stage (hf : w₀.isCommitted f = true) :
    Triple (trial libs settings) Eq (fun _ s' => Underway libs w₀ n s') (Stage libs w₀ fun _ => True)
      (Prog.perform (.existsParquet f))
      (Staged libs w₀ n (fun b _ => b = decide (f ∈ w₀.parquetDir)) fun _ => True) := by
  apply stage_ask rfl rfl fun _ => rfl
  intro w hsteady _
  exact decide_eq_decide.mpr (hsteady.mem hf)

/-- The files that a compaction chooses from. -/
theorem selectPresent_stage {p : List String → Call Nat}
    (hp : Triple (trial libs settings) Eq (fun _ s' => Underway libs w₀ n s')
      (Stage libs w₀ fun _ => True) (p w₀.present) (Concluded libs w₀ n)) :
    Triple (trial libs settings) Eq (fun _ s' => Underway libs w₀ n s') (Stage libs w₀ fun _ => True)
      (do
        let committedFilenames ← Prog.perform .selectCommittedOrdered
        let validFiles ← Prog.filterBy (fun file => Prog.perform (.existsParquet file))
          committedFilenames
        p validFiles)
      (Concluded libs w₀ n) := by
  apply Triple.bind (J := Staged libs w₀ n (fun names _ => names = sortNames w₀.committedNames)
    fun _ => True)
  · apply stage_ask rfl rfl fun _ => rfl
    intro w hsteady _
    exact congrArg sortNames hsteady.committedNames
  swap
  · exact fun e s hs => hs.concluded
  intro names
  apply Triple.pre (H := fun s => names = sortNames w₀.committedNames ∧
    Stage libs w₀ (fun _ => True) s)
  · exact fun s hs => ⟨hs.2.2, hs.1, hs.2.1, trivial⟩
  apply Triple.assume
  intro hnames
  subst hnames
  apply Triple.bind (J := Staged libs w₀ n (fun files _ => files = w₀.present) fun _ => True)
  · apply Triple.filterBy_eq
    · intro f hf
      have hcommitted := mem_committedNames.mp ((List.perm_insertionSort _ _).mem_iff.mp hf)
      apply (existsParquet_stage hcommitted).post
      intro r s hs
      cases r with
      | ok b => exact ⟨hs.2.2, hs.1, hs.2.1, trivial⟩
      | error e => exact hs
    · exact fun s hs => ⟨hs.1, hs.2.1, rfl⟩
  · intro files
    apply Triple.pre (H := fun s => files = w₀.present ∧ Stage libs w₀ (fun _ => True) s)
    · exact fun s hs => ⟨hs.2.2, hs.1, hs.2.1, trivial⟩
    apply Triple.assume
    intro hfiles
    subst hfiles
    exact hp
  · exact fun e s hs => hs.concluded

theorem stamp_stage :
    Triple (trial libs settings) Eq (fun _ s' => Underway libs w₀ n s') (Stage libs w₀ fun _ => True)
      (Prog.perform .stamp)
      (Staged libs w₀ n (fun names w => ∃ k, names = (libs.timestamp k, libs.uuid4Hex k) ∧
        w.Drawn libs k) fun _ => True) := by
  apply stage_triple rfl
  · intro w r w' hsteady _ hexec
    obtain ⟨rfl, rfl⟩ := Prod.mk.inj hexec
    refine ⟨hsteady.of_eq (Nat.le_succ _) rfl rfl, w.stamps, rfl, Nat.lt_succ_self _, fun f hf => ?_⟩
    exact (hsteady.fresh.unused _ (Nat.le_refl _) f hf).2
  · intro w w' hsteady _ hw'
    obtain rfl := hw'.eq rfl
    exact ⟨hsteady, trivial⟩

/-- Nothing to merge: the empty file is removed. -/
theorem unlinkEmpty_stage (hrows : w₀.mergedRows n = []) :
    Triple (trial libs settings) Eq (fun _ s' => Underway libs w₀ n s') (Closed libs w₀ k rows)
      (do
        Prog.perform (.unlinkParquet (compactedTempPath (libs.timestamp k) (libs.uuid4Hex k)))
        (.ret 0 : Call Nat))
      (Concluded libs w₀ n) := by
  have hnot : ¬Mergeable w₀ n := fun hm => hm.rows hrows
  apply Triple.bind (J := fun _ s => Steady libs w₀ s.world)
  · apply trial_perform
    · intro s r w' hs hexec
      obtain ⟨hsteady, hd, -⟩ := hs
      obtain ⟨-, rfl⟩ := Prod.mk.inj hexec
      have herase := hsteady.erase (hsteady.not_committed hd (Discipline.compactedTempPath_mem k))
      exact ⟨.inl herase, herase⟩
    · intro s e w' hs _ _ hw'
      obtain rfl := hw'.eq rfl
      exact ⟨.inl hs.1, hs.1⟩
  · exact fun _ => Triple.ret fun s hs => .inl ⟨hs, fun hm => absurd hm hnot⟩
  · exact fun e s hs => .inl ⟨hs, fun hm => absurd hm hnot⟩

/-- `compact_parquet_files` under the lock. -/
theorem compactCommitted_stage (hlibs : FreshNames libs) :
    Triple (trial libs settings) Eq (fun _ s' => Underway libs w₀ n s') (Stage libs w₀ fun _ => True)
      (compactCommitted n) (Concluded libs w₀ n) := by
  unfold compactCommitted
  apply Triple.bind (J := Staged libs w₀ n (fun _ _ => True) fun _ => True)
  · exact stage_ask rfl rfl (fun _ => rfl) fun _ _ _ => trivial
  swap
  · exact fun e s hs => hs.concluded
  intro _
  apply selectPresent_stage
  apply Triple.cond
  · intro hfew
    apply Triple.ret
    intro s hs
    exact .inl ⟨hs.1, fun hm => absurd hm.several (not_lt_of_ge hfew)⟩
  intro hseveral
  apply Triple.bind stamp_stage
  swap
  · exact fun e s hs => hs.concluded
  intro names
  apply Triple.pre (H := fun s => ∃ k, names = (libs.timestamp k, libs.uuid4Hex k) ∧
    Stage libs w₀ (fun w => w.Drawn libs k) s)
  · intro s hs
    obtain ⟨hsteady, hnone, k, hnames, hd⟩ := hs
    exact ⟨k, hnames, hsteady, hnone, hd⟩
  apply Triple.exists_pre
  intro k
  apply Triple.assume
  intro hnames
  subst hnames
  dsimp only
  apply Triple.bind (writeMerged_stage hlibs)
  swap
  · exact fun e s hs => Off.concluded hs e
  intro totalRows
  apply Triple.assume
  intro hmerged
  obtain ⟨hread, rfl⟩ := hmerged
  apply Triple.cond
  · exact fun hzero => unlinkEmpty_stage (List.length_eq_zero_iff.mp hzero)
  intro hrows
  have hm : Mergeable w₀ n := ⟨Nat.lt_of_not_le hseveral, hread, fun h => hrows (by rw [h]; rfl)⟩
  apply Triple.bind (replace_stage hlibs)
  swap
  · exact fun e s hs => hs
  intro _
  apply Triple.bind (commitCompaction_stage hlibs hm)
  · exact fun _ => unlinkEach_compacted rfl
  · exact fun e s hs => hs

end Merging

section Locked

variable {libs : Libs} {settings : Settings} {w₀ w w' : World} {n : Nat} {t : Thread}

theorem Steady.relocked (h : Steady libs w₀ w) (hw : Relocked w w') : Steady libs w₀ w' := by
  obtain ⟨e, m, l, renamed, rfl⟩ := hw
  exact h.of_eq (Nat.le_refl _) rfl rfl

theorem Compacted.locking {s s' : Trial} (h : Compacted libs w₀ n s) (hs : Locking s s') :
    Compacted libs w₀ n s' := by
  obtain ⟨hm, name, file, hswapped, hcomplete, htorn⟩ := h
  obtain ⟨hworld, hraised⟩ := hs
  have hclose : s'.closeRaised ↔ s.closeRaised := by
    rcases hraised with h | ⟨hnone, hnot⟩
    · rw [Trial.closeRaised, h, Trial.closeRaised]
    · refine iff_of_false hnot ?_
      simp [Trial.closeRaised, hnone]
  refine ⟨hm, name, file, ?_, fun h => hcomplete (fun h' => h (hclose.mpr h')),
    fun h => htorn (hclose.mp h)⟩
  obtain ⟨e, m, l, renamed, heq⟩ := hworld
  rw [heq]
  exact ⟨hswapped.new, hswapped.files, hswapped.stored, hswapped.kept,
    hswapped.fresh.of_eq (Nat.le_refl _) (fun _ h => h) rfl⟩

theorem concluded_unaffected : Unaffected (Underway libs w₀ n) (Stage libs w₀ fun _ => True)
    (Concluded libs w₀ n) where
  before s w' hs hw := ⟨hs.1.relocked hw, hs.2.1, trivial⟩
  fail s s' e hs hw := by
    refine .inl ⟨hs.1.relocked hw.world, fun _ => ⟨?_, e, rfl⟩⟩
    rcases hw.raised with h | h
    · simp [Trial.closeRaised, h, hs.2.1]
    · exact h.2
  after r s s' hs hw := by
    rcases hs with ⟨hsteady, hlost⟩ | ⟨hcompacted, htotal, hgone⟩
    · refine .inl ⟨hsteady.relocked hw.world, fun hm => ⟨?_, (hlost hm).2⟩⟩
      rcases hw.raised with h | h
      · rw [Trial.closeRaised, h]
        exact (hlost hm).1
      · exact h.2
    · refine .inr ⟨hcompacted.locking hw, htotal, fun hnone => ?_⟩
      have hbefore : s.raised = none := by
        rcases hw.raised with h | h
        · rw [← h, hnone]
        · exact h.1
      obtain ⟨e, m, l, renamed, heq⟩ := hw.world
      rw [heq]
      exact hgone hbefore
  replaced r e s hs := by
    rcases hs with ⟨hsteady, hlost⟩ | ⟨hcompacted, htotal, hgone⟩
    · exact .inl ⟨hsteady, fun hm => ⟨(hlost hm).1, e, rfl⟩⟩
    · exact .inr ⟨hcompacted, fun a h => (by cases h), hgone⟩
  inside s hs := .inl hs.1
  outside r s hs := hs.imp And.left And.left

/-- `compact_parquet_files`, of whose operations one at most raises. -/
theorem compactParquetFiles_trial (hlibs : FreshNames libs) :
    Triple (trial libs settings) Eq (fun _ s' => Underway libs w₀ n s') (Stage libs w₀ fun _ => True)
      (compactParquetFiles t n) (Concluded libs w₀ n) :=
  concluded_unaffected.lock_triple (compactCommitted_stage hlibs)

/-- A call that starts in `w`: what can be said at every moment, and at its end. -/
theorem compactParquetFiles_runs (hlibs : FreshNames libs) (hfresh : Fresh libs w) {q : Call Nat}
    {s : Trial} (hr : Prog.Runs (trial libs settings) (compactParquetFiles t n, ⟨w, none⟩) (q, s)) :
    Underway libs w n s ∧ ∀ r, q = .done r → Concluded libs w n r s :=
  (compactParquetFiles_trial hlibs).runs ⟨.refl hfresh, rfl, trivial⟩ (.inl (.refl hfresh)) hr

end Locked

end Lrcp.Store
