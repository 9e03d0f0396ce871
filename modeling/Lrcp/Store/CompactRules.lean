import Lrcp.Store.ParquetRules

namespace Lrcp.Store

open Lrcp.Wal Lrcp.Otlp Lrcp.Framework

section Chunks

variable {α : Type}

theorem flatten_toChunks_go (n : Nat) (xs : List α) (chunk : Array α) (chunks : Array (List α)) :
    (List.toChunks.go n xs chunk chunks).flatten = chunks.toList.flatten ++ chunk.toList ++ xs := by
  induction xs generalizing chunk chunks with
  | nil => simp [List.toChunks.go]
  | cons x xs ih =>
    unfold List.toChunks.go
    split
    · rw [ih]
      simp
    · rw [ih]
      simp

/-- The batches that a file is read in are its rows in their order. -/
theorem flatten_toChunks (n : Nat) (xs : List α) : (xs.toChunks n).flatten = xs := by
  unfold List.toChunks
  split
  · rfl
  · simp
  · rw [flatten_toChunks_go]
    simp

end Chunks

section Effects

variable {libs : Libs} {settings : Settings} {w w' : World}

theorem lookup_markCompacted (files : Table ParquetRow) (f g : String) :
    (ControlStore.markCompacted files f).lookup g =
      if g = f then (files.lookup f).map fun row => { row with status := .compacted }
      else files.lookup g := by
  unfold ControlStore.markCompacted
  cases hl : files.lookup f with
  | none =>
    split_ifs with h
    · subst h
      simp [hl]
    · rfl
  | some row =>
    split_ifs with h
    · subst h
      simp [AList.lookup_insert]
    · rw [AList.lookup_insert_ne h]

theorem lookup_foldl_markCompacted (merged : List String) (files : Table ParquetRow) (g : String) :
    (merged.foldl ControlStore.markCompacted files).lookup g =
      if g ∈ merged then (files.lookup g).map fun row => { row with status := .compacted }
      else files.lookup g := by
  induction merged generalizing files with
  | nil => simp
  | cons f merged ih =>
    rw [List.foldl_cons, ih, lookup_markCompacted]
    by_cases hg : g = f
    · subst hg
      cases files.lookup g with
      | none => simp
      | some row => simp
    · simp [hg]

/-- The transaction of a compaction swaps the merged files for the new one. -/
theorem isCommitted_commitCompaction {name : String} (hname : name ∉ w.control.parquetFiles) (n : Nat)
    {merged : List String} (hmerged : ∀ f ∈ merged, w.isCommitted f = true) (f : String) :
    (w.exec libs settings (.commitCompaction name n merged)).2.isCommitted f =
      (decide (f = name) || (decide (f ∉ merged) && w.isCommitted f)) := by
  have hnot : name ∉ merged := fun h => hname (isCommitted_mem (hmerged name h))
  have hl : (w.exec libs settings (.commitCompaction name n merged)).2.control.parquetFiles.lookup f =
      if f ∈ merged then ((w.control.parquetFiles.insert name ⟨n, .committed⟩).lookup f).map
        fun row => { row with status := .compacted }
      else (w.control.parquetFiles.insert name ⟨n, .committed⟩).lookup f := by
    simp only [World.exec, if_neg hname]
    exact lookup_foldl_markCompacted merged _ f
  unfold World.isCommitted
  rw [hl]
  by_cases hf : f = name
  · subst hf
    simp [hnot, AList.lookup_insert]
  · rw [AList.lookup_insert_ne hf]
    by_cases hm : f ∈ merged
    · cases w.control.parquetFiles.lookup f with
      | none => simp [hm, hf]
      | some row => simp [hm, hf]
    · simp [hm, hf]

/-- The manifest knows the same files as before and the new one. -/
theorem mem_commitCompaction {name : String} (hname : name ∉ w.control.parquetFiles) (n : Nat)
    {merged : List String} {f : String} :
    f ∈ (w.exec libs settings (.commitCompaction name n merged)).2.control.parquetFiles ↔
      f = name ∨ f ∈ w.control.parquetFiles := by
  have hlookup : ((w.exec libs settings
      (.commitCompaction name n merged)).2.control.parquetFiles.lookup f).isSome =
        ((w.control.parquetFiles.insert name ⟨n, .committed⟩).lookup f).isSome := by
    simp only [World.exec, if_neg hname, ControlStore.commitCompaction]
    rw [lookup_foldl_markCompacted]
    split_ifs
    · rw [Option.isSome_map]
    · rfl
  rw [← AList.lookup_isSome, hlookup, AList.lookup_isSome, AList.mem_insert]

end Effects

/-- The files that have been merged so far are committed and readable. -/
structure Merging (merged : List String) (files : List ParquetFile) (w : World) : Prop where
  committed : ∀ f ∈ merged, w.isCommitted f = true
  found : merged.mapM (fun f => w.parquetDir.lookup f) = some files
  footer : ∀ file ∈ files, file.footer = true

/-- What the file written to holds, as long as nobody has removed it. -/
def Holds (path : String) (file : ParquetFile) (w : World) : Prop :=
  ∀ file', w.parquetDir.lookup path = some file' → file' = file

/-- The files to merge are committed, and the names of the new one are drawn. -/
def Sources (libs : Libs) (n : Nat) (toMerge : List String) (w : World) : Prop :=
  (∀ f ∈ toMerge, w.isCommitted f = true) ∧ w.Drawn libs n

section Merging

variable {libs : Libs} {w w' : World} {n : Nat} {toMerge merged : List String}
  {files : List ParquetFile} {f path : String} {file : ParquetFile}

theorem mapM_lookup_congr {d d' : Table ParquetFile} (h : ∀ f ∈ merged, d'.lookup f = d.lookup f) :
    merged.mapM (fun f => d'.lookup f) = merged.mapM fun f => d.lookup f := by
  induction merged with
  | nil => rfl
  | cons f merged ih =>
    rw [List.mapM_cons, List.mapM_cons, h f (by simp), ih fun g hg => h g (by simp [hg])]

theorem Merging.step (h : Merging merged files w)
    (hcommitted : ∀ f, w.isCommitted f = true → w'.isCommitted f = true)
    (hdir : ∀ f, w.isCommitted f = true → w'.parquetDir.lookup f = w.parquetDir.lookup f) :
    Merging merged files w' where
  committed f hf := hcommitted f (h.committed f hf)
  found := by
    rw [mapM_lookup_congr fun f hf => hdir f (h.committed f hf)]
    exact h.found
  footer := h.footer

theorem Merging.frameStable : FrameStable (Merging merged files) := by
  intro w w' hf h
  exact h.step (fun f hc => by rw [hf.isCommitted]; exact hc) fun f hc => hf.kept f (.inl hc)

theorem Merging.quietStable : QuietStable (Merging merged files) := by
  intro w w' hq h
  exact h.step (fun f hc => by rw [hq.isCommitted]; exact hc) hq.committed

theorem Merging.nil : Merging [] [] w where
  committed _ hf := by cases hf
  found := rfl
  footer _ hf := by cases hf

/-- One more file. -/
theorem Merging.snoc (h : Merging merged files w) (hf : w.isCommitted f = true)
    (hl : w.parquetDir.lookup f = some file) (hfooter : file.footer = true) :
    Merging (merged ++ [f]) (files ++ [file]) w where
  committed g hg := by
    rcases List.mem_append.mp hg with hg | hg
    · exact h.committed g hg
    · obtain rfl := List.mem_singleton.mp hg
      exact hf
  found := by
    rw [List.mapM_append, h.found]
    simp [hl]
  footer g hg := by
    rcases List.mem_append.mp hg with hg | hg
    · exact h.footer g hg
    · obtain rfl := List.mem_singleton.mp hg
      exact hfooter

theorem Holds.frameStable : FrameStable (Holds path file) :=
  fun _ _ hf h file' hl => h file' (hf.parquet path file' hl)

theorem Sources.frameStable : FrameStable (Sources libs n toMerge) :=
  fun _ _ hf h => ⟨fun f hm => by rw [hf.isCommitted]; exact h.1 f hm, hf.drawn h.2⟩

theorem Sources.quietStable : QuietStable (Sources libs n toMerge) :=
  fun _ _ hq h => ⟨fun f hm => by rw [hq.isCommitted]; exact h.1 f hm, hq.drawn h.2⟩

end Merging

namespace Discipline

variable {libs : Libs} {settings : Settings} {Allowed : Guard} {c : Conn}
  {R G : World → World → Prop} {I : World → Progress → Prop}
  {Bad : String → WalCorruptionError → Bytes → Prop} {p : Progress} {n : Nat} {toMerge merged : List String}
  {files : List ParquetFile} {f temp : String}

/-- The batches of a committed file. -/
theorem iterBatches_triple (D : Discipline libs settings Allowed c R G I Bad) {F : World → Prop}
    (hF : FrameStable F) :
    Triple (guarded libs settings Allowed) R G (At libs c I p F) (Prog.perform (.iterBatches f))
      fun r => At libs c I p fun w => F w ∧ ∀ batches, r = .ok batches →
        ∃ file, w.parquetDir.lookup f = some file ∧ file.footer = true ∧ batches.flatten = file.rows := by
  apply D.ask (o := .iterBatches f) (K := fun r w => F w ∧ ∀ batches, r = .ok batches →
    ∃ file, w.parquetDir.lookup f = some file ∧ file.footer = true ∧
      List.flatten batches = file.rows) hF
  · intro w
    simp only [World.exec]
    split
    · rfl
    · split_ifs <;> rfl
  · intro w hw _
    refine ⟨hw, fun batches h => ?_⟩
    cases hl : w.parquetDir.lookup f with
    | none =>
      simp only [World.exec, hl] at h
      cases h
    | some file =>
      simp only [World.exec, hl] at h
      split_ifs at h with hfooter
      · obtain rfl := Except.ok.inj h
        exact ⟨file, rfl, hfooter, flatten_toChunks _ _⟩
  · exact fun w e hw _ => ⟨hw, fun batches h => by cases h⟩

/-- Rows are appended to the temporary file. -/
theorem writeBatch_triple (D : Discipline libs settings Allowed c R G I Bad) (hlibs : FreshNames libs)
    (htemp : temp ∈ generated libs n) (rows batch : List Row) :
    Triple (guarded libs settings Allowed) R G
      (At libs c I p fun w => Sources libs n toMerge w ∧ Merging merged files w ∧
        Holds temp ⟨rows, false⟩ w)
      (Prog.perform (.writeBatch temp batch))
      fun r => At libs c I p fun w => Sources libs n toMerge w ∧ Merging merged files w ∧
        (r = .ok () → Holds temp ⟨rows ++ batch, false⟩ w) := by
  apply D.quiet (K := fun r w => Sources libs n toMerge w ∧ Merging merged files w ∧
        (r = .ok () → Holds temp ⟨rows ++ batch, false⟩ w))
  · exact fun w w' h hw => ⟨Sources.frameStable w w' h hw.1, Merging.frameStable w w' h hw.2.1,
      Holds.frameStable w w' h hw.2.2⟩
  · intro w r w' hin hw _ hexec
    obtain ⟨hsources, hmerging, hholds⟩ := hw
    cases hl : w.parquetDir.lookup temp with
    | none =>
      simp only [World.exec, hl] at hexec
      obtain ⟨rfl, rfl⟩ := Prod.mk.inj hexec
      refine ⟨Quiet.refl w, hin.fresh, hsources, hmerging, fun _ file h => ?_⟩
      rw [hl] at h
      cases h
    | some file =>
      obtain rfl := hholds file hl
      simp only [World.exec, hl] at hexec
      obtain ⟨rfl, rfl⟩ := Prod.mk.inj hexec
      have hq := quiet_insert (w := w) ⟨rows ++ batch, false⟩ (hsources.2.2 temp htemp)
      refine ⟨hq, hin.fresh.insert hlibs hsources.2.1 htemp _, Sources.quietStable _ _ hq hsources,
        Merging.quietStable _ _ hq hmerging, fun _ file h => ?_⟩
      rw [AList.lookup_insert] at h
      exact (Option.some.inj h).symm
  · exact fun w e hw _ => ⟨hw.1, hw.2.1, fun h => by cases h⟩

/-- The rows of one file are written and counted. -/
theorem mergeFile_triple (D : Discipline libs settings Allowed c R G I Bad) (hlibs : FreshNames libs)
    (htemp : temp ∈ generated libs n) (hf : f ∈ toMerge) {totalRows : Nat}
    (hcount : totalRows = (files.flatMap ParquetFile.rows).length) :
    Triple (guarded libs settings Allowed) R G
      (At libs c I p fun w => Sources libs n toMerge w ∧ Merging merged files w ∧
        Holds temp ⟨files.flatMap ParquetFile.rows, false⟩ w)
      (mergeFile temp totalRows f)
      fun r w => match r with
        | .ok totalRows => ∃ file,
            totalRows = ((files ++ [file]).flatMap ParquetFile.rows).length ∧
            At libs c I p (fun w => Sources libs n toMerge w ∧
              Merging (merged ++ [f]) (files ++ [file]) w ∧
              Holds temp ⟨(files ++ [file]).flatMap ParquetFile.rows, false⟩ w) w
        | .error _ => At libs c I p (Sources libs n toMerge) w := by
  unfold mergeFile
  apply Triple.bind (D.iterBatches_triple (F := fun w => Sources libs n toMerge w ∧
    Merging merged files w ∧ Holds temp ⟨files.flatMap ParquetFile.rows, false⟩ w)
    fun w w' h hw => ⟨Sources.frameStable w w' h hw.1, Merging.frameStable w w' h hw.2.1,
      Holds.frameStable w w' h hw.2.2⟩)
  swap
  · exact fun e w hw => ⟨hw.1, hw.2.1, hw.2.2.1.1⟩
  intro batches
  apply Triple.pre (H := fun w => ∃ file : ParquetFile, batches.flatten = file.rows ∧
    At libs c I p (fun w => Sources libs n toMerge w ∧
      Merging (merged ++ [f]) (files ++ [file]) w ∧
      Holds temp ⟨files.flatMap ParquetFile.rows, false⟩ w) w)
  · intro w hw
    obtain ⟨hin, hI, ⟨hsources, hmerging, hholds⟩, hread⟩ := hw
    obtain ⟨file, hl, hfooter, hrows⟩ := hread batches rfl
    exact ⟨file, hrows, hin, hI, hsources, hmerging.snoc (hsources.1 f hf) hl hfooter, hholds⟩
  apply Triple.exists_pre
  intro file
  apply Triple.assume
  intro hrows
  apply (Triple.forEach (I := fun rest total w => ∃ written : List Row,
    (written ++ rest.flatten = file.rows ∧ total = totalRows + written.length) ∧
    At libs c I p (fun w => Sources libs n toMerge w ∧
      Merging (merged ++ [f]) (files ++ [file]) w ∧
      Holds temp ⟨files.flatMap ParquetFile.rows ++ written, false⟩ w) w) ?_ ?_).pre
  · intro w hw
    refine ⟨[], ⟨hrows, rfl⟩, ?_⟩
    rw [List.append_nil]
    exact hw
  · intro batch rest total
    apply Triple.exists_pre
    intro written
    apply Triple.assume
    intro hwritten
    apply Triple.bind (D.writeBatch_triple hlibs htemp _ batch)
    · intro _
      apply Triple.ret
      intro w hw
      refine ⟨written ++ batch, ⟨?_, ?_⟩, hw.1, hw.2.1, hw.2.2.1, hw.2.2.2.1, ?_⟩
      · rw [← hwritten.1, List.flatten_cons, List.append_assoc]
      · rw [hwritten.2, List.length_append, Nat.add_assoc]
      · rw [← List.append_assoc]
        exact hw.2.2.2.2 rfl
    · exact fun e w hw => ⟨hw.1, hw.2.1, hw.2.2.1⟩
  · intro total w hw
    obtain ⟨written, ⟨hall, htotal⟩, hw⟩ := hw
    have hwritten : written = file.rows := by simpa using hall
    subst hwritten
    have happend : (files ++ [file]).flatMap ParquetFile.rows =
        files.flatMap ParquetFile.rows ++ file.rows := by simp
    refine ⟨file, ?_, ?_⟩
    · rw [happend, htotal, hcount, List.length_append]
    · rw [happend]
      exact hw

/-- The temporary file is removed. -/
theorem unlinkTemp_triple (D : Discipline libs settings Allowed c R G I Bad)
    (htemp : temp ∈ generated libs n) :
    Triple (guarded libs settings Allowed) R G (At libs c I p (Sources libs n toMerge))
      (Prog.perform (.unlinkParquet temp)) fun _ => At libs c I p fun _ => True := by
  apply D.quiet (K := fun _ _ => True) Sources.frameStable
  · intro w r w' hin hw _ hexec
    obtain ⟨rfl, rfl⟩ := Prod.mk.inj hexec
    refine ⟨quiet_erase ?_, hin.fresh.erase temp, trivial⟩
    cases hcommitted : w.isCommitted temp with
    | false => rfl
    | true => exact absurd (isCommitted_mem hcommitted) (hw.2.2 temp htemp)
  · exact fun _ _ _ _ => trivial

theorem openWriter_triple (D : Discipline libs settings Allowed c R G I Bad) (hlibs : FreshNames libs)
    (htemp : temp ∈ generated libs n) :
    Triple (guarded libs settings Allowed) R G (At libs c I p (Sources libs n toMerge))
      (Prog.perform (.openWriter temp))
      fun r => At libs c I p fun w => Sources libs n toMerge w ∧
        (r = .ok () → Holds temp ⟨[], false⟩ w) := by
  apply D.quiet (K := fun r w => Sources libs n toMerge w ∧ (r = .ok () → Holds temp ⟨[], false⟩ w))
    Sources.frameStable
  · intro w r w' hin hw _ hexec
    obtain ⟨rfl, rfl⟩ := Prod.mk.inj hexec
    have hq := quiet_insert (w := w) ⟨[], false⟩ (hw.2.2 temp htemp)
    refine ⟨hq, hin.fresh.insert hlibs hw.2.1 htemp _, Sources.quietStable _ _ hq hw,
      fun _ file h => ?_⟩
    rw [AList.lookup_insert] at h
    exact (Option.some.inj h).symm
  · exact fun w e hw _ => ⟨hw, fun h => by cases h⟩

/-- The footer is written. -/
theorem closeWriter_triple (D : Discipline libs settings Allowed c R G I Bad) (hlibs : FreshNames libs)
    (htemp : temp ∈ generated libs n) {F : World → Prop} (hF : FrameStable F) (hQ : QuietStable F)
    (complete : Prop) (rows : List Row) :
    Triple (guarded libs settings Allowed) R G
      (At libs c I p fun w => (Sources libs n toMerge w ∧ F w) ∧
        (complete → Holds temp ⟨rows, false⟩ w))
      (Prog.perform (.closeWriter temp))
      fun _ => At libs c I p fun w => (Sources libs n toMerge w ∧ F w) ∧
        (complete → Holds temp ⟨rows, true⟩ w) := by
  apply D.quiet (K := fun _ w => (Sources libs n toMerge w ∧ F w) ∧
    (complete → Holds temp ⟨rows, true⟩ w))
  · exact fun w w' h hw => ⟨⟨Sources.frameStable w w' h hw.1.1, hF w w' h hw.1.2⟩,
      fun hc => Holds.frameStable w w' h (hw.2 hc)⟩
  · intro w r w' hin hw _ hexec
    obtain ⟨⟨hsources, hF⟩, hholds⟩ := hw
    cases hl : w.parquetDir.lookup temp with
    | none =>
      simp only [World.exec, hl] at hexec
      obtain ⟨rfl, rfl⟩ := Prod.mk.inj hexec
      refine ⟨Quiet.refl w, hin.fresh, ⟨hsources, hF⟩, fun _ file h => ?_⟩
      rw [hl] at h
      cases h
    | some file =>
      simp only [World.exec, hl] at hexec
      obtain ⟨rfl, rfl⟩ := Prod.mk.inj hexec
      have hq := quiet_insert (w := w) ⟨file.rows, true⟩ (hsources.2.2 temp htemp)
      refine ⟨hq, hin.fresh.insert hlibs hsources.2.1 htemp _,
        ⟨Sources.quietStable _ _ hq hsources, hQ _ _ hq hF⟩, fun hc file' h => ?_⟩
      obtain rfl := hholds hc file hl
      rw [AList.lookup_insert] at h
      exact (Option.some.inj h).symm
  · exact fun w e _ he => by cases he

/-- The handler of `compact_parquet_files`. -/
theorem unlinkRaise_triple (D : Discipline libs settings Allowed c R G I Bad)
    (htemp : temp ∈ generated libs n) {α : Type} (error : PyError) :
    Triple (guarded libs settings Allowed) R G (At libs c I p (Sources libs n toMerge))
      (do
        Prog.perform (.unlinkParquet temp)
        (.raise error : Call α))
      fun r w => match r with
        | .ok _ => False
        | .error _ => At libs c I p (fun _ => True) w :=
  Triple.bind (D.unlinkTemp_triple htemp) (fun _ => Triple.raise fun _ hw => hw) fun _ _ hw => hw

/-- The merged file holds the rows of all files merged, or it is removed. -/
theorem writeMerged_triple (D : Discipline libs settings Allowed c R G I Bad) (hlibs : FreshNames libs)
    (htemp : temp ∈ generated libs n) :
    Triple (guarded libs settings Allowed) R G (At libs c I p (Sources libs n toMerge))
      (writeMerged temp toMerge)
      fun r w => match r with
        | .ok totalRows => ∃ files : List ParquetFile,
            totalRows = (files.flatMap ParquetFile.rows).length ∧
            At libs c I p (fun w => (Sources libs n toMerge w ∧ Merging toMerge files w) ∧
              Holds temp ⟨files.flatMap ParquetFile.rows, true⟩ w) w
        | .error _ => At libs c I p (fun _ => True) w := by
  unfold writeMerged
  apply Triple.tryThen (D.openWriter_triple hlibs htemp)
  intro opened
  cases opened with
  | error e =>
    apply (D.unlinkRaise_triple htemp e).conseq
    · exact fun w hw => ⟨hw.1, hw.2.1, hw.2.2.1⟩
    · intro r w hw
      cases r with
      | ok total => exact hw.elim
      | error e => exact hw
  | ok u =>
    apply Triple.tryThen (J := fun r w => match r with
      | .ok totalRows => ∃ files : List ParquetFile,
          totalRows = (files.flatMap ParquetFile.rows).length ∧
          At libs c I p (fun w => (Sources libs n toMerge w ∧ Merging toMerge files w) ∧
            Holds temp ⟨files.flatMap ParquetFile.rows, false⟩ w) w
      | .error _ => At libs c I p (Sources libs n toMerge) w)
    · apply (Triple.forEach (I := fun rest total w => ∃ merged files, (merged ++ rest = toMerge ∧
        total = (files.flatMap ParquetFile.rows).length) ∧
        At libs c I p (fun w => Sources libs n toMerge w ∧ Merging merged files w ∧
          Holds temp ⟨files.flatMap ParquetFile.rows, false⟩ w) w) ?_ ?_).pre
      · exact fun w hw => ⟨[], [], ⟨rfl, rfl⟩, hw.1, hw.2.1, hw.2.2.1, .nil, hw.2.2.2 rfl⟩
      · intro f rest total
        apply Triple.exists_pre
        intro merged
        apply Triple.exists_pre
        intro files
        apply Triple.assume
        intro hmerged
        have hf : f ∈ toMerge := by
          rw [← hmerged.1]
          simp
        apply (D.mergeFile_triple hlibs htemp hf hmerged.2).post
        intro r w hw
        cases r with
        | error e => exact hw
        | ok total' =>
          obtain ⟨file, htotal, hw⟩ := hw
          exact ⟨merged ++ [f], files ++ [file], ⟨by simp [← hmerged.1], htotal⟩, hw⟩
      · intro total w hw
        obtain ⟨merged, files, ⟨hall, htotal⟩, hin, hI, hsources, hmerging, hholds⟩ := hw
        obtain rfl : merged = toMerge := by simpa using hall
        exact ⟨files, htotal, hin, hI, ⟨hsources, hmerging⟩, hholds⟩
    intro merged
    cases merged with
    | error e =>
      apply Triple.bind (J := fun _ => At libs c I p (Sources libs n toMerge))
      · apply Triple.suppress ((D.closeWriter_triple hlibs htemp (F := fun _ => True)
          (fun _ _ _ _ => trivial) (fun _ _ _ _ => trivial) False []).pre
          fun w hw => ⟨hw.1, hw.2.1, ⟨hw.2.2, trivial⟩, False.elim⟩)
        exact fun r w hw => ⟨hw.1, hw.2.1, hw.2.2.1.1⟩
      · intro _
        apply (D.unlinkRaise_triple htemp e).post
        intro r w hw
        cases r with
        | ok total => exact hw.elim
        | error e => exact hw
      · exact fun e w hw => ⟨hw.1, hw.2.1, trivial⟩
    | ok total =>
      apply Triple.exists_pre
      intro files
      apply Triple.assume
      intro htotal
      apply Triple.bind (J := fun _ => At libs c I p fun w =>
        (Sources libs n toMerge w ∧ Merging toMerge files w) ∧
          Holds temp ⟨files.flatMap ParquetFile.rows, true⟩ w)
      · apply Triple.suppress ((D.closeWriter_triple hlibs htemp Merging.frameStable
          Merging.quietStable True (files.flatMap ParquetFile.rows)).pre
          fun w hw => ⟨hw.1, hw.2.1, hw.2.2.1, fun _ => hw.2.2.2⟩)
        exact fun r w hw => ⟨hw.1, hw.2.1, hw.2.2.1, hw.2.2.2 trivial⟩
      · exact fun _ => Triple.ret fun w hw => ⟨files, htotal, hw⟩
      · exact fun e w hw => ⟨hw.1, hw.2.1, trivial⟩

theorem compactedFilename_mem (n : Nat) :
    compactedFilename (libs.timestamp n) (libs.uuid4Hex n) ∈ generated libs n := by
  simp [generated]

theorem compactedTempPath_mem (n : Nat) :
    compactedTempPath (libs.timestamp n) (libs.uuid4Hex n) ∈ generated libs n := by
  simp [generated]

/-- The committed files of which the directory has some. -/
theorem selectExisting_triple (D : Discipline libs settings Allowed c R G I Bad) {α : Type}
    {f : List String → Call α} {Q : Except PyError α → World → Prop}
    (hf : ∀ files, Triple (guarded libs settings Allowed) R G
      (At libs c I p fun w => files.Nodup ∧ ∀ f ∈ files, w.isCommitted f = true) (f files) Q)
    (herr : ∀ e w, At libs c I p (fun _ => True) w → Q (.error e) w) :
    Triple (guarded libs settings Allowed) R G (At libs c I p fun _ => True)
      (do
        let committedFilenames ← Prog.perform .selectCommittedOrdered
        let validFiles ← Prog.filterBy (fun file => Prog.perform (.existsParquet file))
          committedFilenames
        f validFiles) Q := by
  have hstable : ∀ names : List String, FrameStable fun w =>
      names.Nodup ∧ ∀ f ∈ names, w.isCommitted f = true := by
    intro names w w' h hw
    exact ⟨hw.1, fun f hf => by rw [h.isCommitted]; exact hw.2 f hf⟩
  apply Triple.bind (D.ask (o := .selectCommittedOrdered) (K := fun r w => ∀ names : List String,
    r = .ok names → names.Nodup ∧ ∀ f ∈ names, w.isCommitted f = true)
    (fun _ _ _ _ => trivial) (fun _ => rfl) ?_ fun w e _ _ names h => by cases h)
  rotate_right
  · intro w _ _ names h
    obtain rfl := Except.ok.inj h
    have hperm := List.perm_insertionSort (· ≤ ·) w.committedNames
    refine ⟨hperm.nodup_iff.mpr (w.control.parquetFiles.nodupKeys.filter _), fun f hf => ?_⟩
    exact mem_committedNames.mp (hperm.mem_iff.mp hf)
  swap
  · exact fun e w hw => herr e w ⟨hw.1, hw.2.1, trivial⟩
  intro names
  apply Triple.bind (J := fun r w => At libs c I p (fun w => ∀ files, r = .ok files →
    files.Nodup ∧ ∀ f ∈ files, w.isCommitted f = true) w)
  · apply (Triple.filterBy (P := At libs c I p fun w =>
      names.Nodup ∧ ∀ f ∈ names, w.isCommitted f = true) ?_ ?_).pre
    · exact fun w hw => ⟨hw.1, hw.2.1, hw.2.2 names rfl⟩
    · intro file
      apply (D.pass (o := .existsParquet file) (hstable names) fun _ => rfl).post
      intro r w hw
      cases r with
      | ok _ => exact hw
      | error e => exact ⟨hw.1, hw.2.1, fun files h => by cases h⟩
    · intro files w hsub hw
      refine ⟨hw.1, hw.2.1, fun files' h => ?_⟩
      obtain rfl := Except.ok.inj h
      exact ⟨hw.2.2.1.sublist hsub, fun f hf => hw.2.2.2 f (hsub.subset hf)⟩
  · exact fun files => (hf files).pre fun w hw => ⟨hw.1, hw.2.1, hw.2.2 files rfl⟩
  · exact fun e w hw => herr e w ⟨hw.1, hw.2.1, trivial⟩

/-- The transaction of a compaction. Afterwards the merged files are committed no more. -/
theorem commitCompaction_triple (D : Discipline libs settings Allowed c R G I Bad)
    (hlibs : FreshNames libs) (hnodup : toMerge.Nodup) (hne : files.flatMap ParquetFile.rows ≠ []) :
    Triple (guarded libs settings Allowed) R G
      (At libs c I p fun w => (Sources libs n toMerge w ∧ Merging toMerge files w) ∧
        w.parquetDir.lookup (compactedFilename (libs.timestamp n) (libs.uuid4Hex n)) =
          some ⟨files.flatMap ParquetFile.rows, true⟩ ∧
        compactedFilename (libs.timestamp n) (libs.uuid4Hex n) ∈ w.history.renamed)
      (Prog.perform (.commitCompaction (compactedFilename (libs.timestamp n) (libs.uuid4Hex n))
        (files.flatMap ParquetFile.rows).length toMerge))
      fun r => At libs c I p fun w => r = .ok () → ∀ f ∈ toMerge, w.isCommitted f = false := by
  apply D.perform
  · intro w w' h hw
    obtain ⟨⟨hsources, hmerging⟩, hl, hr⟩ := hw
    exact ⟨⟨Sources.frameStable w w' h hsources, Merging.frameStable w w' h hmerging⟩,
      by rw [h.kept _ (.inr hr)]; exact hl, by rw [h.history]; exact hr⟩
  · intro w r w' hw hallowed hexec
    obtain ⟨hin, hI, ⟨hsources, hmerging⟩, hl, -⟩ := hw
    have hname := hsources.2.2 _ (compactedFilename_mem n)
    have hw' : w' = (w.exec libs settings (.commitCompaction
        (compactedFilename (libs.timestamp n) (libs.uuid4Hex n))
        (files.flatMap ParquetFile.rows).length toMerge)).2 := (congrArg Prod.snd hexec).symm
    have hin' : Inside libs c w' := by
      have hfresh : Fresh libs w' := by
        apply hin.fresh.commit hlibs hsources.2.1 (compactedFilename_mem n) (not_tmp_parquet _)
        · rw [hw']
          simp only [World.exec, if_neg hname]
        · rw [hw']
          simp only [World.exec, if_neg hname]
        · intro f hf
          rw [hw'] at hf
          exact (mem_commitCompaction hname _).mp hf
      refine ⟨?_, ?_, hfresh⟩
      · rw [hw']
        simp only [World.exec, if_neg hname]
        exact hin.held
      · rw [hw']
        simp only [World.exec, if_neg hname]
        exact hin.serial
    obtain ⟨hG, hI'⟩ := D.compact w w' p _ toMerge files hin hin' hI hnodup hsources.1 hmerging.found
      hmerging.footer hne ⟨n, compactedFilename_mem n⟩ hname hl hallowed hw'
    refine ⟨hG, hin', hI', fun _ f hf => ?_⟩
    have hne : f ≠ compactedFilename (libs.timestamp n) (libs.uuid4Hex n) :=
      fun e => hname (e ▸ isCommitted_mem (hsources.1 f hf))
    rw [hw', isCommitted_commitCompaction hname _ hsources.1]
    simp [hne, hf]
  · exact fun w e hw _ => ⟨hw.1, hw.2.1, fun h => by cases h⟩

/-- `compact_parquet_files` under the lock. -/
theorem compactCommitted_triple (D : Discipline libs settings Allowed c R G I Bad)
    (hlibs : FreshNames libs) (maxFilesToMerge : Nat) :
    Triple (guarded libs settings Allowed) R G (At libs c I p fun _ => True)
      (compactCommitted maxFilesToMerge) fun _ => At libs c I p fun _ => True := by
  have htrue : FrameStable fun _ => True := fun _ _ _ _ => trivial
  unfold compactCommitted
  apply Triple.bind (D.pass (o := .mkdirParquet) htrue fun _ => rfl)
  swap
  · exact fun _ _ hw => hw
  intro _
  apply D.selectExisting_triple
  swap
  · exact fun _ _ hw => hw
  intro validFiles
  apply Triple.cond
  · exact fun _ => Triple.ret fun w hw => ⟨hw.1, hw.2.1, trivial⟩
  intro _
  have hF : FrameStable fun w => (validFiles.take maxFilesToMerge).Nodup ∧
      ∀ f ∈ validFiles.take maxFilesToMerge, w.isCommitted f = true := by
    intro w w' h hw
    exact ⟨hw.1, fun f hf => by rw [h.isCommitted]; exact hw.2 f hf⟩
  have hQ : QuietStable fun w => (validFiles.take maxFilesToMerge).Nodup ∧
      ∀ f ∈ validFiles.take maxFilesToMerge, w.isCommitted f = true := by
    intro w w' h hw
    exact ⟨hw.1, fun f hf => by rw [h.isCommitted]; exact hw.2 f hf⟩
  apply Triple.bind ((D.stamp_triple hF hQ).pre fun w hw => ⟨hw.1, hw.2.1,
    hw.2.2.1.sublist (List.take_sublist _ _), fun f hf => hw.2.2.2 f (List.mem_of_mem_take hf)⟩)
  swap
  · exact fun _ w hw => ⟨hw.1, hw.2.1, trivial⟩
  intro names
  generalize validFiles.take maxFilesToMerge = toMerge
  apply Triple.pre (H := fun w => ∃ n, (names = (libs.timestamp n, libs.uuid4Hex n) ∧
    toMerge.Nodup) ∧ At libs c I p (Sources libs n toMerge) w)
  · intro w hw
    obtain ⟨hin, hI, ⟨hnodup, hcommitted⟩, n, h, hd⟩ := hw
    exact ⟨n, ⟨Except.ok.inj h, hnodup⟩, hin, hI, hcommitted, hd⟩
  apply Triple.exists_pre
  intro n
  apply Triple.assume
  intro h
  obtain ⟨rfl, hnodup⟩ := h
  dsimp only
  apply Triple.bind (D.writeMerged_triple hlibs (compactedTempPath_mem n))
  swap
  · exact fun _ _ hw => hw
  intro totalRows
  apply Triple.exists_pre
  intro files
  apply Triple.assume
  rintro rfl
  apply Triple.cond
  · intro _
    apply Triple.bind ((D.unlinkTemp_triple (compactedTempPath_mem n)).pre
      fun w hw => ⟨hw.1, hw.2.1, hw.2.2.1.1⟩)
    · exact fun _ => Triple.ret fun w hw => hw
    · exact fun _ w hw => hw
  intro hrows
  have hne : files.flatMap ParquetFile.rows ≠ [] := fun h => hrows (by rw [h]; rfl)
  apply Triple.bind ((D.replace_triple hlibs (F := fun w => Sources libs n toMerge w ∧
    Merging toMerge files w) (fun w w' h hw => ⟨Sources.frameStable w w' h hw.1,
      Merging.frameStable w w' h hw.2⟩) (fun w w' h hw => ⟨Sources.quietStable w w' h hw.1,
      Merging.quietStable w w' h hw.2⟩) (compactedTempPath_mem n) (compactedFilename_mem n)).pre
    fun w hw => ⟨hw.1, hw.2.1, ⟨hw.2.2.1, hw.2.2.1.1.2⟩, hw.2.2.2⟩)
  swap
  · exact fun _ w hw => ⟨hw.1, hw.2.1, trivial⟩
  intro _
  apply Triple.bind ((D.commitCompaction_triple hlibs hnodup hne).pre fun w hw =>
    ⟨hw.1, hw.2.1, hw.2.2.1.1, hw.2.2.2.2 rfl⟩)
  swap
  · exact fun _ w hw => ⟨hw.1, hw.2.1, trivial⟩
  intro _
  apply Triple.bind ((D.unlinkEach_triple (F := fun _ => True) htrue
    (fun _ _ _ _ => trivial) toMerge 0).pre
    fun w hw => ⟨hw.1, hw.2.1, trivial, hw.2.2 rfl⟩)
  · exact fun _ => Triple.ret fun w hw => hw
  · exact fun _ w hw => hw

end Discipline

end Lrcp.Store
