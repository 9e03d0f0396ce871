import Lrcp.Store.Runs

namespace Lrcp.Store

open Lrcp.Wal Lrcp.Otlp Lrcp.Framework

/-- The rows that name the segment and the offset. -/
def rowsFrom (f : String) (offset : Nat) (rows : List Row) : List Row :=
  rows.filter fun row => row.sourceFile = f ∧ row.sourceOffset = offset

section Files

variable {libs : Libs} {settings : Settings} {w w' : World}

theorem existsParquet_triple (f : String) :
    Triple (faulty libs settings) Eq (fun _ _ => True) (· = w) (Prog.perform (.existsParquet f))
      fun r s => match r with
        | .ok b => b = decide (f ∈ w.parquetDir) ∧ s = w
        | .error _ => s = w := by
  apply Triple.perform stable_eq
  rintro s r s' rfl (hexec | ⟨e, -, rfl, rfl⟩)
  · obtain ⟨rfl, rfl⟩ := Prod.mk.inj hexec
    exact ⟨trivial, rfl, rfl⟩
  · exact ⟨trivial, rfl⟩

/-- `get_committed_parquet_files` returns the committed files that are there, or,
after a failure, none. -/
theorem getCommittedParquetFiles_triple :
    Triple (faulty libs settings) Eq (fun _ _ => True) (· = w) getCommittedParquetFiles
      fun r s => s = w ∧ ∀ files, r = .ok files →
        files = [] ∨ files = (sortNames w.committedNames).filter fun f => f ∈ w.parquetDir := by
  unfold getCommittedParquetFiles
  apply Triple.tryThen (J := fun r s => s = w ∧ ∀ files, r = .ok files →
    files = (sortNames w.committedNames).filter fun f => f ∈ w.parquetDir)
  · apply Triple.bind (J := fun r s => s = w ∧ ∀ names, r = .ok names →
      names = sortNames w.committedNames)
    · apply Triple.perform stable_eq
      rintro s r s' rfl (hexec | ⟨e, -, rfl, rfl⟩)
      · obtain ⟨rfl, rfl⟩ := Prod.mk.inj hexec
        exact ⟨trivial, rfl, fun names h => (Except.ok.inj h).symm⟩
      · exact ⟨trivial, rfl, fun names h => by cases h⟩
    · intro names
      apply Triple.pre (H := fun s => names = sortNames w.committedNames ∧ s = w)
      · exact fun s hs => ⟨hs.2 names rfl, hs.1⟩
      apply Triple.assume
      rintro rfl
      apply Triple.filterBy_eq
      · intro f _
        apply (existsParquet_triple f).post
        intro r s hs
        cases r with
        | ok b => exact hs
        | error e => exact ⟨hs, fun files h => by cases h⟩
      · exact fun s hs => ⟨hs, fun files h => (Except.ok.inj h).symm⟩
    · exact fun e s hs => ⟨hs.1, fun files h => by cases h⟩
  · intro result
    cases result with
    | ok files => exact Triple.ret fun s hs => ⟨hs.1, fun files' h => .inr (hs.2 files' h)⟩
    | error e => exact Triple.ret fun s hs => ⟨hs.1, fun files' h => .inl (Except.ok.inj h).symm⟩

end Files

section Found

variable {libs : Libs} {M : Nat} {C P : List Entry} {w : World} {p : Progress} {f : String}
  {r : WalRecord} {offset : Nat}

/-- The rows of a record name its segment and its offset. -/
theorem rowsFrom_rowsOf {e : Entry} (he : rows libs e.2.payload e.1 e.2.start = .ok (rowsOf libs e)) :
    rowsFrom f offset (rowsOf libs e) = if e.key = (f, offset) then rowsOf libs e else [] := by
  unfold rowsFrom
  split_ifs with h
  · obtain ⟨rfl, rfl⟩ := Prod.mk.inj h
    apply List.filter_eq_self.mpr
    intro row hrow
    simpa using rows_source he hrow
  · apply List.filter_eq_nil_iff.mpr
    intro row hrow
    obtain ⟨hfile, hoffset⟩ := rows_source he hrow
    simpa [hfile, hoffset, Entry.key] using h

/-- Among records with different keys at most one has rows from one place. -/
theorem rowsFrom_flatMap (hkeys : (C.map Entry.key).Nodup)
    (hparsed : ∀ e ∈ C, rows libs e.2.payload e.1 e.2.start = .ok (rowsOf libs e)) :
    rowsFrom f offset (C.flatMap (rowsOf libs)) = [] ∨
      ∃ e ∈ C, e.key = (f, offset) ∧ rowsFrom f offset (C.flatMap (rowsOf libs)) = rowsOf libs e := by
  induction C with
  | nil => exact .inl rfl
  | cons e C ih =>
    rw [List.map_cons, List.nodup_cons] at hkeys
    have ih := ih hkeys.2 fun e' he' => hparsed e' (by simp [he'])
    have hsplit : rowsFrom f offset ((e :: C).flatMap (rowsOf libs)) =
        rowsFrom f offset (rowsOf libs e) ++ rowsFrom f offset (C.flatMap (rowsOf libs)) := by
      rw [List.flatMap_cons, rowsFrom, List.filter_append]
      rfl
    rw [hsplit, rowsFrom_rowsOf (hparsed e (by simp))]
    split_ifs with hkey
    · rcases ih with hnil | ⟨e', he', hkey', -⟩
      · exact .inr ⟨e, by simp, hkey, by rw [hnil, List.append_nil]⟩
      · exact absurd (List.mem_map.mpr ⟨e', he', hkey'.trans hkey.symm⟩) hkeys.1
    · rcases ih with hnil | ⟨e', he', hkey', hrows⟩
      · exact .inl hnil
      · exact .inr ⟨e', by simp [he'], hkey', hrows⟩

/-- The rows of a record are visible all, each once, or not at all. -/
theorem Ledger.rowsFrom_visible (L : Ledger libs M C P w p) (hr : IsRecord M (w.written f) r) :
    rowsFrom f r.start w.visible = [] ∨ ∃ rs, rows libs r.payload f r.start = .ok rs ∧
      (rowsFrom f r.start w.visible).Perm rs := by
  have hkeys : (C.map Entry.key).Nodup := by
    have hd := L.distinct
    rw [List.map_append, List.nodup_append] at hd
    exact hd.1
  have hperm : (rowsFrom f r.start w.visible).Perm (rowsFrom f r.start (C.flatMap (rowsOf libs))) :=
    L.visible.filter _
  have hrecords : rowsFrom f r.start (C.flatMap (rowsOf libs)) = [] ∨
      ∃ e ∈ C, e.key = (f, r.start) ∧ rowsFrom f r.start (C.flatMap (rowsOf libs)) = rowsOf libs e :=
    rowsFrom_flatMap hkeys fun e he => L.parsed e (List.mem_append_left P he)
  rcases hrecords with hnil | ⟨e, he, hkey, hrows⟩
  · rw [hnil] at hperm
    exact .inl hperm.eq_nil
  · obtain ⟨g, r'⟩ := e
    obtain ⟨rfl, hstart⟩ := Prod.mk.inj hkey
    have hrecord := L.record (g, r') (List.mem_append_left P he)
    obtain rfl : r' = r := hrecord.2.ext hr hstart
    have hparsed := L.parsed (g, r') (List.mem_append_left P he)
    exact .inr ⟨_, hparsed, by rw [hrows] at hperm; exact hperm⟩

end Found

/-- In every state of every run, the rows of a record in the files that
`get_committed_parquet_files` returns are none, or exactly those of `_rows`. -/
theorem rowsFrom_committed {libs : Libs} (hlibs : FreshNames libs) {settings : Settings} {M : Nat}
    {w w' : World} (h : Observed libs M (fun _ => True) w) {files : List String}
    (hf : Prog.Runs (faulty libs settings) (getCommittedParquetFiles, w) (.ret files, w'))
    {f : String} {r : WalRecord} (hr : IsRecord M (w.written f) r) :
    rowsFrom f r.start (files.flatMap w.rowsIn) = [] ∨ ∃ rs,
      rows libs r.payload f r.start = .ok rs ∧
        (rowsFrom f r.start (files.flatMap w.rowsIn)).Perm rs := by
  obtain ⟨C, P, p, L⟩ := h.ledger hlibs
  obtain ⟨-, hfiles⟩ := (getCommittedParquetFiles_triple.runs rfl trivial hf).2 (.ok files) rfl
  rcases hfiles files rfl with rfl | rfl
  · exact .inl rfl
  · have hall : (sortNames w.committedNames).filter (fun f => f ∈ w.parquetDir) =
        sortNames w.committedNames := by
      apply List.filter_eq_self.mpr
      intro g hg
      have hg' := mem_committedNames.mp ((List.perm_insertionSort _ _).mem_iff.mp hg)
      obtain ⟨file, hfile, -⟩ := L.stored g hg'
      have hmem : g ∈ w.parquetDir := AList.lookup_isSome.mp (by rw [hfile]; rfl)
      simpa using hmem
    have hperm : (rowsFrom f r.start ((sortNames w.committedNames).flatMap w.rowsIn)).Perm
        (rowsFrom f r.start w.visible) :=
      ((List.perm_insertionSort _ _).flatMap_right _).filter _
    rw [hall]
    rcases L.rowsFrom_visible hr with hnil | ⟨rs, hrs, hrs'⟩
    · rw [hnil] at hperm
      exact .inl hperm.eq_nil
    · exact .inr ⟨rs, hrs, hperm.trans hrs'⟩

/-- The span of `sealedSegment`, as a query finds it after a run of `materialize`. -/
theorem rowsFrom_committed_sealed :
    rowsFrom "wal-0.wal" 0 (["spans--0123456789ab.parquet"].flatMap
        (sealedSegment.follow sampleLibs {} 60 (materialize sampleLibs {} ⟨0, 0⟩)).2.rowsIn) = [] ∨
      ∃ rs, rows sampleLibs spanPayload "wal-0.wal" 0 = .ok rs ∧
        (rowsFrom "wal-0.wal" 0 (["spans--0123456789ab.parquet"].flatMap
          (sealedSegment.follow sampleLibs {} 60 (materialize sampleLibs {} ⟨0, 0⟩)).2.rowsIn)).Perm
          rs := by
  have hrun : Prog.Runs (regular sampleLibs {}) (getCommittedParquetFiles,
      (sealedSegment.follow sampleLibs {} 60 (materialize sampleLibs {} ⟨0, 0⟩)).2)
      (.ret ["spans--0123456789ab.parquet"], _) :=
    World.follow_outcome (n := 20) (r := .ok ["spans--0123456789ab.parquet"]) (by decide +kernel)
  have hstate : Observed sampleLibs (64 * 1024 * 1024) (fun _ => True)
      (sealedSegment.follow sampleLibs {} 60 (materialize sampleLibs {} ⟨0, 0⟩)).2 :=
    .rest (.returned (.start (initial_ofSegments _ _)) (.materialize (by decide)) rfl
      (regular_faulty sealedSegment_materialized))
  exact @rowsFrom_committed sampleLibs sampleLibs_freshNames {} (64 * 1024 * 1024) _ _ hstate _
    (regular_faulty hrun) "wal-0.wal" ⟨0, 14, spanPayload⟩
    ((@mem_walRecordsFrom "wal-0.wal" _ _ _).mp (by decide +kernel)).2

end Lrcp.Store
