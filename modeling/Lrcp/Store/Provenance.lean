import Lrcp.Store.Runs

namespace Lrcp.Store

open Lrcp.Wal Lrcp.Otlp Lrcp.Framework

/-- The record that a row comes from, as `materialized_wal_records` is keyed. -/
def sourceKey (row : Row) : String × Nat := (row.sourceFile, row.sourceOffset)

/-- The table `materialized_wal_records` tells where the rows are: each row of a committed
file has an entry that names the file, and every entry names a file with rows of its record. -/
structure Provenance (w : World) : Prop where
  traced : ∀ f, w.isCommitted f = true → ∀ row ∈ w.rowsIn f,
    w.control.materializedWalRecords.lookup (sourceKey row) = some f
  backed : ∀ key f, w.control.materializedWalRecords.lookup key = some f →
    ∃ row ∈ w.rowsIn f, sourceKey row = key

/-- No record written has a span. -/
def Spanless (libs : Libs) (M : Nat) (w : World) : Prop :=
  ∀ f r, HasRecord M (w.written f) r → rowsOf libs (f, r) = []

/-- Some of the records has the key, and rows. -/
def HasRows (libs : Libs) (C : List Entry) (key : String × Nat) : Prop :=
  ∃ e ∈ C, e.key = key ∧ rowsOf libs e ≠ []

/-- What the table says: its keys are those of the committed records with rows, the
entries of the batch are those of the records with rows in it, and no file is named. -/
structure Unfilled (libs : Libs) (C P : List Entry) (w : World) (p : Progress) : Prop where
  keys : ∀ key, key ∈ w.control.materializedWalRecords ↔ HasRows libs C key
  entries : ∀ key, (∃ entry ∈ p.batch.entries, (entry.1, entry.2.1) = key) ↔ HasRows libs P key
  blank : ∀ key f, w.control.materializedWalRecords.lookup key = some f → f = ""
  named : "" ∉ w.control.parquetFiles

section Records

variable {records : AList fun _ : String × Nat => String} {entries : List (String × Nat × String)}
  {key : String × Nat} {f : String}

theorem mem_foldl_recordEntry : key ∈ entries.foldl ControlStore.recordEntry records ↔
    key ∈ records ∨ ∃ entry ∈ entries, (entry.1, entry.2.1) = key := by
  induction entries generalizing records with
  | nil => simp
  | cons entry entries ih =>
    have hone : key ∈ ControlStore.recordEntry records entry ↔
        key ∈ records ∨ (entry.1, entry.2.1) = key := by
      unfold ControlStore.recordEntry
      split_ifs with h
      · constructor
        · exact .inl
        · intro hkey
          rcases hkey with hkey | hkey
          · exact hkey
          · exact hkey ▸ h
      · rw [AList.mem_insert, or_comm, eq_comm]
    rw [List.foldl_cons, ih, hone, or_assoc]
    simp

/-- What the table says of a key, it has said before or one of the entries says. -/
theorem lookup_foldl_recordEntry (h : (entries.foldl ControlStore.recordEntry records).lookup key = some f) :
    records.lookup key = some f ∨ ∃ entry ∈ entries, entry.2.2 = f := by
  induction entries generalizing records with
  | nil => exact .inl h
  | cons entry entries ih =>
    rw [List.foldl_cons] at h
    rcases ih h with hone | ⟨entry', hentry', hf⟩
    · unfold ControlStore.recordEntry at hone
      split_ifs at hone
      · exact .inl hone
      · by_cases hkey : key = (entry.1, entry.2.1)
        · subst hkey
          rw [AList.lookup_insert] at hone
          exact .inr ⟨entry, by simp, Option.some.inj hone⟩
        · rw [AList.lookup_insert_ne hkey] at hone
          exact .inl hone
    · exact .inr ⟨entry', by simp [hentry'], hf⟩

end Records

theorem generated_ne_empty {libs : Libs} {n : Nat} {name : String} (h : name ∈ generated libs n) :
    name ≠ "" := by
  rintro rfl
  obtain ⟨k, -, -, x, hx⟩ := Stamped.mem (generated_stamped n) h
  have hempty : "".toList = [] := rfl
  rw [hempty] at hx
  simp at hx

section Unfilled

variable {libs : Libs} {settings : Settings} {o : Origin} {C P : List Entry} {w w' : World} {p : Progress}
  {f name : String} {r : WalRecord} {key : String × Nat}

theorem hasRows_append : HasRows libs (C ++ P) key ↔ HasRows libs C key ∨ HasRows libs P key := by
  unfold HasRows
  constructor
  · intro h
    obtain ⟨e, he, hkey⟩ := h
    rcases List.mem_append.mp he with he | he
    · exact .inl ⟨e, he, hkey⟩
    · exact .inr ⟨e, he, hkey⟩
  · intro h
    rcases h with ⟨e, he, hkey⟩ | ⟨e, he, hkey⟩
    · exact ⟨e, List.mem_append_left P he, hkey⟩
    · exact ⟨e, List.mem_append_right C he, hkey⟩

theorem not_hasRows_nil : ¬HasRows libs [] key := by
  intro h
  obtain ⟨e, he, -⟩ := h
  cases he

namespace Unfilled

/-- Only the table and the manifest count. -/
theorem of_same (h : Unfilled libs C P w p)
    (hrecords : w'.control.materializedWalRecords = w.control.materializedWalRecords)
    (hfiles : w'.control.parquetFiles = w.control.parquetFiles) : Unfilled libs C P w' p where
  keys key := by
    rw [hrecords]
    exact h.keys key
  entries := h.entries
  blank key f hl := by
    rw [hrecords] at hl
    exact h.blank key f hl
  named := by
    rw [hfiles]
    exact h.named

/-- A record more in the batch: one entry for each of its rows. -/
theorem read (h : Unfilled libs C P w p) {rs : List Row} (hrows : rows libs r.payload f r.start = .ok rs) :
    Unfilled libs C (P ++ [(f, r)]) w { p with batch := p.batch.add f r rs } where
  keys := h.keys
  entries key := by
    have hone : (∃ entry ∈ rs.map fun _ => (f, r.start, ""), (entry.1, entry.2.1) = key) ↔
        HasRows libs [(f, r)] key := by
      have hrowsOf : rowsOf libs (f, r) = rs := rowsOf_ok hrows
      cases rs with
      | nil => simp [HasRows, hrowsOf]
      | cons row rs => simp [HasRows, hrowsOf, Entry.key]
    rw [hasRows_append, ← h.entries, ← hone]
    simp only [Batch.add, List.mem_append, or_and_right, exists_or]
  blank := h.blank
  named := h.named

/-- The commit of the batch. The entries have the placeholder that the batch was given. -/
theorem flush (h : Unfilled libs C P w p) (hname : ∃ n, name ∈ generated libs n) (n total : Nat) :
    Unfilled libs (C ++ P) [] (w.exec libs settings (.commitBatch name n
      (p.batch.entries.map fun (f, off, _) => (f, off, "")) p.batch.offsets)).2 ⟨{}, total⟩ where
  keys key := by
    have hentries : (∃ entry ∈ p.batch.entries.map fun (f, off, _) => (f, off, ""),
        (entry.1, entry.2.1) = key) ↔ HasRows libs P key := by
      rw [← h.entries]
      simp
    simp only [World.exec, ControlStore.commitBatch]
    rw [mem_foldl_recordEntry, h.keys, hentries, hasRows_append]
  entries key := by
    constructor
    · intro hentry
      obtain ⟨entry, he, -⟩ := hentry
      cases he
    · exact fun hrows => absurd hrows not_hasRows_nil
  blank key f hl := by
    simp only [World.exec, ControlStore.commitBatch] at hl
    rcases lookup_foldl_recordEntry hl with hold | ⟨entry, hentry, rfl⟩
    · exact h.blank key f hold
    · obtain ⟨e, -, rfl⟩ := List.mem_map.mp hentry
      rfl
  named := by
    obtain ⟨k, hk⟩ := hname
    intro hmem
    rcases (AList.mem_insert _).mp hmem with heq | hmem
    · exact generated_ne_empty hk heq.symm
    · exact h.named hmem

/-- A compaction moves the rows and leaves the table alone. -/
theorem compact (h : Unfilled libs C P w p) (hgenerated : ∃ n, name ∈ generated libs n)
    (hname : name ∉ w.control.parquetFiles) (n : Nat) (merged : List String) :
    Unfilled libs C P (w.exec libs settings (.commitCompaction name n merged)).2 p := by
  have hrecords : (w.exec libs settings (.commitCompaction name n merged)).2.control.materializedWalRecords =
      w.control.materializedWalRecords := by
    simp only [World.exec, if_neg hname]
    rfl
  refine ⟨fun key => ?_, h.entries, fun key f hl => ?_, fun hmem => ?_⟩
  · rw [hrecords]
    exact h.keys key
  · rw [hrecords] at hl
    exact h.blank key f hl
  · obtain ⟨k, hk⟩ := hgenerated
    rcases (mem_commitCompaction hname n).mp hmem with heq | hmem
    · exact generated_ne_empty hk heq.symm
    · exact h.named hmem

theorem bookkeeping : Bookkeeping libs settings Unguarded o (Unfilled libs) where
  quiet h hq := h.of_same hq.records hq.files
  read h _ _ _ _ _ _ hrows := h.read hrows
  flush h _ _ hgenerated _ _ := h.flush hgenerated _ _
  mark h _ _ _ := h.of_same rfl rfl
  quarantine _ h _ _ _ _ _ := h.of_same rfl rfl
  compact n h hgenerated hname _ := h.compact hgenerated hname n _
  delete {C P w p f} h _ _ _ _ := by
    cases hl : w.walDir.lookup f with
    | none =>
      simp only [World.exec, hl]
      exact h
    | some bytes =>
      simp only [World.exec, hl]
      exact h.of_same rfl rfl

theorem account {M : Nat} {Stop : World → Prop} : Account libs M Stop (Unfilled libs) where
  bookkeeping _ := bookkeeping
  relocked hlocks h := by
    obtain ⟨e, n, l, renamed, rfl⟩ := hlocks
    exact h.of_same rfl rfl
  initial {w} h := by
    refine ⟨fun key => ?_, fun key => ?_, fun key f hl => ?_, fun hmem => ?_⟩
    · rw [h.control]
      exact iff_of_false (AList.notMem_empty key) not_hasRows_nil
    · refine iff_of_false (fun hentry => ?_) not_hasRows_nil
      obtain ⟨entry, he, -⟩ := hentry
      cases he
    · rw [h.control] at hl
      cases hl
    · rw [h.control] at hmem
      exact AList.notMem_empty "" hmem
  gateway _ h hs := by
    obtain ⟨f, bytes, -, rfl⟩ := hs.extends
    exact h.of_same rfl rfl
  drop _ h _ := by
    refine ⟨h.keys, fun key => iff_of_false (fun hentry => ?_) not_hasRows_nil, h.blank, h.named⟩
    obtain ⟨entry, he, -⟩ := hentry
    cases he

end Unfilled

end Unfilled

theorem Ledger.visible_eq_nil {libs : Libs} {M : Nat} {C P : List Entry} {w : World} {p : Progress}
    (L : Ledger libs M C P w p) : w.visible = [] ↔ ∀ e ∈ C, rowsOf libs e = [] := by
  rw [← List.flatMap_eq_nil_iff]
  constructor
  · intro hnil
    have hvisible := L.visible
    rw [hnil] at hvisible
    exact List.nil_perm.mp hvisible
  · intro hnil
    have hvisible := L.visible
    rw [hnil] at hvisible
    exact List.perm_nil.mp hvisible

/-- At every moment of every run: the table is right as long as no row has been committed,
and wrong from the first one on. So it stays right where no record has a span. -/
theorem provenance_exact {libs : Libs} (hlibs : FreshNames libs) {M : Nat} {Stop : World → Prop}
    {w : World} (h : Observed libs M Stop w) :
    (Provenance w ↔ w.visible = []) ∧ (Spanless libs M w → Provenance w) := by
  obtain ⟨C, P, p, L, hU⟩ := h.accounted Unfilled.account hlibs
  have hexact : Provenance w ↔ w.visible = [] := by
    constructor
    · intro hprovenance
      by_contra hne
      obtain ⟨row, hrow⟩ := List.exists_mem_of_ne_nil _ hne
      obtain ⟨f, hf, hrow⟩ := List.mem_flatMap.mp hrow
      have hcommitted := mem_committedNames.mp hf
      have hentry := hprovenance.traced f hcommitted row hrow
      obtain rfl := hU.blank _ _ hentry
      exact hU.named (isCommitted_mem hcommitted)
    · intro hnil
      refine ⟨fun f hf row hrow => ?_, fun key f hl => ?_⟩
      · have hmem : row ∈ w.visible := List.mem_flatMap.mpr ⟨f, mem_committedNames.mpr hf, hrow⟩
        rw [hnil] at hmem
        cases hmem
      · have hkey : key ∈ w.control.materializedWalRecords :=
          AList.lookup_isSome.mp (by rw [hl]; rfl)
        obtain ⟨e, he, -, hne⟩ := (hU.keys key).mp hkey
        exact absurd (L.visible_eq_nil.mp hnil e he) hne
  refine ⟨hexact, fun hspanless => hexact.mpr ?_⟩
  apply L.visible_eq_nil.mpr
  intro e he
  exact hspanless e.1 e.2 (L.record e (List.mem_append_left P he))

/-- A segment with a record without spans, after a run of `materialize`. -/
def spanlessRun : World :=
  ((World.ofSegments (AList.insert "wal-0.wal" (encodeRecord spanlessPayload) ∅)).follow sampleLibs {} 70
    (materialize sampleLibs {} ⟨0, 0⟩)).2

theorem provenance_exact_spanless : Provenance spanlessRun ∧ spanlessRun.quarantined = [] := by
  have hrun : Prog.Runs (regular sampleLibs {}) (materialize sampleLibs {} ⟨0, 0⟩,
      World.ofSegments (AList.insert "wal-0.wal" (encodeRecord spanlessPayload) ∅)) (.ret 0, spanlessRun) :=
    World.follow_outcome (r := .ok 0) (by decide +kernel)
  have hreach : Reachable sampleLibs (64 * 1024 * 1024) (fun _ => True) spanlessRun :=
    .returned (.start (initial_ofSegments _ _)) (.materialize (by decide)) rfl (regular_faulty hrun)
  refine ⟨(provenance_exact sampleLibs_freshNames (.rest hreach)).2 ?_, by decide +kernel⟩
  intro f r hr
  by_cases hf : f = "wal-0.wal"
  · subst hf
    have hrecords := (@mem_walRecordsFrom "wal-0.wal" _ _ _).mpr hr
    have hnone : ∀ r ∈ (walRecordsFrom "wal-0.wal" (spanlessRun.written "wal-0.wal") 0
        (64 * 1024 * 1024)).1, rowsOf sampleLibs ("wal-0.wal", r) = [] := by decide +kernel
    exact hnone r hrecords
  · have hwal : spanlessRun.walDir.keys = ["wal-0.wal"] := by decide +kernel
    have hunlinked : spanlessRun.history.unlinked.keys = [] := by decide +kernel
    have hnowhere : f ∉ spanlessRun.walDir ∧ f ∉ spanlessRun.history.unlinked := by
      rw [AList.mem_keys, AList.mem_keys, hwal, hunlinked]
      simpa using hf
    have hle := hr.2.stop_le
    have hlt := hr.2.start_lt_stop
    rw [World.written, AList.lookup_eq_none.mpr hnowhere.1, AList.lookup_eq_none.mpr hnowhere.2] at hle
    simp at hle
    omega

/-- After one run of `materialize` the entries name no file. -/
theorem not_provenance : ¬ ∀ (libs : Libs) (M : Nat) (Stop : World → Prop) (w : World),
    FreshNames libs → Observed libs M Stop w → Provenance w := by
  intro h
  have hprovenance := h _ _ _ _ sampleLibs_freshNames (.rest twoFiles_reachable)
  have hrow : ∃ f ∈ twoFiles.committedNames, ∃ row ∈ twoFiles.rowsIn f,
      twoFiles.control.materializedWalRecords.lookup (sourceKey row) = some "" ∧ f ≠ "" := by
    decide +kernel
  obtain ⟨f, hf, row, hrow, hentry, hne⟩ := hrow
  have htraced := hprovenance.traced f (mem_committedNames.mp hf) row hrow
  rw [hentry] at htraced
  exact hne (Option.some.inj htraced).symm

end Lrcp.Store
