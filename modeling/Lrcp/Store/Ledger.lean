import Lrcp.Store.Visible
import Lrcp.Store.SegmentRules

namespace Lrcp.Store

open Lrcp.Wal Lrcp.Otlp Lrcp.Framework

/-- A record and the segment it is in. -/
abbrev Entry := String × WalRecord

def Entry.key (e : Entry) : String × Nat := (e.1, e.2.start)

/-- The rows of a record, none when it cannot be parsed. -/
def rowsOf (libs : Libs) (e : Entry) : List Row :=
  match rows libs e.2.payload e.1 e.2.start with
  | .ok rs => rs
  | .error _ => []

/-- The records that have rows. -/
def withRows (libs : Libs) (es : List Entry) : List Entry := es.filter fun e => rowsOf libs e ≠ []

theorem mem_withRows {libs : Libs} {es : List Entry} {e : Entry} :
    e ∈ withRows libs es ↔ e ∈ es ∧ rowsOf libs e ≠ [] := by
  simp [withRows]

/-- Records without rows do not count. -/
theorem flatMap_withRows (libs : Libs) (es : List Entry) :
    (withRows libs es).flatMap (rowsOf libs) = es.flatMap (rowsOf libs) := by
  induction es with
  | nil => rfl
  | cons e es ih =>
    unfold withRows at ih ⊢
    rw [List.filter_cons]
    split_ifs with he
    · rw [List.flatMap_cons, List.flatMap_cons, ih]
    · have hnil : rowsOf libs e = [] := by simpa using he
      rw [List.flatMap_cons, hnil, List.nil_append, ih]

/-- What has become of the records: those in `C` are committed, those in `P` are
in the batch. No record is in either of them twice, and both are behind the
position of their segment. -/
structure Ledger (libs : Libs) (M : Nat) (C P : List Entry) (w : World) (p : Progress) : Prop where
  stored : ∀ f, w.isCommitted f = true →
    ∃ file, w.parquetDir.lookup f = some file ∧ file.footer = true ∧ file.rows ≠ []
  visible : w.visible.Perm (C.flatMap (rowsOf libs))
  batch : p.batch.rows = P.flatMap (rowsOf libs)
  distinct : ((C ++ P).map Entry.key).Nodup
  record : ∀ e ∈ C ++ P, HasRecord M (w.written e.1) e.2
  parsed : ∀ e ∈ C ++ P, rows libs e.2.payload e.1 e.2.start = .ok (rowsOf libs e)
  fits : ∀ e ∈ C, ∀ row ∈ rowsOf libs e, row.fitsSchema = true
  settled : ∀ e ∈ C, e.2.stop ≤ w.maxOffset e.1
  passed : ∀ e ∈ P, e.2.stop ≤ w.position p.batch e.1
  ahead : ∀ f q, p.batch.offsets.lookup f = some q → w.maxOffset f ≤ q
  watermark : ∀ f, Boundary M (w.written f) (w.maxOffset f)
  reached : ∀ f, Boundary M (w.written f) (w.position p.batch f)
  dirty : ∀ f ∈ w.quarantined, ¬Boundary M (w.written f) (w.written f).length

section World

variable {libs : Libs} {settings : Settings} {w w' : World} {f g : String}

theorem written_of_mem (h : f ∈ w.walDir) : w.written f = w.content f := by
  obtain ⟨bytes, hbytes⟩ := Option.isSome_iff_exists.mp (AList.lookup_isSome.mpr h)
  unfold World.written World.content
  rw [hbytes]
  rfl

theorem Quiet.written (h : Quiet w w') (f : String) : w'.written f = w.written f := by
  rw [World.written, h.walDir, h.unlinked, World.written]

theorem written_unlinkWal :
    (w.exec libs settings (.unlinkWal f)).2.written g = w.written g := by
  cases hl : w.walDir.lookup f with
  | none => simp only [World.exec, hl]
  | some bytes =>
    simp only [World.exec, hl, World.written]
    by_cases h : g = f
    · subst h
      rw [AList.lookup_erase, AList.lookup_insert, hl]
      rfl
    · rw [AList.lookup_erase_ne h, AList.lookup_insert_ne h]

theorem rowsOf_ok {e : Entry} {rs : List Row} (h : rows libs e.2.payload e.1 e.2.start = .ok rs) :
    rowsOf libs e = rs := by
  rw [rowsOf, h]

end World

namespace Ledger

variable {libs : Libs} {settings : Settings} {M : Nat} {C P : List Entry} {w w' : World}
  {p : Progress} {f name : String} {r : WalRecord}

theorem maxOffset_le_position (h : Ledger libs M C P w p) (f : String) :
    w.maxOffset f ≤ w.position p.batch f := by
  unfold World.position Batch.offset
  cases hl : p.batch.offsets.lookup f with
  | none => exact Nat.le_refl _
  | some q => exact h.ahead f q hl

theorem stop_le (h : Ledger libs M C P w p) {e : Entry} (he : e ∈ C ++ P) :
    e.2.stop ≤ w.position p.batch e.1 := by
  rcases List.mem_append.mp he with he | he
  · exact (h.settled e he).trans (h.maxOffset_le_position e.1)
  · exact h.passed e he

/-- A record at or behind the position is new. -/
theorem not_mem_of_le (h : Ledger libs M C P w p) (hle : w.position p.batch f ≤ r.start) :
    (f, r.start) ∉ (C ++ P).map Entry.key := by
  intro hmem
  obtain ⟨e, he, hkey⟩ := List.mem_map.mp hmem
  obtain ⟨rfl, hstart⟩ := Prod.mk.inj hkey
  have hlt := (h.record e he).2.start_lt_stop
  have hstop := h.stop_le he
  omega

/-- What the ledger speaks of has not changed, but segments may have grown. -/
theorem grow (h : Ledger libs M C P w p)
    (hfiles : w'.control.parquetFiles = w.control.parquetFiles)
    (hdir : ∀ f, w.isCommitted f = true → w'.parquetDir.lookup f = w.parquetDir.lookup f)
    (hoffsets : w'.control.materializedWalOffsets = w.control.materializedWalOffsets)
    (hevents : w'.control.walCorruptionEvents = w.control.walCorruptionEvents)
    (hgrow : ∀ f, w.written f <+: w'.written f)
    (hdirty : ∀ f ∈ w.quarantined, ¬Boundary M (w'.written f) (w'.written f).length) :
    Ledger libs M C P w' p := by
  have hcommitted : ∀ f, w'.isCommitted f = w.isCommitted f := by
    intro f
    rw [World.isCommitted, hfiles, World.isCommitted]
  have hmax : ∀ f, w'.maxOffset f = w.maxOffset f := by
    intro f
    rw [World.maxOffset, hoffsets, World.maxOffset]
  have hposition : ∀ f, w'.position p.batch f = w.position p.batch f := by
    intro f
    rw [World.position, hmax, World.position]
  refine
    { stored := fun f hf => ?_
      visible := by rw [visible_congr hfiles hdir]; exact h.visible
      batch := h.batch
      distinct := h.distinct
      record := fun e he => (h.record e he).grow (hgrow e.1)
      parsed := h.parsed
      fits := h.fits
      settled := fun e he => by rw [hmax]; exact h.settled e he
      passed := fun e he => by rw [hposition]; exact h.passed e he
      ahead := fun f q hl => by rw [hmax]; exact h.ahead f q hl
      watermark := fun f => by rw [hmax]; exact (h.watermark f).grow (hgrow f)
      reached := fun f => by rw [hposition]; exact (h.reached f).grow (hgrow f)
      dirty := fun f hf => ?_ }
  · rw [hcommitted] at hf
    rw [hdir f hf]
    exact h.stored f hf
  · rw [World.quarantined, hevents] at hf
    exact hdirty f hf

theorem quiet (h : Ledger libs M C P w p) (hq : Quiet w w') : Ledger libs M C P w' p :=
  h.grow hq.files hq.committed hq.offsets hq.events
    (fun f => by rw [hq.written]) fun f hf => by rw [hq.written]; exact h.dirty f hf

/-- A record more in the batch. -/
theorem read (h : Ledger libs M C P w p) {rs : List Row} (hf : f ∈ w.walDir)
    (hstart : r.start = w.position p.batch f) (hrec : IsRecord M (w.content f) r)
    (hrows : rows libs r.payload f r.start = .ok rs) :
    Ledger libs M C (P ++ [(f, r)]) w { p with batch := p.batch.add f r rs } := by
  have hrec' : HasRecord M (w.written f) r := by
    refine ⟨?_, by rw [written_of_mem hf]; exact hrec⟩
    rw [hstart]
    exact h.reached f
  have hlt := hrec.start_lt_stop
  have hrowsOf : rowsOf libs (f, r) = rs := rowsOf_ok hrows
  have hpos : ∀ g, w.position p.batch g ≤ w.position (p.batch.add f r rs) g := by
    intro g
    rw [position_add]
    split_ifs with hg
    · subst hg
      omega
    · exact Nat.le_refl _
  refine
    { stored := h.stored
      visible := h.visible
      batch := ?_
      distinct := ?_
      record := fun e he => ?_
      parsed := fun e he => ?_
      fits := h.fits
      settled := h.settled
      passed := fun e he => ?_
      ahead := fun g q hl => ?_
      watermark := h.watermark
      reached := fun g => ?_
      dirty := h.dirty }
  · change p.batch.rows ++ rs = _
    rw [h.batch, List.flatMap_append, List.flatMap_singleton, hrowsOf]
  · rw [← List.append_assoc, List.map_append]
    refine List.nodup_append.mpr ⟨h.distinct, List.nodup_singleton _, fun a ha b hb => ?_⟩
    obtain rfl := List.mem_singleton.mp hb
    rintro rfl
    exact h.not_mem_of_le (Nat.le_of_eq hstart.symm) ha
  · rw [← List.append_assoc] at he
    rcases List.mem_append.mp he with he | he
    · exact h.record e he
    · obtain rfl := List.mem_singleton.mp he
      exact hrec'
  · rw [← List.append_assoc] at he
    rcases List.mem_append.mp he with he | he
    · exact h.parsed e he
    · obtain rfl := List.mem_singleton.mp he
      rw [hrowsOf]
      exact hrows
  · rcases List.mem_append.mp he with he | he
    · exact (h.passed e he).trans (hpos e.1)
    · obtain rfl := List.mem_singleton.mp he
      rw [position_add, if_pos rfl]
  · have hmax := h.maxOffset_le_position g
    have hg := hpos g
    have hq : w.position (p.batch.add f r rs) g = q := by
      unfold World.position Batch.offset
      rw [hl, Option.getD_some]
    omega
  · change Boundary M (w.written g) (w.position (p.batch.add f r rs) g)
    rw [position_add]
    split_ifs with hg
    · subst hg
      exact hrec'.boundary_stop
    · exact h.reached g

/-- The commit of the batch. -/
theorem flush (h : Ledger libs M C P w p) (hname : name ∉ w.control.parquetFiles)
    (hne : p.batch.rows ≠ [])
    (hfits : ∀ row ∈ p.batch.rows, row.fitsSchema = true)
    (hl : w.parquetDir.lookup name = some ⟨p.batch.rows, true⟩) (n total : Nat)
    (entries : List (String × Nat × String)) :
    Ledger libs M (C ++ P) [] (w.exec libs settings
      (.commitBatch name n entries p.batch.offsets)).2 ⟨{}, total⟩ := by
  have hposition : ∀ g, (w.exec libs settings
      (.commitBatch name n entries p.batch.offsets)).2.position {} g = w.position p.batch g :=
    position_commitBatch h.ahead name n entries
  have hmax : ∀ g, (w.exec libs settings (.commitBatch name n entries p.batch.offsets)).2.maxOffset g =
      w.position p.batch g := hposition
  refine
    { stored := fun f hf => ?_
      visible := ?_
      batch := rfl
      distinct := by rw [List.append_nil]; exact h.distinct
      record := fun e he => h.record e (by rwa [List.append_nil] at he)
      parsed := fun e he => h.parsed e (by rwa [List.append_nil] at he)
      fits := fun e he => ?_
      settled := fun e he => ?_
      passed := fun e he => by cases he
      ahead := fun f q hl => by cases hl
      watermark := fun f => ?_
      reached := fun f => ?_
      dirty := h.dirty }
  · rw [isCommitted_commitBatch] at hf
    by_cases hfn : f = name
    · subst hfn
      exact ⟨_, hl, rfl, hne⟩
    · exact h.stored f (by simpa [hfn] using hf)
  · rw [List.flatMap_append, ← h.batch]
    exact (visible_commitBatch hname hl n entries p.batch.offsets).trans (h.visible.append_right _)
  · rcases List.mem_append.mp he with he | he
    · exact h.fits e he
    · rw [h.batch] at hfits
      exact fun row hrow => hfits row (List.mem_flatMap.mpr ⟨e, he, hrow⟩)
  · rw [hmax]
    exact h.stop_le he
  · rw [hmax]
    exact h.reached f
  · rw [hposition]
    exact h.reached f

/-- The mark on a segment read to its end moves no position. -/
theorem mark (h : Ledger libs M C P w p) {size : Nat} (hpos : w.position p.batch f = size) :
    Ledger libs M C P (w.exec libs settings (.commitMark f size)).2 p := by
  have hposition : ∀ g, (w.exec libs settings (.commitMark f size)).2.position p.batch g =
      w.position p.batch g := position_commitMark hpos
  have hle : ∀ g, w.maxOffset g ≤ (w.exec libs settings (.commitMark f size)).2.maxOffset g ∧
      (w.exec libs settings (.commitMark f size)).2.maxOffset g ≤ w.position p.batch g := by
    intro g
    have hg := h.maxOffset_le_position g
    rw [maxOffset_commitMark]
    split_ifs with hgf
    · obtain ⟨rfl, -⟩ := hgf
      omega
    · exact ⟨Nat.le_refl _, hg⟩
  refine
    { stored := h.stored
      visible := h.visible
      batch := h.batch
      distinct := h.distinct
      record := h.record
      parsed := h.parsed
      fits := h.fits
      settled := fun e he => (h.settled e he).trans (hle e.1).1
      passed := fun e he => by rw [hposition]; exact h.passed e he
      ahead := fun g q hl => ?_
      watermark := fun g => ?_
      reached := fun g => by rw [hposition]; exact h.reached g
      dirty := h.dirty }
  · have hq : w.position p.batch g = q := by
      unfold World.position Batch.offset
      rw [hl, Option.getD_some]
    have := (hle g).2
    omega
  · rw [maxOffset_commitMark]
    split_ifs with hgf
    · obtain ⟨rfl, -⟩ := hgf
      rw [← hpos]
      exact h.reached g
    · exact h.watermark g

/-- A segment is quarantined that cannot be read to its end. -/
theorem quarantine (h : Ledger libs M C P w p)
    (hf : ¬Boundary M (w.written f) (w.written f).length) (offset size : Nat) (reason : String) :
    Ledger libs M C P (w.exec libs settings (.commitQuarantine f offset reason size)).2 p :=
  { h with
    dirty := fun g hg => by
      have hq : (w.exec libs settings (.commitQuarantine f offset reason size)).2.quarantined =
          w.quarantined ++ [f] := by
        simp [World.exec, World.quarantined, ControlStore.commitQuarantine]
      rw [hq] at hg
      rcases List.mem_append.mp hg with hg | hg
      · exact h.dirty g hg
      · obtain rfl := List.mem_singleton.mp hg
        exact hf }

/-- A compaction changes nothing that is visible. -/
theorem compact (h : Ledger libs M C P w p) (hname : name ∉ w.control.parquetFiles)
    {merged : List String} {files : List ParquetFile} (hnodup : merged.Nodup)
    (hmerged : ∀ f ∈ merged, w.isCommitted f = true)
    (hfiles : merged.mapM (fun f => w.parquetDir.lookup f) = some files)
    (hne : files.flatMap ParquetFile.rows ≠ [])
    (hl : w.parquetDir.lookup name = some ⟨files.flatMap ParquetFile.rows, true⟩) (n : Nat) :
    Ledger libs M C P (w.exec libs settings (.commitCompaction name n merged)).2 p := by
  have hvisible : (w.exec libs settings (.commitCompaction name n merged)).2.visible.Perm w.visible :=
    visible_commitCompaction hname hnodup hmerged hfiles hl n
  have hstored : ∀ f, (w.exec libs settings (.commitCompaction name n merged)).2.isCommitted f = true →
      ∃ file, w.parquetDir.lookup f = some file ∧ file.footer = true ∧ file.rows ≠ [] := by
    intro f hf
    rw [isCommitted_commitCompaction hname n hmerged] at hf
    by_cases hfn : f = name
    · subst hfn
      exact ⟨_, hl, rfl, hne⟩
    · simp only [hfn, decide_false, Bool.false_or, Bool.and_eq_true] at hf
      exact h.stored f hf.2
  simp only [World.exec, if_neg hname] at hvisible hstored ⊢
  exact { h with
    stored := hstored
    visible := hvisible.trans h.visible }

/-- The deletion of a segment leaves what was written to it. -/
theorem delete (h : Ledger libs M C P w p) :
    Ledger libs M C P (w.exec libs settings (.unlinkWal f)).2 p := by
  have hrest : (w.exec libs settings (.unlinkWal f)).2.control = w.control ∧
      (w.exec libs settings (.unlinkWal f)).2.parquetDir = w.parquetDir := by
    cases hl : w.walDir.lookup f with
    | none => simp only [World.exec, hl, and_self]
    | some bytes => simp only [World.exec, hl, and_self]
  apply h.grow
  · rw [hrest.1]
  · exact fun _ _ => by rw [hrest.2]
  · rw [hrest.1]
  · rw [hrest.1]
  · exact fun g => by rw [written_unlinkWal]
  · exact fun g hg => by rw [written_unlinkWal]; exact h.dirty g hg

/-- The batch is dropped. -/
theorem drop (h : Ledger libs M C P w p) : Ledger libs M C [] w {} where
  stored := h.stored
  visible := h.visible
  batch := rfl
  distinct := by
    have hd := h.distinct
    rw [List.map_append, List.nodup_append] at hd
    rw [List.append_nil]
    exact hd.1
  record e he := h.record e (List.mem_append_left P (by rwa [List.append_nil] at he))
  parsed e he := h.parsed e (List.mem_append_left P (by rwa [List.append_nil] at he))
  fits := h.fits
  settled := h.settled
  passed e he := by cases he
  ahead f q hl := by cases hl
  watermark := h.watermark
  reached := h.watermark
  dirty := h.dirty

end Ledger

end Lrcp.Store
