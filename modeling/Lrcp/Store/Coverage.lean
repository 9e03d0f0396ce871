import Lrcp.Store.CleanupRules
import Lrcp.Store.Ledger

namespace Lrcp.Store

open Lrcp.Wal Lrcp.Otlp Lrcp.Framework

/-- No record is lost: a record without rows needs nothing, and any other one is
committed, in the batch, or still to be read. `tracked` adds what it takes for
this to outlive a stop and the deletion of segments: what is in the batch can
be read again, and in a marked segment nothing is left to be read. -/
structure Coverage (libs : Libs) (M : Nat) (tracked : Prop) (C P : List Entry) (w : World)
    (p : Progress) : Prop where
  covered : ∀ f r, HasRecord M (w.written f) r → rows libs r.payload f r.start = .ok [] ∨
    (f, r) ∈ C ++ P ∨
    (w.position p.batch f ≤ r.start ∧ f ∉ w.quarantined ∧ (tracked → f ∈ w.walDir))
  pending : tracked → ∀ e ∈ P, rowsOf libs e ≠ [] → e.1 ∉ w.quarantined ∧ e.1 ∈ w.walDir ∧
    (w.history.unflushed = false → w.maxOffset e.1 ≤ e.2.start ∧ w.isFullyProcessed e.1 = false)
  marked : tracked → ∀ f, w.isFullyProcessed f = true → f ∈ w.walDir → w.Sealed f ∧
    ∀ r, HasRecord M (w.content f) r → rows libs r.payload f r.start = .ok [] ∨ (f, r) ∈ C ++ P
  known : tracked → ∀ f, w.isFullyProcessed f = true → f ∈ w.walDir ∨ f ∈ w.history.unlinked

namespace Coverage

variable {libs : Libs} {settings : Settings} {M : Nat} {tracked : Prop} {C P : List Entry}
  {w w' : World} {p : Progress} {f name : String} {r : WalRecord}

theorem quiet (h : Coverage libs M tracked C P w p) (hq : Quiet w w') :
    Coverage libs M tracked C P w' p where
  covered g r' hr := by
    rw [hq.written] at hr
    rw [hq.position, hq.quarantined, hq.walDir]
    exact h.covered g r' hr
  pending ht e he hne := by
    rw [hq.quarantined, hq.walDir, hq.unflushed, hq.maxOffset, hq.isFullyProcessed]
    exact h.pending ht e he hne
  marked ht g hg hmem := by
    rw [hq.isFullyProcessed] at hg
    rw [hq.walDir] at hmem
    obtain ⟨hsealed, hall⟩ := h.marked ht g hg hmem
    refine ⟨hq.sealed hsealed, fun r' hr => ?_⟩
    rw [hq.content] at hr
    exact hall r' hr
  known ht g hg := by
    rw [hq.isFullyProcessed] at hg
    rw [hq.walDir, hq.unlinked]
    exact h.known ht g hg

/-- The record read is the first one behind the position. -/
theorem read (h : Coverage libs M tracked C P w p) (L : Ledger libs M C P w p) {rs : List Row}
    (hf : f ∈ w.walDir) (hstart : r.start = w.position p.batch f) (hrec : IsRecord M (w.content f) r)
    (hrows : rows libs r.payload f r.start = .ok rs) :
    Coverage libs M tracked C (P ++ [(f, r)]) w { p with batch := p.batch.add f r rs } := by
  have hhas : HasRecord M (w.written f) r := by
    refine ⟨?_, by rw [written_of_mem hf]; exact hrec⟩
    rw [hstart]
    exact L.reached f
  have hnew : (f, r) ∉ C ++ P := fun hmem =>
    L.not_mem_of_le (Nat.le_of_eq hstart.symm) (List.mem_map.mpr ⟨(f, r), hmem, rfl⟩)
  refine ⟨fun g r' hr => ?_, fun ht e he hne => ?_, fun ht g hg hmem => ?_, h.known⟩
  · rw [← List.append_assoc]
    rcases h.covered g r' hr with hnil | hmem | ⟨hle, hrest⟩
    · exact .inl hnil
    · exact .inr (.inl (List.mem_append_left _ hmem))
    · by_cases hgf : g = f
      · subst hgf
        rcases hhas.eq_or_stop_le hr (hstart.trans_le hle) with rfl | hstop
        · exact .inr (.inl (by simp))
        · refine .inr (.inr ⟨?_, hrest⟩)
          rw [position_add, if_pos rfl]
          exact hstop
      · refine .inr (.inr ⟨?_, hrest⟩)
        rw [position_add, if_neg hgf]
        exact hle
  · rcases List.mem_append.mp he with he | he
    · exact h.pending ht e he hne
    · obtain rfl := List.mem_singleton.mp he
      rcases h.covered f r hhas with hnil | hmem | ⟨-, hq, -⟩
      · exact absurd (rowsOf_ok hnil) hne
      · exact absurd hmem hnew
      · refine ⟨hq, hf, fun _ => ⟨?_, ?_⟩⟩
        · rw [hstart]
          exact L.maxOffset_le_position f
        · cases hmark : w.isFullyProcessed f with
          | false => rfl
          | true =>
            rw [written_of_mem hf] at hhas
            rcases (h.marked ht f hmark hf).2 r hhas with hnil | hmem
            · exact absurd (rowsOf_ok hnil) hne
            · exact absurd hmem hnew
  · obtain ⟨hsealed, hall⟩ := h.marked ht g hg hmem
    refine ⟨hsealed, fun r' hr => (hall r' hr).imp_right fun hmem' => ?_⟩
    rw [← List.append_assoc]
    exact List.mem_append_left _ hmem'

theorem flush (h : Coverage libs M tracked C P w p) (L : Ledger libs M C P w p) (n total : Nat)
    (entries : List (String × Nat × String)) :
    Coverage libs M tracked (C ++ P) [] (w.exec libs settings
      (.commitBatch name n entries p.batch.offsets)).2 ⟨{}, total⟩ := by
  refine ⟨fun g r' hr => ?_, fun _ e he => (by cases he), fun ht g hg hmem => ?_, fun ht g hg => ?_⟩
  · rw [position_commitBatch L.ahead, List.append_nil]
    exact h.covered g r' hr
  · rw [isFullyProcessed_commitBatch] at hg
    rw [List.append_nil]
    exact h.marked ht g hg hmem
  · rw [isFullyProcessed_commitBatch] at hg
    exact h.known ht g hg

/-- Spans of a marked segment that are still in the batch are noticed. -/
theorem unflushed_commitMark (L : Ledger libs settings.maxWalRecordBytes C P w p) {e : Entry}
    (he : e ∈ P) (hmem : e.1 ∈ w.walDir) (hle : w.maxOffset e.1 ≤ e.2.start)
    (hne : rowsOf libs e ≠ []) : w.hasUncommittedSpans libs settings e.1 = true := by
  have hhas := L.record e (List.mem_append_right C he)
  have hw := L.watermark e.1
  rw [written_of_mem hmem] at hhas hw
  unfold World.hasUncommittedSpans
  rw [List.any_eq_true]
  refine ⟨e.2, mem_walRecordsFrom_of_le hw hhas hle, ?_⟩
  rw [L.parsed e (List.mem_append_right C he)]
  simpa using hne

theorem mark (h : Coverage libs settings.maxWalRecordBytes tracked C P w p)
    (L : Ledger libs settings.maxWalRecordBytes C P w p) (hsealed : w.Sealed f)
    (hpos : w.position p.batch f = (w.content f).length) :
    Coverage libs settings.maxWalRecordBytes tracked C P
      (w.exec libs settings (.commitMark f (w.content f).length)).2 p := by
  refine ⟨fun g r' hr => ?_, fun ht e he hne => ?_, fun ht g hg hmem => ?_, fun ht g hg => ?_⟩
  · rw [position_commitMark hpos]
    exact h.covered g r' hr
  · obtain ⟨hq, hmem, hun⟩ := h.pending ht e he hne
    refine ⟨hq, hmem, fun hflag => ?_⟩
    obtain ⟨hflag, hspans⟩ : w.history.unflushed = false ∧ w.hasUncommittedSpans libs settings f = false := by
      simpa only [World.exec, Bool.or_eq_false_iff] using hflag
    obtain ⟨hle, hmark⟩ := hun hflag
    have hef : e.1 ≠ f := by
      rintro rfl
      rw [unflushed_commitMark L he hmem hle hne] at hspans
      cases hspans
    rw [maxOffset_commitMark, if_neg fun hh => hef hh.1, isFullyProcessed_commitMark]
    exact ⟨hle, by simp [hef, hmark]⟩
  · rw [isFullyProcessed_commitMark, Bool.or_eq_true, decide_eq_true_eq] at hg
    rcases hg with rfl | hg
    · refine ⟨hsealed, fun r' hr => ?_⟩
      replace hr : HasRecord settings.maxWalRecordBytes (w.content g) r' := hr
      have hstop := hr.2.stop_le
      have hlt := hr.2.start_lt_stop
      have hr' : HasRecord settings.maxWalRecordBytes (w.written g) r' := by
        rw [written_of_mem hsealed.1]
        exact hr
      rcases h.covered g r' hr' with hnil | hmem' | ⟨hle, -⟩
      · exact .inl hnil
      · exact .inr hmem'
      · omega
    · exact h.marked ht g hg hmem
  · rw [isFullyProcessed_commitMark, Bool.or_eq_true, decide_eq_true_eq] at hg
    rcases hg with rfl | hg
    · exact .inl hsealed.1
    · exact h.known ht g hg

/-- Where the reader has raised an error no record is left. -/
theorem quarantine (h : Coverage libs M tracked C P w p) (L : Ledger libs M C P w p)
    (hnil : p.batch.rows = []) (hend : ∀ r, r.start = w.position p.batch f → ¬IsRecord M (w.written f) r)
    (offset size : Nat) (reason : String) :
    Coverage libs M tracked C P (w.exec libs settings (.commitQuarantine f offset reason size)).2 p := by
  have hq : (w.exec libs settings (.commitQuarantine f offset reason size)).2.quarantined =
      w.quarantined ++ [f] := by
    simp [World.exec, World.quarantined, ControlStore.commitQuarantine]
  refine ⟨fun g r' hr => ?_, fun _ e he hne => ?_, h.marked, h.known⟩
  · rcases h.covered g r' hr with hnil | hmem | ⟨hle, hnot, hdir⟩
    · exact .inl hnil
    · exact .inr (.inl hmem)
    · refine .inr (.inr ⟨hle, ?_, hdir⟩)
      rw [hq]
      intro hmem
      rcases List.mem_append.mp hmem with hmem | hmem
      · exact hnot hmem
      · obtain rfl := List.mem_singleton.mp hmem
        have hstop := hr.stop_le_end (L.reached g) hend
        have hlt := hr.2.start_lt_stop
        omega
  · rw [L.batch] at hnil
    exact absurd (List.flatMap_eq_nil_iff.mp hnil e he) hne

theorem compact (h : Coverage libs M tracked C P w p) (n : Nat) (merged : List String) :
    Coverage libs M tracked C P (w.exec libs settings (.commitCompaction name n merged)).2 p := by
  simp only [World.exec]
  split_ifs
  · exact h
  · exact ⟨h.covered, h.pending, h.marked, h.known⟩

/-- In a marked segment nothing is left to be read. -/
theorem delete (h : Coverage libs M tracked C P w p) (L : Ledger libs M C P w p)
    (hnil : p.batch.rows = []) (hsealed : w.Sealed f) (hmark : w.isFullyProcessed f = true) :
    Coverage libs M tracked C P (w.exec libs settings (.unlinkWal f)).2 p := by
  obtain ⟨bytes, hl⟩ := Option.isSome_iff_exists.mp (AList.lookup_isSome.mpr hsealed.1)
  have hwritten : ∀ g, (w.exec libs settings (.unlinkWal f)).2.written g = w.written g :=
    fun _ => written_unlinkWal
  simp only [World.exec, hl] at hwritten ⊢
  have herase : ∀ g, g ≠ f → g ∈ w.walDir → g ∈ w.walDir.erase f :=
    fun g hne hg => AList.mem_erase.mpr ⟨hne, hg⟩
  refine ⟨fun g r' hr => ?_, fun _ e he hne => ?_, fun ht g hg hmem => ?_, fun ht g hg => ?_⟩
  · rw [hwritten] at hr
    rcases h.covered g r' hr with hnil | hmem | ⟨hle, hnot, hdir⟩
    · exact .inl hnil
    · exact .inr (.inl hmem)
    · by_cases hgf : g = f
      · subst hgf
        by_cases ht : tracked
        · rw [written_of_mem hsealed.1] at hr
          rcases (h.marked ht g hmark hsealed.1).2 r' hr with hnil | hmem
          · exact .inl hnil
          · exact .inr (.inl hmem)
        · exact .inr (.inr ⟨hle, hnot, fun ht' => absurd ht' ht⟩)
      · exact .inr (.inr ⟨hle, hnot, fun ht => herase g hgf (hdir ht)⟩)
  · rw [L.batch] at hnil
    exact absurd (List.flatMap_eq_nil_iff.mp hnil e he) hne
  · obtain ⟨hgf, hmem⟩ := AList.mem_erase.mp hmem
    obtain ⟨⟨-, a, ha, hlt⟩, hall⟩ := h.marked ht g hg hmem
    refine ⟨⟨herase g hgf hmem, ?_⟩, fun r' hr => hall r' ?_⟩
    · by_cases haf : a = f
      · subst haf
        obtain ⟨-, b, hb, hlt'⟩ := hsealed
        refine ⟨b, herase b ?_ hb, hlt.trans hlt'⟩
        rintro rfl
        exact lt_irrefl _ hlt'
      · exact ⟨a, herase a haf ha, hlt⟩
    · have hc : World.content { w with
          walDir := w.walDir.erase f
          history := { w.history with unlinked := w.history.unlinked.insert f bytes } } g =
          w.content g := by
        unfold World.content
        rw [AList.lookup_erase_ne hgf]
      rw [hc] at hr
      exact hr
  · by_cases hgf : g = f
    · exact .inr ((AList.mem_insert _).mpr (.inl hgf))
    · rcases h.known ht g hg with hmem | hmem
      · exact .inl (herase g hgf hmem)
      · exact .inr ((AList.mem_insert _).mpr (.inr hmem))

/-- Segments grow, with records more only behind those that can be read to their
end, and new ones appear. -/
theorem grow (h : Coverage libs M tracked C P w p) (L : Ledger libs M C P w p) {d : Table Bytes}
    (hd : ∀ f ∈ w.walDir, f ∈ d) (hgrow : ∀ f, w.written f <+: World.written { w with walDir := d } f)
    (hbehind : ∀ f r, HasRecord M (World.written { w with walDir := d } f) r →
      ¬r.stop ≤ (w.written f).length → Boundary M (w.written f) (w.written f).length)
    (hsealed : tracked → ∀ f, w.Sealed f → World.content { w with walDir := d } f = w.content f)
    (hnew : tracked → ∀ f ∈ d, f ∈ w.history.unlinked → f ∈ w.walDir) :
    Coverage libs M tracked C P { w with walDir := d } p := by
  refine ⟨fun g r' hr => ?_, fun ht e he hne => ?_, fun ht g hg hmem => ?_, fun ht g hg => ?_⟩
  · by_cases hstop : r'.stop ≤ (w.written g).length
    · rcases h.covered g r' (hr.shrink (hgrow g) hstop) with hnil | hmem | ⟨hle, hq, hdir⟩
      · exact .inl hnil
      · exact .inr (.inl hmem)
      · exact .inr (.inr ⟨hle, hq, fun ht => hd g (hdir ht)⟩)
    · have hend := (L.reached g).le_length
      have hgrown : World.written { w with walDir := d } g ≠ w.written g := by
        intro heq
        have hle := hr.2.stop_le
        rw [heq] at hle
        exact hstop hle
      refine .inr (.inr ⟨?_, fun hq => L.dirty g hq (hbehind g r' hr hstop), fun _ => ?_⟩)
      · rcases ((L.reached g).grow (hgrow g)).cases hr with hle | hle
        · omega
        · exact hle
      · by_contra hnot
        apply hgrown
        have hnot' : g ∉ w.walDir := fun hmem => hnot (hd g hmem)
        unfold World.written
        rw [AList.lookup_eq_none.mpr hnot, AList.lookup_eq_none.mpr hnot']
  · obtain ⟨hq, hmem, hun⟩ := h.pending ht e he hne
    exact ⟨hq, hd _ hmem, hun⟩
  · have hmem' : g ∈ w.walDir := by
      rcases h.known ht g hg with hmem' | hmem'
      · exact hmem'
      · exact hnew ht g hmem hmem'
    obtain ⟨hseal, hall⟩ := h.marked ht g hg hmem'
    obtain ⟨-, a, ha, hlt⟩ := id hseal
    refine ⟨⟨hmem, a, hd a ha, hlt⟩, fun r' hr => hall r' ?_⟩
    rw [hsealed ht g hseal] at hr
    exact hr
  · exact (h.known ht g hg).imp_left (hd g)

/-- The batch is dropped: its records can be read again. -/
theorem drop (h : Coverage libs M tracked C P w p) (L : Ledger libs M C P w p)
    (hlost : (∀ e ∈ P, rowsOf libs e = []) ∨ (tracked ∧ w.history.unflushed = false)) :
    Coverage libs M tracked C [] w {} := by
  have hP : ∀ g r', (g, r') ∈ P → rows libs r'.payload g r'.start = .ok [] ∨
      (w.maxOffset g ≤ r'.start ∧ g ∉ w.quarantined ∧ (tracked → g ∈ w.walDir) ∧
        (tracked → w.isFullyProcessed g = false)) := by
    intro g r' hmem
    have hparsed := L.parsed (g, r') (List.mem_append_right C hmem)
    by_cases hrows : rowsOf libs (g, r') = []
    · rw [hrows] at hparsed
      exact .inl hparsed
    · rcases hlost with hall | ⟨ht, hflag⟩
      · exact absurd (hall _ hmem) hrows
      · obtain ⟨hq, hdir, hun⟩ := h.pending ht _ hmem hrows
        exact .inr ⟨(hun hflag).1, hq, fun _ => hdir, fun _ => (hun hflag).2⟩
  refine ⟨fun g r' hr => ?_, fun _ e he => (by cases he), fun ht g hg hmem => ?_, h.known⟩
  · rw [List.append_nil]
    rcases h.covered g r' hr with hnil | hmem | ⟨hle, hrest⟩
    · exact .inl hnil
    · rcases List.mem_append.mp hmem with hmem | hmem
      · exact .inr (.inl hmem)
      · rcases hP g r' hmem with hnil | ⟨hle, hq, hdir, -⟩
        · exact .inl hnil
        · exact .inr (.inr ⟨hle, hq, hdir⟩)
    · exact .inr (.inr ⟨(L.maxOffset_le_position g).trans hle, hrest⟩)
  · obtain ⟨hsealed, hall⟩ := h.marked ht g hg hmem
    refine ⟨hsealed, fun r' hr => ?_⟩
    rw [List.append_nil]
    rcases hall r' hr with hnil | hmem'
    · exact .inl hnil
    · rcases List.mem_append.mp hmem' with hmem' | hmem'
      · exact .inr hmem'
      · rcases hP g r' hmem' with hnil | ⟨-, -, -, hno⟩
        · exact .inl hnil
        · rw [hno ht] at hg
          cases hg

end Coverage

end Lrcp.Store
