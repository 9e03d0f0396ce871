import Lrcp.Store.NoLoss

namespace Lrcp.Store

open Lrcp.Wal Lrcp.Otlp Lrcp.Framework

/-- What goes on beside a call: the gateway is at work, and other calls wait for
the lifecycle lock. -/
inductive Beside (w : World) : World → Prop
  | gateway {w'} (h : GatewayStep w w') : Beside w w'
  | waiting {w'} (h : Housekeeping w w') : Beside w w'

/-- The books of a call beside which the gateway is at work. A segment that is not
made of finished records is as it was when the call started, and a marked segment
can be read to its end. -/
structure Attended (libs : Libs) (M : Nat) (o : String → Bytes) (w : World) (p : Progress) :
    Prop where
  origin : ∀ f, w.written f = o f ∨ (Whole (o f) ∧ Whole (w.written f))
  marked : ∀ f ∈ w.walDir, w.isFullyProcessed f = true → Clean M (w.content f)
  books : ∃ C P, Ledger libs M C P w p ∧ Coverage libs M True C P w p

/-- What the reader has refused stays refused, or the segment does not change. -/
def Lasting (M : Nat) (o : String → Bytes) (f : String) (e : WalCorruptionError) (data : Bytes) :
    Prop :=
  Refused f M data e.offset ∨ (¬Whole (o f) ∧ nextRecord f (o f) M e.offset = .error e)

/-- What a call may do to the segments: delete one that is not the last and not
quarantined, that can be read to its end, and of which all records are committed. -/
structure Spares (libs : Libs) (M : Nat) (w w' : World) : Prop where
  kept : ∀ f ∈ w'.walDir, f ∈ w.walDir ∧ w'.content f = w.content f
  deleted : ∀ f ∈ w.walDir, f ∉ w'.walDir → (∃ g ∈ w'.walDir, parseWalKey f < parseWalKey g) ∧
    f ∉ w.quarantined ∧ Clean M (w.content f) ∧
    ∀ r, HasRecord M (w.content f) r → Committed libs w f r
  unlinked : ∀ f ∈ w'.history.unlinked, f ∈ w.history.unlinked ∨ (f ∈ w.walDir ∧ f ∉ w'.walDir)

section Beside

variable {libs : Libs} {settings : Settings} {M : Nat} {o : String → Bytes} {w w' : World}
  {p : Progress} {f : String} {c : Conn} {t : Thread}

theorem Housekeeping.frame (h : Housekeeping w w') : Frame w w' := by
  obtain ⟨n, l, hn, rfl⟩ := h
  exact { Frame.refl w with connections := hn }

theorem Beside.frame (h : Beside w w') : w'.exclusive = w.exclusive ∧ Frame w w' := by
  cases h with
  | gateway h => exact h.frame
  | waiting h => exact ⟨h.quiet.exclusive, h.frame⟩

theorem frame_of_beside (h : Relation.ReflTransGen Beside w w') :
    w'.exclusive = w.exclusive ∧ Frame w w' := by
  induction h with
  | refl => exact ⟨rfl, Frame.refl w⟩
  | tail _ hs ih =>
    obtain ⟨hex, hframe⟩ := hs.frame
    exact ⟨hex.trans ih.1, ih.2.trans hframe⟩

theorem Spares.of_same (hdir : w'.walDir = w.walDir)
    (hunlinked : w'.history.unlinked = w.history.unlinked) : Spares libs M w w' where
  kept f hf := by
    rw [hdir] at hf
    refine ⟨hf, ?_⟩
    rw [World.content, hdir, World.content]
  deleted f hf hdel := by
    rw [hdir] at hdel
    exact absurd hf hdel
  unlinked f hf := by
    rw [hunlinked] at hf
    exact .inl hf

namespace Attended

theorem quiet (h : Attended libs M o w p) (hq : Quiet w w') : Attended libs M o w' p where
  origin f := by
    rw [hq.written]
    exact h.origin f
  marked f hf hmark := by
    rw [hq.walDir] at hf
    rw [hq.isFullyProcessed] at hmark
    rw [hq.content]
    exact h.marked f hf hmark
  books := by
    obtain ⟨C, P, L, hC⟩ := h.books
    exact ⟨C, P, L.quiet hq, hC.quiet hq⟩

theorem relocked (h : Attended libs M o w p) (hr : Relocked w w') : Attended libs M o w' p := by
  obtain ⟨horigin, hmarked, C, P, L, hC⟩ := h
  have L' := hr.ledger L
  have hC' := hr.coverage hC
  obtain ⟨e, n, l, renamed, rfl⟩ := hr
  exact ⟨horigin, hmarked, C, P, L', hC'⟩

theorem extend {bytes : Bytes} (h : Attended libs M o w p) (hf : Extends w f bytes) :
    Attended libs M o { w with walDir := w.walDir.insert f bytes } p where
  origin g := by
    rw [written_insert]
    split_ifs with hg
    · subst hg
      refine .inr ⟨?_, hf.wholeAfter⟩
      rcases h.origin g with heq | hwhole
      · rw [← heq]
        exact hf.whole
      · exact hwhole.1
    · exact h.origin g
  marked g hg hmark := by
    obtain ⟨C, P, L, hC⟩ := h.books
    have hmem : g ∈ w.walDir := by
      rcases (AList.mem_insert _).mp hg with rfl | hg
      · exact (hC.known trivial g hmark).elim id hf.unused
      · exact hg
    rw [content_insert, if_neg]
    · exact h.marked g hmem hmark
    · intro hgf
      subst hgf
      exact hf.last (hC.marked trivial g hmark hmem).1
  books := by
    obtain ⟨C, P, L, hC⟩ := h.books
    exact ⟨C, P, L.extend hf, hC.extend L hf⟩

theorem beside (h : Attended libs M o w p) (hs : Relation.ReflTransGen Beside w w') :
    Attended libs M o w' p := by
  induction hs with
  | refl => exact h
  | tail _ hs ih =>
    cases hs with
    | gateway hs =>
      obtain ⟨f, bytes, hf, rfl⟩ := hs.extends
      exact ih.extend hf
    | waiting hs => exact ih.relocked hs.relocked

theorem lasting {e : WalCorruptionError} (h : Attended libs M o w p) (hf : f ∈ w.walDir)
    (hnext : nextRecord f (w.content f) M (w.position p.batch f) = .error e)
    (hoffset : e.offset = w.position p.batch f) : Lasting M o f e (w.content f) := by
  obtain ⟨C, P, L, -⟩ := h.books
  have hreached := L.reached f
  rw [written_of_mem hf] at hreached
  have hrefused : Whole (w.content f) → Lasting M o f e (w.content f) := by
    intro hwhole
    refine .inl ?_
    rw [hoffset]
    exact hwhole.refused hreached hnext
  have horigin := h.origin f
  rw [written_of_mem hf] at horigin
  rcases horigin with heq | ⟨-, hwhole⟩
  · by_cases hwhole : Whole (o f)
    · exact hrefused (by rw [heq]; exact hwhole)
    · refine .inr ⟨hwhole, ?_⟩
      rw [← heq, hoffset]
      exact hnext
  · exact hrefused hwhole

/-- The reader would be refused now as well. -/
theorem error_of_lasting {e : WalCorruptionError} (h : Attended libs M o w p) (hf : f ∈ w.walDir)
    (hbad : Lasting M o f e (w.content f)) :
    ∃ e', nextRecord f (w.written f) M e.offset = .error e' := by
  rcases hbad with hrefused | ⟨hnot, he⟩
  · rw [written_of_mem hf]
    exact hrefused _ List.prefix_rfl
  · rcases h.origin f with heq | hwhole
    · rw [heq]
      exact ⟨e, he⟩
    · exact absurd hwhole.1 hnot

/-- A marked segment that is not the last one can go. -/
theorem deleted (h : Attended libs M o w p) (hnil : p.batch.rows = []) (hf : f ∈ w.walDir)
    (hmark : w.isFullyProcessed f = true) :
    f ∉ w.quarantined ∧ Clean M (w.content f) ∧
      ∀ r, HasRecord M (w.content f) r → Committed libs w f r := by
  obtain ⟨C, P, L, hC⟩ := h.books
  refine ⟨fun hq => ?_, h.marked f hf hmark, fun r hr => ?_⟩
  · have hclean := h.marked f hf hmark
    rw [← written_of_mem hf] at hclean
    exact L.dirty f hq hclean
  · rcases (hC.marked trivial f hmark hf).2 r hr with hnone | hmem
    · exact ⟨[], hnone, List.nil_subperm⟩
    · rcases List.mem_append.mp hmem with hmem | hmem
      · exact L.committed hmem
      · rw [L.batch] at hnil
        have hrows := List.flatMap_eq_nil_iff.mp hnil _ hmem
        have hparsed := L.parsed (f, r) (List.mem_append_right C hmem)
        rw [hrows] at hparsed
        exact ⟨[], hparsed, List.nil_subperm⟩

end Attended

/-- The books are kept beside the gateway, and no segment is deleted that is
still needed. -/
theorem attended_discipline : Discipline libs settings Unguarded c (Relation.ReflTransGen Beside)
    (Spares libs settings.maxWalRecordBytes) (Attended libs settings.maxWalRecordBytes o)
    (Lasting settings.maxWalRecordBytes o) where
  lasting f e data data' h hd := h.imp_left fun h => h.grow hd
  rely w w' hheld hR := by
    obtain ⟨hex, hframe⟩ := frame_of_beside hR
    exact ⟨hex.trans hheld, hframe⟩
  stable w w' p _ hI hR := hI.beside hR
  neutral w w' p _ _ hI hq := ⟨.of_same hq.walDir hq.unlinked, hI.quiet hq⟩
  read w p f r rs _ hI hf _ _ hstart hrec hrows := by
    obtain ⟨C, P, L, hC⟩ := hI.books
    exact ⟨hI.origin, hI.marked, C, P ++ [(f, r)], L.read hf hstart hrec hrows,
      hC.read L hf hstart hrec hrows⟩
  flush w w' p name _ _ hI hne hfits _ hname hl _ hw' := by
    subst hw'
    obtain ⟨C, P, L, hC⟩ := hI.books
    refine ⟨.of_same rfl rfl, hI.origin, fun f hf hmark => ?_, C ++ P, [],
      L.flush hname hne hfits hl _ _ _, hC.flush L _ _ _⟩
    rw [isFullyProcessed_commitBatch] at hmark
    exact hI.marked f hf hmark
  mark w w' p f _ _ hI hsealed hpos hw' := by
    subst hw'
    obtain ⟨C, P, L, hC⟩ := hI.books
    refine ⟨.of_same rfl rfl, hI.origin, fun g hg hmark => ?_, C, P, L.mark hpos,
      hC.mark L hsealed hpos⟩
    rw [isFullyProcessed_commitMark, Bool.or_eq_true, decide_eq_true_eq] at hmark
    rcases hmark with hgf | hmark
    · subst hgf
      have hreached := L.reached g
      rw [hpos, written_of_mem hsealed.1] at hreached
      exact hreached
    · exact hI.marked g hg hmark
  badHeader w p f e _ hI hf _ hne hcheck := by
    apply hI.lasting hf
    · unfold nextRecord
      rw [if_neg hne, hcheck]
    · exact (checkHeader_error hcheck).2
  badPayload w p f length expectedCrc e _ hI hf _ hhead hcheck := by
    apply hI.lasting hf
    · have hne : ((w.content f).drop (w.position p.batch f)).take headerSize ≠ [] := by
        apply List.ne_nil_of_length_pos
        rw [(checkHeader_ok.mp hhead).1]
        decide
      unfold nextRecord
      rw [if_neg hne, hhead]
      dsimp only
      rw [hcheck]
    · exact (checkPayload_error hcheck).2
  quarantine w w' p f e size _ _ hI hnil hf hbad _ hoffset hw' := by
    subst hw'
    obtain ⟨C, P, L, hC⟩ := hI.books
    obtain ⟨e', he'⟩ := hI.error_of_lasting hf hbad
    refine ⟨.of_same rfl rfl, hI.origin, hI.marked, C, P, L.quarantine ?_ _ _ _,
      hC.quarantine L hnil ?_ _ _ _⟩
    · have hreached := L.reached f
      rw [← hoffset] at hreached
      exact hreached.dirty he'
    · intro r hstart hrec
      rw [hoffset, (@nextRecord_eq_some f _ _ _ _).mpr ⟨hstart, hrec⟩] at he'
      cases he'
  compact w w' p name merged files _ _ hI hnodup hmerged hfiles _ hne _ hname hl _ hw' := by
    subst hw'
    obtain ⟨C, P, L, hC⟩ := hI.books
    have hbooks : ∃ C P, Ledger libs settings.maxWalRecordBytes C P (w.exec libs settings
        (.commitCompaction name (files.flatMap ParquetFile.rows).length merged)).2 p ∧
        Coverage libs settings.maxWalRecordBytes True C P (w.exec libs settings
          (.commitCompaction name (files.flatMap ParquetFile.rows).length merged)).2 p :=
      ⟨C, P, L.compact hname hnodup hmerged hfiles hne hl _, hC.compact _ _⟩
    simp only [World.exec, if_neg hname] at hbooks ⊢
    exact ⟨.of_same rfl rfl, hI.origin, hI.marked, hbooks⟩
  delete w w' p f _ _ hI hnil hsealed hmark hw' := by
    subst hw'
    obtain ⟨C, P, L, hC⟩ := hI.books
    have hgone := hI.deleted hnil hsealed.1 hmark
    have hwritten : ∀ g, (w.exec libs settings (.unlinkWal f)).2.written g = w.written g :=
      fun _ => written_unlinkWal
    have L' : Ledger libs settings.maxWalRecordBytes C P (w.exec libs settings (.unlinkWal f)).2 p :=
      L.delete
    have hC' : Coverage libs settings.maxWalRecordBytes True C P
        (w.exec libs settings (.unlinkWal f)).2 p := hC.delete L hnil hsealed hmark
    obtain ⟨bytes, hl⟩ := Option.isSome_iff_exists.mp (AList.lookup_isSome.mpr hsealed.1)
    simp only [World.exec, hl] at hwritten L' hC' ⊢
    have hcontent : ∀ g, g ≠ f → (w.walDir.erase f).lookup g = w.walDir.lookup g :=
      fun g hg => AList.lookup_erase_ne hg
    refine ⟨⟨fun g hg => ?_, fun g hg hdel => ?_, fun g hg => ?_⟩, fun g => ?_, fun g hg hm => ?_,
      C, P, L', hC'⟩
    · obtain ⟨hne, hg⟩ := AList.mem_erase.mp hg
      refine ⟨hg, ?_⟩
      unfold World.content
      rw [hcontent g hne]
    · have hgf : g = f := by
        by_contra hne
        exact hdel (AList.mem_erase.mpr ⟨hne, hg⟩)
      subst hgf
      obtain ⟨-, a, ha, hlt⟩ := hsealed
      refine ⟨⟨a, AList.mem_erase.mpr ⟨fun hag => ?_, ha⟩, hlt⟩, hgone⟩
      subst hag
      exact lt_irrefl _ hlt
    · rcases (AList.mem_insert _).mp hg with hgf | hg
      · subst hgf
        exact .inr ⟨hsealed.1, fun hmem => (AList.mem_erase.mp hmem).1 rfl⟩
      · exact .inl hg
    · rw [hwritten]
      exact hI.origin g
    · obtain ⟨hne, hg⟩ := AList.mem_erase.mp hg
      have hclean := hI.marked g hg hm
      unfold World.content at hclean ⊢
      rw [hcontent g hne]
      exact hclean

theorem attended_encloses : Encloses libs t (Relation.ReflTransGen Beside) (Spares libs M)
    (Attended libs M o) where
  others w w' hR := frame_of_beside hR
  stable w w' p hI hR := hI.beside hR
  relocked w w' p hI hr := hI.relocked hr
  admits w w' p _ _ _ hr := by
    obtain ⟨e, n, l, renamed, rfl⟩ := hr
    exact .of_same rfl rfl

end Beside

end Lrcp.Store
