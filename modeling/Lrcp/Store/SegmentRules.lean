import Lrcp.Store.ParquetRules

namespace Lrcp.Store

open Lrcp.Wal Lrcp.Otlp Lrcp.Framework

section Offsets

variable {libs : Libs} {settings : Settings} {w : World} {p : Progress} {f g : String}

/-- `max_offset` of a segment in a table, 0 when there is no row. -/
def offsetOf (offsets : Table OffsetRow) (f : String) : Nat :=
  ((offsets.lookup f).map OffsetRow.maxOffset).getD 0

theorem offsetOf_raiseOffset (offsets : Table OffsetRow) (walFile : String) (maxOff : Nat) :
    offsetOf (ControlStore.raiseOffset offsets walFile maxOff) f =
      if f = walFile then max (offsetOf offsets f) maxOff else offsetOf offsets f := by
  unfold ControlStore.raiseOffset offsetOf
  by_cases h : f = walFile
  · subst h
    cases hl : offsets.lookup f with
    | none => simp [AList.lookup_insert]
    | some row => simp [AList.lookup_insert]
  · rw [if_neg h]
    cases hl : offsets.lookup walFile with
    | none => simp [AList.lookup_insert_ne h]
    | some row => simp [AList.lookup_insert_ne h]

/-- The upserts of a batch raise each watermark to the offset recorded for it. -/
theorem offsetOf_foldl (entries : List (Sigma fun _ : String => Nat)) (h : entries.NodupKeys)
    (offsets : Table OffsetRow) :
    offsetOf (entries.foldl (fun t e => ControlStore.raiseOffset t e.1 e.2) offsets) f =
      max (offsetOf offsets f) ((entries.dlookup f).getD 0) := by
  induction entries generalizing offsets with
  | nil => simp
  | cons e entries ih =>
    rw [List.nodupKeys_cons] at h
    rw [List.foldl_cons, ih h.2, offsetOf_raiseOffset]
    by_cases he : f = e.1
    · subst he
      have hnone : entries.dlookup e.1 = none := List.dlookup_eq_none.mpr h.1
      rw [if_pos rfl, hnone, List.dlookup_cons_eq]
      simp
    · rw [if_neg he, List.dlookup_cons_ne _ _ he]

theorem maxOffset_commitBatch (name : String) (n : Nat) (entries : List (String × Nat × String))
    (offsets : Table Nat) :
    (w.exec libs settings (.commitBatch name n entries offsets)).2.maxOffset f =
      max (w.maxOffset f) ((offsets.lookup f).getD 0) :=
  offsetOf_foldl offsets.entries offsets.nodupKeys _

theorem maxOffset_commitMark (size : Nat) :
    (w.exec libs settings (.commitMark f size)).2.maxOffset g =
      if g = f ∧ f ∉ w.control.materializedWalOffsets then size else w.maxOffset g := by
  simp only [World.exec, World.maxOffset, ControlStore.commitMark]
  cases hl : w.control.materializedWalOffsets.lookup f with
  | none =>
    have hnot : f ∉ w.control.materializedWalOffsets := AList.lookup_eq_none.mp hl
    by_cases hg : g = f
    · subst hg
      simp [AList.lookup_insert, hnot]
    · simp [AList.lookup_insert_ne hg, hg]
  | some row =>
    have hmem : f ∈ w.control.materializedWalOffsets := AList.lookup_isSome.mp (by rw [hl]; rfl)
    by_cases hg : g = f
    · subst hg
      simp [AList.lookup_insert, hmem, hl]
    · simp [AList.lookup_insert_ne hg, hg]

end Offsets

section Marks

variable {libs : Libs} {settings : Settings} {w : World} {f g : String}

/-- `is_fully_processed` of a segment in a table, false when there is no row. -/
def flagOf (offsets : Table OffsetRow) (f : String) : Bool :=
  ((offsets.lookup f).map OffsetRow.isFullyProcessed).getD false

theorem flagOf_raiseOffset (offsets : Table OffsetRow) (walFile : String) (maxOff : Nat) :
    flagOf (ControlStore.raiseOffset offsets walFile maxOff) f = flagOf offsets f := by
  unfold ControlStore.raiseOffset flagOf
  by_cases h : f = walFile
  · subst h
    cases hl : offsets.lookup f with
    | none => simp [AList.lookup_insert]
    | some row => simp [AList.lookup_insert]
  · cases hl : offsets.lookup walFile with
    | none => simp [AList.lookup_insert_ne h]
    | some row => simp [AList.lookup_insert_ne h]

theorem isFullyProcessed_commitBatch (name : String) (n : Nat) (entries : List (String × Nat × String))
    (offsets : Table Nat) :
    (w.exec libs settings (.commitBatch name n entries offsets)).2.isFullyProcessed f =
      w.isFullyProcessed f := by
  have key : ∀ (es : List (Sigma fun _ : String => Nat)) (t : Table OffsetRow),
      flagOf (es.foldl (fun t e => ControlStore.raiseOffset t e.1 e.2) t) f = flagOf t f := by
    intro es
    induction es with
    | nil => exact fun _ => rfl
    | cons e es ih =>
      intro t
      rw [List.foldl_cons, ih, flagOf_raiseOffset]
  exact key offsets.entries _

theorem isFullyProcessed_commitMark (size : Nat) :
    (w.exec libs settings (.commitMark f size)).2.isFullyProcessed g =
      (decide (g = f) || w.isFullyProcessed g) := by
  simp only [World.exec, World.isFullyProcessed, ControlStore.commitMark]
  cases hl : w.control.materializedWalOffsets.lookup f with
  | none =>
    by_cases h : g = f
    · subst h
      simp [AList.lookup_insert]
    · simp [AList.lookup_insert_ne h, h]
  | some row =>
    by_cases h : g = f
    · subst h
      simp [AList.lookup_insert]
    · simp [AList.lookup_insert_ne h, h]

end Marks

/-- A segment of length `n` is quarantined, or it is marked, or the watermark is at its end. -/
def Consumed (n : Nat) (w : World) (f : String) : Prop :=
  n = (w.content f).length → f ∈ w.quarantined ∨ w.isFullyProcessed f = true ∨
    (n ≤ w.maxOffset f ∧ 0 < w.maxOffset f)

/-- What the loop of `materialize` knows between two segments: `rest` are the
segments still to come, `behind` those done with, which are quarantined or have
been read at least as far as `n₀` tells. -/
structure Walk (loaded : Loaded) (n₀ : String → Nat) (rest behind : List String) (p : Progress)
    (w : World) : Prop where
  todo : ∀ f ∈ rest, f ∈ w.walDir ∧ p.batch.offsets.lookup f = none ∧
    w.maxOffset f = loaded.startOffset f ∧ n₀ f ≤ (w.content f).length ∧
    (f ≠ loaded.activeWalFilename → w.Sealed f)
  finished : ∀ f ∈ behind, f ∈ w.quarantined ∨ n₀ f ≤ w.position p.batch f
  consumed : ∀ f ∈ behind, f ≠ loaded.activeWalFilename → w.Sealed f ∧ Consumed (n₀ f) w f
  ahead : ∀ f q, p.batch.offsets.lookup f = some q → w.maxOffset f ≤ q
  quarantined : ∀ f ∈ loaded.quarantined, f ∈ w.quarantined
  marked : ∀ f, loaded.isFullyProcessed f = true → w.isFullyProcessed f = true
  sorted : rest.Pairwise fun f g => parseWalKey f < parseWalKey g
  touched : ∀ g, w.position p.batch g = loaded.startOffset g ∨
    ∀ f ∈ rest, parseWalKey g < parseWalKey f

/-- While the segment `f` is read, which has been done up to `q`. -/
structure Reading (loaded : Loaded) (n₀ : String → Nat) (rest behind : List String) (f : String)
    (q : Nat) (p : Progress) (w : World) : Prop extends Walk loaded n₀ rest behind p w where
  fresh : f ∉ rest
  present : f ∈ w.walDir
  length : n₀ f ≤ (w.content f).length
  sealed : f ≠ loaded.activeWalFilename → w.Sealed f
  start : loaded.startOffset f ≤ w.maxOffset f
  position : w.position p.batch f = q
  within : q ≤ (w.content f).length ∨ q = loaded.startOffset f
  before : ∀ g ∈ rest, parseWalKey f < parseWalKey g
  turn : ∀ g, w.position p.batch g = loaded.startOffset g ∨ parseWalKey g ≤ parseWalKey f

section Walk

variable {libs : Libs} {settings : Settings} {loaded : Loaded} {n₀ : String → Nat}
  {rest behind : List String} {f : String} {q : Nat} {p : Progress} {w w' : World}

theorem sealed_of_segment
    (hsegment : ∀ f ∈ w.walDir, f ∈ w'.walDir ∧ w.content f <+: w'.content f) (h : w.Sealed f) :
    w'.Sealed f := by
  obtain ⟨hf, g, hg, hlt⟩ := h
  exact ⟨(hsegment f hf).1, g, (hsegment g hg).1, hlt⟩

/-- What a walk knows depends on the growth of segments and on the control store only. -/
theorem Walk.step (h : Walk loaded n₀ rest behind p w)
    (hsegment : ∀ f ∈ w.walDir, f ∈ w'.walDir ∧ w.content f <+: w'.content f)
    (hfrozen : ∀ f, w.Sealed f → w'.content f = w.content f)
    (hmax : ∀ f, w'.maxOffset f = w.maxOffset f) (hq : w'.quarantined = w.quarantined)
    (hmark : ∀ f, w'.isFullyProcessed f = w.isFullyProcessed f) :
    Walk loaded n₀ rest behind p w' where
  todo f hf := by
    obtain ⟨hmem, hnone, hstart, hlen, hsealed⟩ := h.todo f hf
    obtain ⟨hmem', hgrow⟩ := hsegment f hmem
    exact ⟨hmem', hnone, by rw [hmax, hstart], hlen.trans hgrow.length_le,
      fun hne => sealed_of_segment hsegment (hsealed hne)⟩
  finished f hf := by
    rw [hq, World.position, hmax]
    exact h.finished f hf
  consumed f hf hne := by
    obtain ⟨hsealed, hconsumed⟩ := h.consumed f hf hne
    refine ⟨sealed_of_segment hsegment hsealed, ?_⟩
    unfold Consumed
    rw [hfrozen f hsealed, hq, hmark, hmax]
    exact hconsumed
  ahead f q hl := by
    rw [hmax]
    exact h.ahead f q hl
  quarantined f hf := by
    rw [hq]
    exact h.quarantined f hf
  marked f hf := by
    rw [hmark]
    exact h.marked f hf
  sorted := h.sorted
  touched g := by
    rw [World.position, hmax]
    exact h.touched g

theorem Reading.step (h : Reading loaded n₀ rest behind f q p w)
    (hsegment : ∀ f ∈ w.walDir, f ∈ w'.walDir ∧ w.content f <+: w'.content f)
    (hfrozen : ∀ f, w.Sealed f → w'.content f = w.content f)
    (hmax : ∀ f, w'.maxOffset f = w.maxOffset f) (hq : w'.quarantined = w.quarantined)
    (hmark : ∀ f, w'.isFullyProcessed f = w.isFullyProcessed f) :
    Reading loaded n₀ rest behind f q p w' where
  toWalk := h.toWalk.step hsegment hfrozen hmax hq hmark
  fresh := h.fresh
  present := (hsegment f h.present).1
  length := h.length.trans (hsegment f h.present).2.length_le
  sealed hne := sealed_of_segment hsegment (h.sealed hne)
  start := by
    rw [hmax]
    exact h.start
  position := by
    rw [World.position, hmax]
    exact h.position
  within := h.within.imp_left fun hle => hle.trans (hsegment f h.present).2.length_le
  before := h.before
  turn g := by
    rw [World.position, hmax]
    exact h.turn g

theorem Walk.frameStable : FrameStable (Walk loaded n₀ rest behind p) :=
  fun _ _ hf h => h.step hf.segment hf.frozen hf.maxOffset hf.quarantined hf.isFullyProcessed

theorem Reading.frameStable : FrameStable (Reading loaded n₀ rest behind f q p) :=
  fun _ _ hf h => h.step hf.segment hf.frozen hf.maxOffset hf.quarantined hf.isFullyProcessed

theorem Quiet.segment (h : Quiet w w') :
    ∀ f ∈ w.walDir, f ∈ w'.walDir ∧ w.content f <+: w'.content f := by
  intro f hf
  rw [h.walDir, h.content]
  exact ⟨hf, List.prefix_rfl⟩

theorem Walk.quietStable : QuietStable (Walk loaded n₀ rest behind p) :=
  fun _ _ hq h => h.step hq.segment (fun f _ => hq.content f) hq.maxOffset hq.quarantined
    hq.isFullyProcessed

theorem Reading.quietStable : QuietStable (Reading loaded n₀ rest behind f q p) :=
  fun _ _ hq h => h.step hq.segment (fun f _ => hq.content f) hq.maxOffset hq.quarantined
    hq.isFullyProcessed

theorem position_add (b : Batch) (g : String) (r : WalRecord) (rows : List Row) :
    w.position (b.add f r rows) g = if g = f then r.stop else w.position b g := by
  unfold World.position Batch.add Batch.offset
  by_cases h : g = f
  · subst h
    simp [AList.lookup_insert]
  · simp [AList.lookup_insert_ne h, h]

/-- A record more in the batch. -/
theorem Reading.add (h : Reading loaded n₀ rest behind f q p w) {r : WalRecord}
    (hr : r.start = q) (hi : IsRecord settings.maxWalRecordBytes (w.content f) r) (rows : List Row) :
    Reading loaded n₀ rest behind f r.stop { p with batch := p.batch.add f r rows } w := by
  have hlt := hi.start_lt_stop
  have hpos := h.position
  have hmaxle : w.maxOffset f ≤ q := by
    unfold World.position Batch.offset at hpos
    cases hl : p.batch.offsets.lookup f with
    | none =>
      rw [hl] at hpos
      exact Nat.le_of_eq hpos
    | some q' =>
      rw [hl] at hpos
      have hq' : q' = q := hpos
      exact hq' ▸ h.ahead f q' hl
  refine ⟨⟨?_, ?_, h.consumed, ?_, h.quarantined, h.marked, h.sorted, fun g => ?_⟩, h.fresh, h.present,
    h.length, h.sealed, h.start, ?_, .inl hi.stop_le, h.before, fun g => ?_⟩
  · intro g hg
    obtain ⟨hmem, hnone, hrest⟩ := h.todo g hg
    have hne : g ≠ f := fun e => h.fresh (e ▸ hg)
    refine ⟨hmem, ?_, hrest⟩
    change (p.batch.offsets.insert f r.stop).lookup g = none
    rw [AList.lookup_insert_ne hne]
    exact hnone
  · intro g hg
    refine (h.finished g hg).imp_right fun hle => ?_
    rw [position_add]
    split_ifs with hgf
    · subst hgf
      omega
    · exact hle
  · intro g q' hl
    change (p.batch.offsets.insert f r.stop).lookup g = some q' at hl
    by_cases hgf : g = f
    · subst hgf
      rw [AList.lookup_insert] at hl
      obtain rfl := Option.some.inj hl
      omega
    · rw [AList.lookup_insert_ne hgf] at hl
      exact h.ahead g q' hl
  · rw [position_add]
    split_ifs with hgf
    · subst hgf
      exact .inr h.before
    · exact h.touched g
  · rw [position_add, if_pos rfl]
  · rw [position_add]
    split_ifs with hgf
    · subst hgf
      exact .inr (le_refl _)
    · exact h.turn g

/-- The commit of a batch turns its offsets into watermarks. -/
theorem position_commitBatch (h : ∀ f q, p.batch.offsets.lookup f = some q → w.maxOffset f ≤ q)
    (name : String) (n : Nat) (entries : List (String × Nat × String)) (f : String) :
    (w.exec libs settings (.commitBatch name n entries p.batch.offsets)).2.position {} f =
      w.position p.batch f := by
  have hempty : ∀ w' : World, w'.position {} f = w'.maxOffset f := fun _ => rfl
  rw [hempty, maxOffset_commitBatch]
  unfold World.position Batch.offset
  cases hl : p.batch.offsets.lookup f with
  | none => simp
  | some q =>
    have hle := h f q hl
    simp only [Option.getD_some]
    omega

theorem Walk.commitBatch (h : Walk loaded n₀ rest behind p w) (name : String) (n total : Nat)
    (entries : List (String × Nat × String)) : Walk loaded n₀ rest behind ⟨{}, total⟩
      (w.exec libs settings (.commitBatch name n entries p.batch.offsets)).2 where
  todo f hf := by
    obtain ⟨hmem, hnone, hstart, hrest⟩ := h.todo f hf
    refine ⟨hmem, rfl, ?_, hrest⟩
    rw [maxOffset_commitBatch, hnone, ← hstart]
    simp
  finished f hf := by
    rw [position_commitBatch h.ahead]
    exact h.finished f hf
  consumed f hf hne := by
    obtain ⟨hsealed, hconsumed⟩ := h.consumed f hf hne
    refine ⟨hsealed, fun hlen => ?_⟩
    rw [isFullyProcessed_commitBatch, maxOffset_commitBatch]
    rcases hconsumed hlen with hq | hmark | ⟨hle, hpos⟩
    · exact .inl hq
    · exact .inr (.inl hmark)
    · exact .inr (.inr ⟨hle.trans (Nat.le_max_left _ _), hpos.trans_le (Nat.le_max_left _ _)⟩)
  ahead f q hl := by cases hl
  quarantined := h.quarantined
  marked f hf := by
    rw [isFullyProcessed_commitBatch]
    exact h.marked f hf
  sorted := h.sorted
  touched g := by
    rw [position_commitBatch h.ahead]
    exact h.touched g

theorem Reading.commitBatch (h : Reading loaded n₀ rest behind f q p w) (name : String)
    (n total : Nat) (entries : List (String × Nat × String)) :
    Reading loaded n₀ rest behind f q ⟨{}, total⟩
      (w.exec libs settings (.commitBatch name n entries p.batch.offsets)).2 where
  toWalk := h.toWalk.commitBatch name n total entries
  fresh := h.fresh
  present := h.present
  length := h.length
  sealed := h.sealed
  start := by
    rw [maxOffset_commitBatch]
    exact h.start.trans (Nat.le_max_left _ _)
  position := by
    rw [position_commitBatch h.ahead]
    exact h.position
  within := h.within
  before := h.before
  turn g := by
    rw [position_commitBatch h.ahead]
    exact h.turn g

/-- The mark on a segment that has been read to its end does not move the reading. -/
theorem position_commitMark {size : Nat} (hpos : w.position p.batch f = size) (g : String) :
    (w.exec libs settings (.commitMark f size)).2.position p.batch g = w.position p.batch g := by
  unfold World.position Batch.offset at hpos ⊢
  rw [maxOffset_commitMark]
  split_ifs with hg
  · obtain ⟨rfl, -⟩ := hg
    cases hl : p.batch.offsets.lookup g with
    | none =>
      rw [hl] at hpos
      exact hpos.symm
    | some q => rfl
  · rfl

theorem Reading.commitMark (h : Reading loaded n₀ rest behind f q p w) :
    Reading loaded n₀ rest behind f q p (w.exec libs settings (.commitMark f q)).2 where
  todo g hg := by
    obtain ⟨hmem, hnone, hstart, hrest⟩ := h.todo g hg
    have hne : g ≠ f := fun e => h.fresh (e ▸ hg)
    refine ⟨hmem, hnone, ?_, hrest⟩
    rw [maxOffset_commitMark, if_neg fun hh => hne hh.1]
    exact hstart
  finished g hg := by
    rw [position_commitMark h.position]
    exact h.finished g hg
  consumed g hg hne := by
    obtain ⟨hsealed, hconsumed⟩ := h.consumed g hg hne
    refine ⟨hsealed, fun hlen => ?_⟩
    rw [isFullyProcessed_commitMark, maxOffset_commitMark, Bool.or_eq_true, decide_eq_true_eq]
    by_cases hgf : g = f
    · exact .inr (.inl (.inl hgf))
    · rw [if_neg fun hh => hgf hh.1]
      exact (hconsumed hlen).imp_right fun h => h.imp_left .inr
  ahead g q' hl := by
    rw [maxOffset_commitMark]
    split_ifs with hg
    · obtain ⟨rfl, -⟩ := hg
      have hpos := h.position
      unfold World.position Batch.offset at hpos
      rw [hl] at hpos
      exact Nat.le_of_eq hpos.symm
    · exact h.ahead g q' hl
  quarantined := h.quarantined
  marked g hg := by
    rw [isFullyProcessed_commitMark, h.marked g hg, Bool.or_true]
  sorted := h.sorted
  touched g := by
    rw [position_commitMark h.position]
    exact h.touched g
  fresh := h.fresh
  present := h.present
  length := h.length
  sealed := h.sealed
  start := by
    rw [maxOffset_commitMark]
    split_ifs with hf
    · have hmax : w.maxOffset f = 0 := by
        unfold World.maxOffset
        rw [AList.lookup_eq_none.mpr hf.2]
        rfl
      have := h.start
      omega
    · exact h.start
  position := by
    rw [position_commitMark h.position]
    exact h.position
  within := h.within
  before := h.before
  turn g := by
    rw [position_commitMark h.position]
    exact h.turn g

/-- The offset that the code compares with the size of the segment is where the
reading stands, when they are equal. -/
theorem Reading.at_end (h : Reading loaded n₀ rest behind f q p w)
    (hend : p.batch.offset f (loaded.startOffset f) = (w.content f).length) :
    q = (w.content f).length := by
  have hpos := h.position
  unfold World.position at hpos
  unfold Batch.offset at hpos hend
  cases hl : p.batch.offsets.lookup f with
  | none =>
    rw [hl] at hpos hend
    simp only [Option.getD_none] at hpos hend
    have hstart := h.start
    have hwithin := h.within
    omega
  | some q' =>
    rw [hl] at hpos hend
    exact hpos.symm.trans hend

/-- A segment is behind when it has been read as far as it was long. A sealed one has
been marked, or it had been consumed before. -/
theorem Reading.finish (h : Reading loaded n₀ rest behind f q p w) (hq : n₀ f ≤ q)
    (hconsumed : f ≠ loaded.activeWalFilename → Consumed (n₀ f) w f) :
    Walk loaded n₀ rest (f :: behind) p w where
  todo := h.todo
  finished g hg := by
    rcases List.mem_cons.mp hg with rfl | hg
    · exact .inr (by rw [h.position]; exact hq)
    · exact h.finished g hg
  consumed g hg hne := by
    rcases List.mem_cons.mp hg with rfl | hg
    · exact ⟨h.sealed hne, hconsumed hne⟩
    · exact h.consumed g hg hne
  ahead := h.ahead
  quarantined := h.quarantined
  marked := h.marked
  sorted := h.sorted
  touched := h.touched

/-- A segment that has been read to its end is not marked only if its watermark
had reached its end before. -/
theorem Reading.unmarked (h : Reading loaded n₀ rest behind f q p w) (hq : n₀ f ≤ q)
    (hsize : (w.content f).length ≠ p.batch.offset f (loaded.startOffset f)) :
    Consumed (n₀ f) w f := by
  intro hlen
  refine .inr (.inr ?_)
  have hpos := h.position
  have hstart := h.start
  have hwithin := h.within
  unfold World.position Batch.offset at hpos
  unfold Batch.offset at hsize
  cases hl : p.batch.offsets.lookup f with
  | none =>
    rw [hl] at hpos hsize
    simp only [Option.getD_none] at hpos hsize
    omega
  | some q' =>
    rw [hl] at hpos hsize
    simp only [Option.getD_some] at hpos hsize
    omega

/-- A segment that was known to be quarantined is passed over. -/
theorem Walk.skip (h : Walk loaded n₀ (f :: rest) behind p w) (hf : f ∈ loaded.quarantined) :
    Walk loaded n₀ rest (f :: behind) p w where
  todo g hg := h.todo g (List.mem_cons_of_mem f hg)
  finished g hg := by
    rcases List.mem_cons.mp hg with rfl | hg
    · exact .inl (h.quarantined g hf)
    · exact h.finished g hg
  consumed g hg hne := by
    rcases List.mem_cons.mp hg with rfl | hg
    · exact ⟨(h.todo g (by simp)).2.2.2.2 hne, fun _ => .inl (h.quarantined g hf)⟩
    · exact h.consumed g hg hne
  ahead := h.ahead
  quarantined := h.quarantined
  marked := h.marked
  sorted := (List.pairwise_cons.mp h.sorted).2
  touched g := (h.touched g).imp_right fun hlt f hf => hlt f (List.mem_cons_of_mem _ hf)

/-- A segment is behind when it is quarantined. -/
theorem Reading.quarantine (h : Reading loaded n₀ rest behind f q p w) (offset size : Nat)
    (reason : String) : Walk loaded n₀ rest (f :: behind) p
      (w.exec libs settings (.commitQuarantine f offset reason size)).2 := by
  have hq : (w.exec libs settings (.commitQuarantine f offset reason size)).2.quarantined =
      w.quarantined ++ [f] := by
    simp [World.exec, World.quarantined, ControlStore.commitQuarantine]
  refine ⟨h.todo, fun g hg => ?_, fun g hg hne => ?_, h.ahead, fun g hg => ?_, h.marked, h.sorted,
    h.touched⟩
  · rw [hq]
    rcases List.mem_cons.mp hg with rfl | hg
    · exact .inl (by simp)
    · exact (h.finished g hg).imp_left fun hm => by simp [hm]
  · unfold Consumed
    rw [hq]
    rcases List.mem_cons.mp hg with rfl | hg
    · exact ⟨h.sealed hne, fun _ => .inl (by simp)⟩
    · obtain ⟨hsealed, hconsumed⟩ := h.consumed g hg hne
      exact ⟨hsealed, fun hlen => (hconsumed hlen).imp_left fun hm => by simp [hm]⟩
  · rw [hq]
    exact List.mem_append_left _ (h.quarantined g hg)

/-- The next segment. -/
theorem Walk.begin (h : Walk loaded n₀ (f :: rest) behind p w) :
    Reading loaded n₀ rest behind f (loaded.startOffset f) p w := by
  obtain ⟨hmem, hnone, hstart, hlen, hsealed⟩ := h.todo f (by simp)
  obtain ⟨hbefore, hsorted⟩ := List.pairwise_cons.mp h.sorted
  have htouched : ∀ g, w.position p.batch g = loaded.startOffset g ∨ ∀ h ∈ rest, parseWalKey g < parseWalKey h :=
    fun g => (h.touched g).imp_right fun hlt f' hf' => hlt f' (List.mem_cons_of_mem _ hf')
  have hfresh : f ∉ rest := fun hf => lt_irrefl _ (hbefore f hf)
  refine ⟨⟨fun g hg => h.todo g (by simp [hg]), h.finished, h.consumed, h.ahead, h.quarantined,
    h.marked, hsorted, htouched⟩, hfresh, hmem, hlen, hsealed, Nat.le_of_eq hstart.symm, ?_, .inr rfl,
    hbefore, fun g => (h.touched g).imp_right fun hlt => le_of_lt (hlt f List.mem_cons_self)⟩
  unfold World.position Batch.offset
  rw [hnone]
  exact hstart

theorem content_of_not_mem (h : f ∉ w.walDir) : w.content f = [] := by
  rw [World.content, AList.lookup_eq_none.mpr h, Option.getD_none]

/-- The segments of `S` are still to come or done with, and the active one is the last of them. -/
def Walked (loaded : Loaded) (n₀ : String → Nat) (S : String → Prop) (rest : List String)
    (p : Progress) (w : World) : Prop :=
  ∃ behind, Walk loaded n₀ rest behind p w ∧ ∀ f, hasSuffix ".wal" f = true → S f →
    (f ∈ rest ∨ f ∈ behind) ∧ parseWalKey f ≤ parseWalKey loaded.activeWalFilename

/-- What is achieved for the segments of `S` when all have been done with. -/
structure Caught (S : String → Prop) (n₀ : String → Nat) (p : Progress) (w : World) : Prop where
  finished : ∀ f, hasSuffix ".wal" f = true → S f → f ∈ w.quarantined ∨ n₀ f ≤ w.position p.batch f
  consumed : ∀ f g, hasSuffix ".wal" f = true → S f → hasSuffix ".wal" g = true → S g →
    parseWalKey f < parseWalKey g → Consumed (n₀ f) w f

variable {S : String → Prop}

/-- The segments of `S` are there, and the segments are at least as long as `n₀` says. -/
def AtLeast (n₀ : String → Nat) (S : String → Prop) (w : World) : Prop :=
  (∀ f, n₀ f ≤ (w.content f).length) ∧ ∀ f, S f → f ∈ w.walDir

theorem AtLeast.frameStable : FrameStable (AtLeast n₀ S) := by
  intro w w' h hw
  refine ⟨fun f => ?_, fun f hf => (h.segment f (hw.2 f hf)).1⟩
  by_cases hf : f ∈ w.walDir
  · exact (hw.1 f).trans (h.segment f hf).2.length_le
  · have hlen := hw.1 f
    rw [content_of_not_mem hf] at hlen
    exact hlen.trans (Nat.zero_le _)

theorem Walked.frameStable : FrameStable (Walked loaded n₀ S rest p) := by
  intro w w' h hw
  obtain ⟨behind, hwalk, hall⟩ := hw
  exact ⟨behind, Walk.frameStable w w' h hwalk, hall⟩

theorem Walked.quietStable : QuietStable (Walked loaded n₀ S rest p) := by
  intro w w' h hw
  obtain ⟨behind, hwalk, hall⟩ := hw
  exact ⟨behind, Walk.quietStable w w' h hwalk, hall⟩

theorem Walked.commitBatch (h : Walked loaded n₀ S rest p w) (name : String) (n total : Nat)
    (entries : List (String × Nat × String)) : Walked loaded n₀ S rest ⟨{}, total⟩
      (w.exec libs settings (.commitBatch name n entries p.batch.offsets)).2 := by
  obtain ⟨behind, hwalk, hall⟩ := h
  exact ⟨behind, hwalk.commitBatch name n total entries, hall⟩

theorem Walked.caught (h : Walked loaded n₀ S [] p w) : Caught S n₀ p w := by
  obtain ⟨behind, hwalk, hall⟩ := h
  have hbehind : ∀ f, hasSuffix ".wal" f = true → S f → f ∈ behind := by
    intro f hf hS
    rcases (hall f hf hS).1 with h | h
    · cases h
    · exact h
  refine ⟨fun f hf hS => hwalk.finished f (hbehind f hf hS), fun f g hf hS hg hSg hlt => ?_⟩
  refine (hwalk.consumed f (hbehind f hf hS) fun hactive => ?_).2
  rw [hactive] at hlt
  exact absurd hlt (not_lt_of_ge (hall g hg hSg).2)

/-- At the start all segments are still to come. -/
theorem Walked.initial {offsets : Table OffsetRow} {quarantined names : List String} {active : String}
    (hlen : ∀ f, n₀ f ≤ (w.content f).length) (hS : ∀ f, S f → f ∈ w.walDir)
    (hoffsets : w.control.materializedWalOffsets = offsets)
    (hquarantined : ∀ f ∈ quarantined, f ∈ w.quarantined)
    (hnodup : names.Nodup) (hnames : ∀ f, f ∈ names ↔ f ∈ w.walDir ∧ hasSuffix ".wal" f = true)
    (hactive : (sortSegments names).getLast? = some active) :
    Walked ⟨offsets, quarantined, active⟩ n₀ S (sortSegments names) {} w := by
  refine ⟨[], ⟨fun f hf => ?_, fun f hf => ?_, fun f hf => ?_, fun f q hl => ?_, hquarantined,
    fun f hf => ?_, sorted_sortSegments hnodup, fun g => .inl ?_⟩, fun f hf hSf => ?_⟩
  · have hfn := mem_sortSegments.mp hf
    have hfw := ((hnames f).mp hfn).1
    refine ⟨hfw, rfl, ?_, hlen f, fun hne => ?_⟩
    · rw [World.maxOffset, hoffsets, Loaded.startOffset]
    · obtain ⟨hg, hlt⟩ := lt_getLast_sortSegments hfn hactive hne
      exact ⟨hfw, active, ((hnames active).mp hg).1, hlt⟩
  · cases hf
  · cases hf
  · cases hl
  · rw [World.isFullyProcessed, hoffsets]
    exact hf
  · change w.maxOffset g = Loaded.startOffset ⟨offsets, quarantined, active⟩ g
    rw [World.maxOffset, hoffsets, Loaded.startOffset]
  · have hfn := (hnames f).mpr ⟨hS f hSf, hf⟩
    refine ⟨.inl (mem_sortSegments.mpr hfn), ?_⟩
    by_cases hne : f = active
    · rw [hne]
    · exact le_of_lt (lt_getLast_sortSegments hfn hactive hne).2

end Walk

end Lrcp.Store
