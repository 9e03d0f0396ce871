import Lrcp.Store.MaterializeRules

namespace Lrcp.Store

open Lrcp.Wal Lrcp.Otlp Lrcp.Framework

/-- The segments before the last one of a sorted list. -/
theorem lt_getLast_of_mem_dropLast {f active : String} {names : List String} (hnodup : names.Nodup)
    (hactive : (sortSegments names).getLast? = some active) (hf : f ∈ (sortSegments names).dropLast) :
    active ∈ names ∧ parseWalKey f < parseWalKey active := by
  obtain ⟨front, hfront⟩ := List.getLast?_eq_some_iff.mp hactive
  have hsorted := nodup_sortSegments hnodup
  rw [hfront, List.dropLast_concat] at hf
  rw [hfront, List.nodup_append] at hsorted
  have hne : f ≠ active := hsorted.2.2 f hf active (by simp)
  refine lt_getLast_sortSegments (mem_sortSegments.mp ?_) hactive hne
  rw [hfront]
  exact List.mem_append_left _ hf

/-- What `cleanup_materialized_wal_files` knows in its loop: the active segment
is there, those to come are older, and the names it has loaded are marked. -/
def Deleting (active : String) (fullyMaterialized rest : List String) (w : World) : Prop :=
  active ∈ w.walDir ∧ (∀ f ∈ rest, parseWalKey f < parseWalKey active) ∧
    ∀ f ∈ fullyMaterialized, w.isFullyProcessed f = true

section Deleting

variable {active f : String} {fullyMaterialized rest : List String} {w : World}

theorem Deleting.frameStable : FrameStable (Deleting active fullyMaterialized rest) := by
  intro w w' h hw
  exact ⟨(h.segment active hw.1).1, hw.2.1, fun f hf => by rw [h.isFullyProcessed]; exact hw.2.2 f hf⟩

theorem Deleting.tail (h : Deleting active fullyMaterialized (f :: rest) w) :
    Deleting active fullyMaterialized rest w :=
  ⟨h.1, fun g hg => h.2.1 g (List.mem_cons_of_mem f hg), h.2.2⟩

end Deleting

namespace Discipline

variable {libs : Libs} {settings : Settings} {Allowed : Guard} {c : Conn}
  {R G : World → World → Prop} {I : World → Progress → Prop}
  {Bad : String → WalCorruptionError → Bytes → Prop} {p : Progress} {active f : String}
  {fullyMaterialized rest : List String}

/-- A marked segment that is not the active one is deleted. -/
theorem unlinkWal_triple (D : Discipline libs settings Allowed c R G I Bad) (hnil : p.batch.rows = [])
    (hf : f ∈ fullyMaterialized) :
    Triple (guarded libs settings Allowed) R G
      (At libs c I p (Deleting active fullyMaterialized (f :: rest))) (Prog.perform (.unlinkWal f))
      fun _ => At libs c I p (Deleting active fullyMaterialized rest) := by
  apply D.perform Deleting.frameStable
  · intro w r w' hw _ hexec
    obtain ⟨hin, hI, hd⟩ := hw
    have hlt := hd.2.1 f (by simp)
    cases hl : w.walDir.lookup f with
    | none =>
      simp only [World.exec, hl] at hexec
      obtain ⟨rfl, rfl⟩ := Prod.mk.inj hexec
      exact ⟨D.guarantee_refl hin hI, hin, hI, hd.tail⟩
    | some bytes =>
      have hmem : f ∈ w.walDir := AList.lookup_isSome.mp (by rw [hl]; rfl)
      have hw' : w' = (w.exec libs settings (.unlinkWal f)).2 := (congrArg Prod.snd hexec).symm
      simp only [World.exec, hl] at hexec
      have hin' : Inside libs c w' := by
        obtain ⟨-, rfl⟩ := Prod.mk.inj hexec
        exact ⟨hin.held, hin.serial, hin.fresh.of_eq (Nat.le_refl _) (fun _ h => h) rfl⟩
      obtain ⟨hG, hI'⟩ := D.delete w w' p f hin hin' hI hnil ⟨hmem, active, hd.1, hlt⟩
        (hd.2.2 f hf) hw'
      refine ⟨hG, hin', hI', ?_⟩
      obtain ⟨-, rfl⟩ := Prod.mk.inj hexec
      have hne : active ≠ f := by
        rintro rfl
        exact lt_irrefl _ hlt
      exact ⟨AList.mem_erase.mpr ⟨hne, hd.1⟩, hd.tail.2⟩
  · exact fun w e hw _ => ⟨hw.1, hw.2.1, hw.2.2.tail⟩

theorem commitDeleted_triple (D : Discipline libs settings Allowed c R G I Bad) :
    Triple (guarded libs settings Allowed) R G
      (At libs c I p (Deleting active fullyMaterialized rest)) (Prog.perform (.commitDeleted f))
      fun _ => At libs c I p (Deleting active fullyMaterialized rest) := by
  apply D.quiet (K := fun _ => Deleting active fullyMaterialized rest) Deleting.frameStable
  · intro w r w' hin hw _ hexec
    obtain ⟨rfl, rfl⟩ := Prod.mk.inj hexec
    exact ⟨{ Quiet.refl w with }, hin.fresh.of_eq (Nat.le_refl _) (fun _ h => h) rfl, hw⟩
  · exact fun _ _ hw _ => hw

theorem deleteSegment_triple (D : Discipline libs settings Allowed c R G I Bad)
    (hnil : p.batch.rows = []) (deletedFiles : List String) :
    Triple (guarded libs settings Allowed) R G
      (At libs c I p (Deleting active fullyMaterialized (f :: rest)))
      (deleteSegment fullyMaterialized deletedFiles f)
      fun _ => At libs c I p (Deleting active fullyMaterialized rest) := by
  unfold deleteSegment
  apply Triple.cond
  · exact fun _ => Triple.ret fun w hw => ⟨hw.1, hw.2.1, hw.2.2.tail⟩
  intro hf
  apply Triple.tryThen (D.unlinkWal_triple hnil (not_not.mp hf))
  intro unlinked
  split
  · exact Triple.bind D.commitDeleted_triple (fun _ => Triple.ret fun w hw => hw) fun _ _ hw => hw
  · exact Triple.ret fun w hw => hw
  · exact Triple.raise fun w hw => hw

theorem selectFullyProcessed_triple (D : Discipline libs settings Allowed c R G I Bad) :
    Triple (guarded libs settings Allowed) R G (At libs c I p (Deleting active [] rest))
      (Prog.perform .selectFullyProcessed)
      fun r => At libs c I p fun w => ∀ marked, r = .ok marked → Deleting active marked rest w := by
  apply D.ask (o := .selectFullyProcessed) (K := fun r w => ∀ marked, r = .ok marked →
    Deleting active marked rest w) Deleting.frameStable fun _ => rfl
  · intro w hw _ marked h
    obtain rfl := Except.ok.inj h
    exact ⟨hw.1, hw.2.1, fun f hf => (List.mem_filter.mp hf).2⟩
  · exact fun w e _ _ marked h => by cases h

/-- `cleanup_materialized_wal_files` under the lock. -/
theorem cleanupSealed_triple (D : Discipline libs settings Allowed c R G I Bad)
    (hnil : p.batch.rows = []) :
    Triple (guarded libs settings Allowed) R G (At libs c I p fun _ => True) cleanupSealed
      fun _ => At libs c I p fun _ => True := by
  unfold cleanupSealed
  apply Triple.bind (D.globWal_triple fun _ _ _ _ => trivial)
  swap
  · exact fun _ w hw => ⟨hw.1, hw.2.1, trivial⟩
  intro names
  apply Triple.cond
  · exact fun _ => Triple.ret fun w hw => ⟨hw.1, hw.2.1, trivial⟩
  intro hlen
  obtain ⟨active, hactive⟩ : ∃ active, (sortSegments names).getLast? = some active := by
    cases h : (sortSegments names).getLast? with
    | some active => exact ⟨active, rfl⟩
    | none =>
      rw [List.getLast?_eq_none_iff.mp h] at hlen
      exact absurd (Nat.zero_le 1) hlen
  refine Triple.bind (D.selectFullyProcessed_triple.pre (H := At libs c I p
    (Deleting active [] (sortSegments names).dropLast)) fun w hw => ?start)
    (fun fullyMaterialized => ?loop) fun _ w hw => ⟨hw.1, hw.2.1, trivial⟩
  case start =>
    obtain ⟨hnodup, hmem⟩ := hw.2.2.2 names rfl
    have hnames := mem_sortSegments.mp (List.mem_of_getLast? hactive)
    exact ⟨hw.1, hw.2.1, ((hmem active).mp hnames).1,
      fun f hf => (lt_getLast_of_mem_dropLast hnodup hactive hf).2, fun f hf => by cases hf⟩
  case loop =>
    apply (Triple.forEach (I := fun rest _ =>
      At libs c I p (Deleting active fullyMaterialized rest)) ?_ ?_).pre
    · exact fun w hw => ⟨hw.1, hw.2.1, hw.2.2 fullyMaterialized rfl⟩
    · intro f rest deletedFiles
      apply (D.deleteSegment_triple hnil deletedFiles).post
      intro r w hw
      cases r with
      | ok _ => exact hw
      | error e => exact ⟨hw.1, hw.2.1, trivial⟩
    · exact fun _ w hw => ⟨hw.1, hw.2.1, trivial⟩

end Discipline

end Lrcp.Store
