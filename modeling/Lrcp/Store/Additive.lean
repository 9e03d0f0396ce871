import Lrcp.Store.Startup

namespace Lrcp.Store

open Lrcp.Wal Lrcp.Otlp Lrcp.Framework

/-- An operation that removes no segment and compacts no file. -/
def Op.additive : {α : Type} → Op α → Prop
  | _, .unlinkWal _ => False
  | _, .commitCompaction .. => False
  | _, _ => True

/-- An operation of the lifecycle lock. -/
def Op.locking : {α : Type} → Op α → Prop
  | _, .lockAcquire _ => True
  | _, .lockRelease _ => True
  | _, .mkdirData => True
  | _, .connect _ => True
  | _, .busyTimeout _ => True
  | _, .createLockTable _ => True
  | _, .beginExclusive _ => True
  | _, .rollback _ => True
  | _, .close _ => True
  | _, _ => False

/-- No segment is gone or shorter, and what was committed is still committed. -/
structure Retains (w w' : World) : Prop where
  segments : ∀ f ∈ w.walDir, f ∈ w'.walDir ∧ w.content f <+: w'.content f
  committed : ∀ f, w.isCommitted f = true → w'.isCommitted f = true

section Additive

variable {libs : Libs} {settings : Settings} {w w' w'' : World} {α : Type}

theorem Retains.refl (w : World) : Retains w w := ⟨fun _ hf => ⟨hf, List.prefix_rfl⟩, fun _ hf => hf⟩

theorem Retains.trans (h : Retains w w') (h' : Retains w' w'') : Retains w w'' where
  segments f hf := by
    obtain ⟨hmem, hprefix⟩ := h.segments f hf
    obtain ⟨hmem', hprefix'⟩ := h'.segments f hmem
    exact ⟨hmem', hprefix.trans hprefix'⟩
  committed f hf := h'.committed f (h.committed f hf)

theorem Retains.of_same (hwal : w'.walDir = w.walDir)
    (hfiles : w'.control.parquetFiles = w.control.parquetFiles) : Retains w w' where
  segments f hf := by
    simp only [World.content, hwal]
    exact ⟨hf, List.prefix_rfl⟩
  committed f hf := by
    unfold World.isCommitted at hf ⊢
    rw [hfiles]
    exact hf

theorem isCommitted_insert {f name : String} {recordCount : Nat}
    (hfiles : w'.control.parquetFiles = w.control.parquetFiles.insert name ⟨recordCount, .committed⟩)
    (hf : w.isCommitted f = true) : w'.isCommitted f = true := by
  unfold World.isCommitted at hf ⊢
  rw [hfiles]
  by_cases h : f = name
  · subst h
    rw [AList.lookup_insert]
    rfl
  · rw [AList.lookup_insert_ne h]
    exact hf

/-- The segments stay as they are, and at most one file becomes committed. -/
theorem Op.additive.exec {o : Op α} {r : Except PyError α} (ho : o.additive)
    (h : World.exec libs settings o w = (r, w')) : w'.walDir = w.walDir ∧
      (w'.control.parquetFiles = w.control.parquetFiles ∨ ∃ name recordCount,
        w'.control.parquetFiles = w.control.parquetFiles.insert name ⟨recordCount, .committed⟩) := by
  cases o with
  | unlinkWal f => exact ho.elim
  | commitCompaction name recordCount merged => exact ho.elim
  | commitBatch name recordCount entries fileOffsets =>
    simp only [World.exec] at h
    obtain ⟨-, rfl⟩ := Prod.mk.inj h
    exact ⟨rfl, .inr ⟨name, recordCount, rfl⟩⟩
  | close c =>
    simp only [World.exec, World.release] at h
    obtain ⟨-, rfl⟩ := Prod.mk.inj h
    split <;> exact ⟨rfl, .inl rfl⟩
  | rollback c =>
    simp only [World.exec, World.release] at h
    split at h <;> (obtain ⟨-, rfl⟩ := Prod.mk.inj h; exact ⟨rfl, .inl rfl⟩)
  | _ =>
    simp only [World.exec] at h
    first
      | (obtain ⟨-, rfl⟩ := Prod.mk.inj h; exact ⟨rfl, .inl rfl⟩)
      | (split at h <;> first
          | (obtain ⟨-, rfl⟩ := Prod.mk.inj h; exact ⟨rfl, .inl rfl⟩)
          | (split at h <;> (obtain ⟨-, rfl⟩ := Prod.mk.inj h; exact ⟨rfl, .inl rfl⟩)))

theorem Op.additive.retains {Allowed : Guard} {o : Op α} {r : Except PyError α} (ho : o.additive)
    (h : (guarded libs settings Allowed).step o w r w') : Retains w w' := by
  obtain ⟨-, hexec | ⟨e, -, -, rfl⟩⟩ := h
  · obtain ⟨hwal, hfiles | ⟨name, recordCount, hfiles⟩⟩ := ho.exec hexec
    · exact .of_same hwal hfiles
    · refine ⟨?_, fun f hf => isCommitted_insert hfiles hf⟩
      intro f hf
      simp only [World.content, hwal]
      exact ⟨hf, List.prefix_rfl⟩
  · exact .refl _

theorem Extended.retains (h : Extended w w') : Retains w w' := by
  obtain ⟨f, bytes, hf, rfl⟩ := h
  refine ⟨fun g hg => ?_, fun g hg => hg⟩
  have hmem : g ∈ w.walDir.insert f bytes := (AList.mem_insert _).mpr (.inr hg)
  have hprefix := hf.written_prefix g
  rw [written_of_mem hg, written_of_mem (w := { w with walDir := w.walDir.insert f bytes }) hmem] at hprefix
  exact ⟨hmem, hprefix⟩

theorem crash_retains (w : World) (t : Thread) : Retains w (w.crash t) := by
  obtain ⟨w', hfirst, hsecond⟩ := w.crash_cases t
  have hreleased : Retains w w' := by
    rcases hfirst with ⟨rfl, -⟩ | ⟨c, hex, -, rfl⟩
    · exact .refl _
    · rw [World.release, if_pos hex]
      exact .of_same rfl rfl
  rcases hsecond with ⟨hsame, -⟩ | ⟨depth, -, hsame⟩
  · rw [hsame]
    exact hreleased
  · rw [hsame]
    exact hreleased.trans (.of_same rfl rfl)

/-- The lock by itself does nothing that its operations do not. -/
theorem only_lock {φ : {γ : Type} → Op γ → Prop} {t : Thread} {body : Call α}
    (hlock : ∀ {γ : Type} (o : Op γ), o.locking → φ o) (hbody : Only φ body) :
    Only φ (storageLifecycleLock t body) := by
  unfold storageLifecycleLock
  apply (Only.perform (hlock _ (by trivial))).bind
  intro acquired
  apply Only.cond (.raise _)
  apply (Only.perform (hlock _ (by trivial))).bind
  intro _
  apply Only.finallyDo _ (.perform (hlock _ (by trivial)))
  apply (Only.perform (hlock _ (by trivial))).bind
  intro c
  apply Only.finallyDo
  · apply (Only.perform (hlock _ (by trivial))).bind
    intro _
    apply (Only.perform (hlock _ (by trivial))).bind
    intro _
    apply (Only.perform (hlock _ (by trivial))).bind
    exact fun _ => hbody
  · apply (Only.suppress (.perform (hlock _ (by trivial)))).bind
    exact fun _ => .suppress (.perform (hlock _ (by trivial)))

theorem additive_segmentwise {p : Call α} (hp : Only Op.segmentwise p) : Only Op.additive p := by
  apply hp.mono
  intro β o ho
  cases o <;> first
    | exact trivial
    | exact ho.elim

theorem additive_lifespan : Only Op.additive lifespan :=
  additive_segmentwise (plain_segmentwise (sweeping_lifespan.mono fun _ ho => ho.plain))

/-- Without the automatic cleanup, `materialize` removes no segment. -/
theorem additive_materialize (t : Thread) (hauto : settings.autoCleanupWal = false) :
    Only Op.additive (materialize libs settings t) := by
  apply only_lock
  · intro γ o ho
    cases o <;> first
      | exact trivial
      | exact ho.elim
  · unfold materializeAll
    apply (additive_segmentwise segmentwise_materializeSegments).bind
    intro total
    cases total with
    | none => exact .ret _
    | some total =>
      simp only [hauto]
      exact .ret _

end Additive

end Lrcp.Store
