import Lrcp.Store.Completion
import Lrcp.Store.Internal
import Lrcp.Store.Retention

namespace Lrcp.Store

open Lrcp.Wal Lrcp.Otlp Lrcp.Framework

section Nested

variable {libs : Libs} {settings : Settings} {t : Thread} {c : Conn} {d : Table Bytes} {w : World}
  {α : Type} {body : Call α} {F : World → Prop}

/-- What comes of a call under the lock, from what is done with the connection: its
outcome, and an assertion that does not depend on the locks, which holds all the time. -/
theorem lock_outcome {P : World → Prop} {K : Except PyError α → Prop} (herror : ∀ e, K (.error e))
    (hP : ∀ w w', P w → Housekeeping w w' → P w') (hPF : ∀ w, P w → F w)
    (hF : ∀ w w', Relocked w w' → F w → F w')
    (hinside : ∀ c, Triple (regular libs settings) Eq (fun _ w' => F w')
      (fun w' => ∃ w, P w ∧ c = ⟨t, w.connections⟩ ∧ w' = { w with connections := w.connections + 1 })
      (do
        Prog.perform (.busyTimeout c)
        Prog.perform (.createLockTable c)
        Prog.perform (.beginExclusive c)
        body) fun r w => K r ∧ F w) :
    Triple (regular libs settings) Eq (fun _ w' => F w') P (storageLifecycleLock t body)
      fun r w => K r ∧ F w := by
  have hafter : ∀ (r : Except PyError α) {β : Type} (o : Op β),
      (∀ w r w', World.exec libs settings o w = (r, w') → Relocked w w') →
      Triple (regular libs settings) Eq (fun _ w' => F w') (fun w => K r ∧ F w)
        (Prog.perform o) fun _ w => K r ∧ F w := by
    intro r β o ho
    apply Triple.perform stable_eq
    intro w r' w' hw hexec
    have hw' := hF w w' (ho w r' w' hexec) hw.2
    exact ⟨hw', hw.1, hw'⟩
  unfold storageLifecycleLock
  apply Triple.bind (J := fun _ => P)
  · apply Triple.perform stable_eq
    intro s r s' hs hexec
    have hs' := hP s s' hs (Housekeeping.lockAcquire hexec).1
    exact ⟨hPF s' hs', hs'⟩
  swap
  · exact fun e s hs => ⟨herror e, hPF s hs⟩
  intro acquired
  apply Triple.cond
  · exact fun _ => Triple.raise fun s hs => ⟨herror _, hPF s hs⟩
  intro _
  apply Triple.bind (J := fun _ => P)
  · apply Triple.perform stable_eq
    intro s r s' hs hexec
    obtain ⟨-, rfl⟩ := Prod.mk.inj hexec
    exact ⟨hPF s hs, hs⟩
  swap
  · exact fun e s hs => ⟨herror e, hPF s hs⟩
  intro _
  apply Triple.finallyDo (J := fun r w => K r ∧ F w) (F := fun r _ w => K r ∧ F w)
  · apply Triple.bind (J := fun r w' => ∃ c w, r = .ok c ∧ P w ∧ c = ⟨t, w.connections⟩ ∧
      w' = { w with connections := w.connections + 1 })
    · apply Triple.perform stable_eq
      intro s r s' hs hexec
      obtain ⟨rfl, rfl⟩ := Prod.mk.inj hexec
      exact ⟨hF s _ (Housekeeping.connect s).relocked (hPF s hs), _, s, rfl, hs, rfl, rfl⟩
    · intro c
      apply Triple.finallyDo (J := fun r w => K r ∧ F w) (F := fun r _ w => K r ∧ F w)
      · apply (hinside c).pre
        intro w' hw'
        obtain ⟨c', w, hc, hw, hrest⟩ := hw'
        obtain rfl := Except.ok.inj hc
        exact ⟨w, hw, hrest⟩
      · intro r
        apply Triple.bind (J := fun _ w => K r ∧ F w)
        · exact Triple.suppress (hafter r (.rollback c) onLocks_rollback.relocked) fun _ _ h => h
        · exact fun _ => Triple.suppress (hafter r (.close c) onLocks_close.relocked) fun _ _ h => h
        · exact fun _ _ h => h
      · exact fun _ _ _ h => h
      · exact fun _ e _ h => ⟨herror e, h.2⟩
    · intro e s hs
      obtain ⟨c, w, hc, -⟩ := hs
      cases hc
  · exact fun r => hafter r (.lockRelease t) onLocks_lockRelease.relocked
  · exact fun _ _ _ h => h
  · exact fun _ e _ h => ⟨herror e, h.2⟩

/-- A transaction is open on the lock database, and the segments are those of `d`. -/
structure Occupied (c : Conn) (d : Table Bytes) (w : World) : Prop where
  exclusive : w.exclusive = some c
  serial : c.serial < w.connections
  walDir : w.walDir = d

/-- A call that needs the lock while a connection holds it fails. -/
theorem nested_fails (hF : ∀ w w', Relocked w w' → F w → F w') :
    Triple (regular libs settings) Eq (fun _ w' => F w') (fun w => Occupied c d w ∧ F w)
      (storageLifecycleLock t body) fun r w => (∃ e, r = .error e) ∧ F w := by
  apply lock_outcome (fun e => ⟨e, rfl⟩) _ (fun w hw => hw.2) hF
  · intro c'
    apply Triple.bind (J := fun _ w => (w.exclusive = some c ∧ c ≠ c') ∧ F w)
    · apply Triple.perform stable_eq
      intro s r s' hs hexec
      obtain ⟨w, ⟨hw, hFw⟩, rfl, rfl⟩ := hs
      obtain ⟨-, rfl⟩ := Prod.mk.inj hexec
      have hFs := hF w _ (Housekeeping.connect w).relocked hFw
      refine ⟨hFs, ⟨hw.exclusive, fun hc => ?_⟩, hFs⟩
      have hserial := hw.serial
      rw [hc] at hserial
      exact Nat.lt_irrefl _ hserial
    swap
    · exact fun e s hs => ⟨⟨e, rfl⟩, hs.2⟩
    intro _
    apply Triple.bind (J := fun r w => (∃ e, r = .error e) ∧ F w)
    · apply Triple.perform stable_eq
      intro s r s' hs hexec
      have hout : s.lockedOut c' = true := by simp [World.lockedOut, hs.1.1, hs.1.2]
      replace hexec : World.exec libs settings (.createLockTable c') s = (r, s') := hexec
      simp only [World.exec, if_pos hout] at hexec
      obtain ⟨rfl, rfl⟩ := Prod.mk.inj hexec
      exact ⟨hs.2, ⟨_, rfl⟩, hs.2⟩
    · intro u n s hs
      obtain ⟨⟨e, he⟩, -⟩ := hs
      cases he
    · exact fun e s hs => ⟨⟨e, rfl⟩, hs.2⟩
  · intro w w' hw h
    have hq := h.quiet
    exact ⟨⟨hq.exclusive.trans hw.1.exclusive, hw.1.serial.trans_le hq.connections,
      hq.walDir.trans hw.1.walDir⟩, hF w w' h.relocked hw.2⟩

/-- `materialize` from what is done under the lock: it never gets to delete a
segment, and with automatic cleanup it returns only when there is none. -/
theorem materialize_outcome {N : Prop} (hF : ∀ w w', Relocked w w' → F w → F w')
    (hsegments : ∀ c, Triple (regular libs settings) Eq (fun _ w' => F w')
      (fun w => Occupied c d w ∧ F w) (materializeSegments libs settings)
      fun r w => (Occupied c d w ∧ F w) ∧ (r = .ok none → N)) :
    Triple (regular libs settings) Eq (fun _ w' => F w') (fun w => w.walDir = d ∧ F w)
      (materialize libs settings t) fun r w =>
        (settings.autoCleanupWal = true → ∀ total, r = .ok total → N) ∧ F w := by
  have hfail : ∀ e : PyError, settings.autoCleanupWal = true → ∀ total,
      (.error e : Except PyError Nat) = .ok total → N := fun e _ total h => by cases h
  unfold materialize
  apply lock_outcome hfail _ (fun w hw => hw.2) hF
  · intro c
    have hstep : ∀ (o : Op Unit), (∀ w r w', World.exec libs settings o w = (r, w') → w' = w) →
        Triple (regular libs settings) Eq (fun _ w' => F w')
          (fun w => (c.serial < w.connections ∧ w.walDir = d) ∧ F w) (Prog.perform o)
          fun _ w => (c.serial < w.connections ∧ w.walDir = d) ∧ F w := by
      intro o ho
      apply Triple.perform stable_eq
      intro w r w' hw hexec
      rw [ho w r w' hexec]
      exact ⟨hw.2, hw⟩
    have hcreate : ∀ w r w', World.exec libs settings (.createLockTable c) w = (r, w') → w' = w := by
      intro w r w' h
      simp only [World.exec] at h
      split_ifs at h
      · exact (Prod.mk.inj h).2.symm
      · exact (Prod.mk.inj h).2.symm
    apply Triple.pre (H := fun w => (c.serial < w.connections ∧ w.walDir = d) ∧ F w)
    · intro w' hw'
      obtain ⟨w, hw, rfl, rfl⟩ := hw'
      exact ⟨⟨Nat.lt_succ_self _, hw.1⟩, hF w _ (Housekeeping.connect w).relocked hw.2⟩
    apply Triple.bind (hstep (.busyTimeout c) fun w r w' h => (Prod.mk.inj h).2.symm) _
      fun e w hw => ⟨hfail e, hw.2⟩
    intro _
    apply Triple.bind (hstep (.createLockTable c) hcreate) _ fun e w hw => ⟨hfail e, hw.2⟩
    intro _
    apply Triple.bind (J := fun r w => (r = .ok () → Occupied c d w) ∧ F w)
    · apply Triple.perform stable_eq
      intro w r w' hw hexec
      replace hexec : World.exec libs settings (.beginExclusive c) w = (r, w') := hexec
      simp only [World.exec] at hexec
      split_ifs at hexec
      · obtain ⟨rfl, rfl⟩ := Prod.mk.inj hexec
        exact ⟨hw.2, fun hr => (by cases hr), hw.2⟩
      · obtain ⟨-, rfl⟩ := Prod.mk.inj hexec
        have hFw := hF w _ (relocked_enter w c) hw.2
        exact ⟨hFw, fun _ => ⟨rfl, hw.1.1, hw.1.2⟩, hFw⟩
    swap
    · exact fun e w hw => ⟨hfail e, hw.2⟩
    intro u
    unfold materializeAll
    apply Triple.bind ((hsegments c).pre fun w hw => ⟨hw.1 rfl, hw.2⟩)
    swap
    · exact fun e w hw => ⟨hfail e, hw.1.2⟩
    intro total
    cases total with
    | none => exact Triple.ret fun w hw => ⟨fun _ _ _ => hw.2 rfl, hw.1.2⟩
    | some total =>
      apply Triple.cond
      · intro _
        apply Triple.bind ((nested_fails hF).pre fun w hw => hw.1)
        · intro names n w hw
          obtain ⟨⟨e, he⟩, -⟩ := hw
          cases he
        · exact fun e w hw => ⟨hfail e, hw.2⟩
      · exact fun hoff => Triple.ret fun w hw => ⟨fun hon => absurd hon hoff, hw.1.2⟩
  · intro w w' hw h
    exact ⟨h.quiet.walDir.trans hw.1, hF w w' h.relocked hw.2⟩

/-- Without a segment there is nothing to materialize. -/
def NoSegment (d : Table Bytes) : Prop := ∀ f ∈ d, hasSuffix ".wal" f = false

theorem internal_triple {p : Call α} (hp : Only Op.internal p) :
    Triple (regular libs settings) Eq (fun _ w' => w'.walDir = d) (Occupied c d) p
      fun _ => Occupied c d := by
  apply hp.triple stable_eq
  intro β o w r w' ho hw hexec
  obtain ⟨hex, hconn, hdir⟩ := ho.exec hexec
  have hdir' := hdir.trans hw.walDir
  exact ⟨hdir', hex.trans hw.exclusive, by rw [hconn]; exact hw.serial, hdir'⟩

/-- When `materialize` gets past the segments, there is one or none. -/
theorem materializeSegments_occupied :
    Triple (regular libs settings) Eq (fun _ w' => w'.walDir = d) (Occupied c d)
      (materializeSegments libs settings)
      fun r w => Occupied c d w ∧ (r = .ok none → NoSegment d) := by
  have herror : ∀ (e : PyError) w, Occupied c d w → Occupied c d w ∧
      ((.error e : Except PyError (Option Nat)) = .ok none → NoSegment d) :=
    fun e w hw => ⟨hw, fun h => by cases h⟩
  unfold materializeSegments
  apply Triple.bind (internal_triple (Only.perform (by trivial))) _ herror
  intro _
  apply Triple.bind (internal_triple (Only.perform (by trivial))) _ herror
  intro _
  apply Triple.bind (internal_triple (plain_internal plain_cleanupOrphaned)) _ herror
  intro _
  apply Triple.bind (internal_triple (Only.perform (by trivial))) _ herror
  intro offsets
  apply Triple.bind (internal_triple (plain_internal plain_loadQuarantined)) _ herror
  intro quarantined
  apply Triple.bind (J := fun r w => Occupied c d w ∧
    ∀ names, r = .ok names → names = d.keys.filter (hasSuffix ".wal"))
  · apply Triple.perform stable_eq
    intro w r w' hw hexec
    obtain ⟨rfl, rfl⟩ := Prod.mk.inj hexec
    refine ⟨hw.walDir, hw, fun names hnames => ?_⟩
    rw [← Except.ok.inj hnames, hw.walDir]
  swap
  · exact fun e w hw => herror e w hw.1
  intro names
  dsimp only
  cases hactive : (sortSegments names).getLast? with
  | none =>
    apply Triple.ret
    intro w hw
    refine ⟨hw.1, fun _ f hf => ?_⟩
    have hnil : sortSegments names = [] := List.getLast?_eq_none_iff.mp hactive
    rw [hw.2 names rfl] at hnil
    cases hsuffix : hasSuffix ".wal" f with
    | false => rfl
    | true =>
      have hmem : f ∈ sortSegments (d.keys.filter (hasSuffix ".wal")) :=
        mem_sortSegments.mpr (List.mem_filter.mpr ⟨hf, hsuffix⟩)
      rw [hnil] at hmem
      cases hmem
  | some active =>
    apply Triple.bind ((internal_triple (Only.forEach fun p f =>
      segmentwise_internal (segmentwise_materializeFile _ p f))).pre fun w hw => hw.1) _ herror
    intro p
    apply Triple.bind (internal_triple (Only.cond (.ret _) (plain_internal (plain_flush _)))) _ herror
    intro p'
    exact Triple.ret fun w hw => ⟨hw, fun h => by cases h⟩

theorem materialize_noSegment :
    Triple (regular libs settings) Eq (fun _ w' => w'.walDir = d) (fun w => w.walDir = d)
      (materialize libs settings t) fun r w =>
        (settings.autoCleanupWal = true → ∀ total, r = .ok total → NoSegment d) ∧ w.walDir = d := by
  apply (materialize_outcome (F := fun w => w.walDir = d) (d := d) _ _).pre fun w hw => ⟨hw, hw⟩
  · intro w w' h hw
    obtain ⟨e, n, l, renamed, rfl⟩ := h
    exact hw
  · intro c
    exact (materializeSegments_occupied (d := d)).conseq (fun w hw => hw.1)
      fun r w hw => ⟨⟨hw.1, hw.1.walDir⟩, hw.2⟩

end Nested

/-- A run of `materialize` returns, in which no operation waits for a transaction
of its own thread, and leaves no sealed segment that is marked. -/
def CleansUp (libs : Libs) (settings : Settings) (t : Thread) (w : World) : Prop :=
  ∃ total w', Prog.Runs (patient libs settings) (materialize libs settings t, w) (.ret total, w') ∧
    ∀ f, w'.Behind f → w'.isFullyProcessed f = false

theorem patient_regular {libs : Libs} {settings : Settings} {α : Type} {c d : Call α × World}
    (h : Prog.Runs (patient libs settings) c d) : Prog.Runs (regular libs settings) c d :=
  h.mono (M := patient libs settings) (N := regular libs settings) fun _ _ _ _ hm => hm.2

theorem materialize_walDir {libs : Libs} {settings : Settings} {t : Thread} {w w' : World}
    {total : Nat} (hr : Prog.Runs (regular libs settings) (materialize libs settings t, w) (.ret total, w')) :
    (settings.autoCleanupWal = true → NoSegment w.walDir) ∧ w'.walDir = w.walDir := by
  have hrun := (materialize_noSegment.runs (P := fun w' => w'.walDir = w.walDir)
    (I := fun w' => w'.walDir = w.walDir) rfl rfl hr).2 (.ok total) rfl
  exact ⟨fun hauto => hrun.1 hauto total rfl, hrun.2⟩

/-- The nested lock never comes free: automatic cleanup works only where there is
nothing to clean up. -/
theorem materialize_cleansUp {libs : Libs} {settings : Settings} {t : Thread} {w : World}
    (hauto : settings.autoCleanupWal = true) (hw : Unlocked t w) :
    CleansUp libs settings t w ↔ NoSegment w.walDir := by
  constructor
  · intro h
    obtain ⟨total, w', hr, -⟩ := h
    exact (materialize_walDir (patient_regular hr)).1 hauto
  · intro hnone
    have hread : PendingReadable libs settings.maxWalRecordBytes w := by
      intro f hf hwal
      rw [hnone f hf] at hwal
      cases hwal
    obtain ⟨total, w', hr, -, hdir⟩ := materialize_reaches hw hread fun _ => hnone
    refine ⟨total, w', hr, fun f hbehind => ?_⟩
    have hwal := hbehind.1
    rw [hnone f (hdir ▸ hbehind.2.1)] at hwal
    cases hwal

theorem materialize_cleansUp_empty :
    CleansUp sampleLibs { autoCleanupWal := true } ⟨0, 0⟩ (.ofSegments ∅) :=
  (materialize_cleansUp rfl ⟨rfl, rfl⟩).mpr fun f hf => absurd hf (AList.notMem_empty f)

/-- The call that has materialized a segment fails when it is to delete it. -/
theorem not_cleansUp :
    (∃ w', Prog.Runs (regular sampleLibs { autoCleanupWal := true })
      (materialize sampleLibs { autoCleanupWal := true } ⟨0, 0⟩, sealedSegment)
      (.raise databaseIsLocked, w')) ∧
    ¬CleansUp sampleLibs { autoCleanupWal := true } ⟨0, 0⟩ sealedSegment := by
  constructor
  · exact ⟨_, World.follow_outcome (n := 80) (r := .error databaseIsLocked) (by decide +kernel)⟩
  · intro h
    obtain ⟨total, w', hr, -⟩ := h
    have hnone := (materialize_walDir (patient_regular hr)).1 rfl "wal-0.wal" (by decide)
    revert hnone
    decide

end Lrcp.Store
