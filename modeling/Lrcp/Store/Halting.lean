import Lrcp.Framework.Halts
import Lrcp.Store.Startup

namespace Lrcp.Store

open Lrcp.Wal Lrcp.Otlp Lrcp.Framework

/-- What an operation can answer as long as no segment is longer than `N`: a header that is not empty
starts before `N`. -/
def Op.canAnswer (N : Nat) : (α : Type) → Op α → Except PyError α → Prop
  | _, .readHeader _ position, r => ∀ header, r = .ok header → header ≠ [] → position < N
  | _, _, _ => True

/-- No segment is longer than `N`. -/
def World.ShortSegments (N : Nat) (w : World) : Prop := ∀ f, (w.content f).length ≤ N

section Halting

variable {libs : Libs} {settings : Settings} {N : Nat} {t : Thread}

theorem canAnswer_faulty {α : Type} {o : Op α} {w w' : World} {r : Except PyError α} (hw : w.ShortSegments N)
    (h : (faulty libs settings).step o w r w') : o.canAnswer N α r := by
  cases o with
  | readHeader f position =>
    intro header hr hne
    subst hr
    obtain hexec | ⟨e, -, herror, -⟩ := h
    · have hheader : ((w.content f).drop position).take headerSize = header := by
        have heq : World.exec libs settings (.readHeader f position) w = (.ok header, w') := hexec
        simp only [World.exec] at heq
        exact Except.ok.inj (Prod.mk.inj heq).1
      have hlength : header.length ≤ (w.content f).length - position := by
        rw [← hheader]
        simp
      have hpos : 0 < header.length := List.length_pos_of_ne_nil hne
      have hshort := hw f
      omega
    · cases herror
  | _ => trivial

theorem ends_unlinkEach (files : List String) (n : Nat) : Ends (Op.canAnswer N) (unlinkEach files n) := by
  apply Ends.forEach
  intro n file
  apply (Ends.perform _).tryThen
  intro result
  split
  · exact .ret _
  · exact .ret _
  · exact .raise _

theorem ends_cleanupOrphaned : Ends (Op.canAnswer N) cleanupOrphanedParquetFiles := by
  unfold cleanupOrphanedParquetFiles
  apply (Ends.perform _).bind
  intro _
  apply (Ends.perform _).bind
  intro tmpFiles
  apply (ends_unlinkEach tmpFiles 0).bind
  intro n
  apply (Ends.perform _).tryThen
  intro result
  split
  · exact .ret _
  · exact .raise _
  · apply (Ends.perform _).bind
    exact fun files => ends_unlinkEach _ n

theorem ends_lifespan : Ends (Op.canAnswer N) lifespan := by
  unfold lifespan
  apply (Ends.perform _).bind
  intro _
  apply (Ends.perform _).bind
  intro _
  apply (Ends.perform _).bind
  exact fun _ => ends_cleanupOrphaned

theorem ends_lock {α : Type} {body : Call α} (hbody : Ends (Op.canAnswer N) body) :
    Ends (Op.canAnswer N) (storageLifecycleLock t body) := by
  unfold storageLifecycleLock
  apply (Ends.perform _).bind
  intro acquired
  apply Ends.cond (.raise _)
  apply (Ends.perform _).bind
  intro _
  apply Ends.finallyDo _ (.perform _)
  apply (Ends.perform _).bind
  intro c
  apply Ends.finallyDo
  · apply (Ends.perform _).bind
    intro _
    apply (Ends.perform _).bind
    intro _
    exact (Ends.perform _).bind fun _ => hbody
  · apply (Ends.perform _).suppress.bind
    exact fun _ => (Ends.perform _).suppress

theorem ends_flush (p : Progress) : Ends (Op.canAnswer N) (p.flush libs) := by
  have hflush : ∀ rows entries offsets, Ends (Op.canAnswer N) (flushBatch libs rows entries offsets) := by
    intro rows entries offsets
    unfold flushBatch
    apply Ends.cond (.ret _)
    apply (Ends.perform _).bind
    intro _
    apply (Ends.perform _).bind
    intro stamp
    apply (Ends.done _).bind
    intro table
    apply (Ends.perform _).bind
    intro _
    apply (Ends.perform _).bind
    intro _
    exact (Ends.perform _).bind fun _ => .ret _
  exact (hflush _ _ _).bind fun _ => .ret _

/-- A record ends behind its start, and it starts before the end of the longest segment. -/
theorem halts_readRecord (f : String) (q : Nat) :
    Halts (Op.canAnswer N) (fun r => ∀ record, r = .ok (some record) → q < record.stop ∧ q < N)
      (readRecord settings f q) := by
  have hraise : ∀ e : PyError, ∀ record : WalRecord,
      (.error e : Except PyError (Option WalRecord)) = .ok (some record) → q < record.stop ∧ q < N := by
    intro e record h
    cases h
  have hheader : Halts (Op.canAnswer N) (Op.canAnswer N _ (.readHeader f q))
      (Prog.perform (.readHeader f q)) := Halts.perform fun r hr => hr
  unfold readRecord
  apply hheader.bind
  · intro header hheader
    split
    · exact .ret fun record h => by cases h
    · rename_i hne
      apply Halts.bind (Ends.done _)
      · intro head _
        apply Halts.bind (Ends.perform _)
        · intro payload _
          apply Halts.bind (Ends.done _)
          · intro _ _
            apply Halts.ret
            intro record hrecord
            obtain rfl : _ = record := Option.some.inj (Except.ok.inj hrecord)
            refine ⟨?_, hheader header rfl hne⟩
            show q < q + headerSize + head.1
            simp only [headerSize]
            omega
          · exact fun e _ => hraise e
        · exact fun e _ => hraise e
      · exact fun e _ => hraise e
  · exact fun e _ => hraise e

/-- A round that is not the last one has moved on. -/
theorem halts_recordRound (f : String) (s : Progress × Nat) :
    Halts (Op.canAnswer N) (fun r => ∀ s', r = .ok (.inl s') → N - s'.2 < N - s.2)
      (recordRound libs settings f s) := by
  have hleave : ∀ left, ∀ s', (.ok (.inr left) : Except PyError ((Progress × Nat) ⊕
      (Progress × Except PyError Unit))) = .ok (.inl s') → N - s'.2 < N - s.2 := by
    intro left s' h
    cases h
  unfold recordRound
  apply (halts_readRecord f s.2).tryThen
  intro result hresult
  split
  · exact .ret (hleave _)
  · exact .ret (hleave _)
  · rename_i r
    obtain ⟨hstop, hshort⟩ := hresult r rfl
    have hnext : ∀ p : Progress, ∀ s', (.ok (.inl (p, r.stop)) : Except PyError ((Progress × Nat) ⊕
        (Progress × Except PyError Unit))) = .ok (.inl s') → N - s'.2 < N - s.2 := by
      intro p s' h
      obtain rfl : (p, r.stop) = s' := Sum.inl.inj (Except.ok.inj h)
      show N - r.stop < N - s.2
      omega
    split
    · exact .ret (hleave _)
    · dsimp only
      split
      · exact .ret (hnext _)
      · apply Halts.tryThen (ends_flush _)
        intro flushed _
        split
        · exact .ret (hleave _)
        · exact .ret (hnext _)

theorem ends_markFullyProcessed (active f : String) (q : Nat) :
    Ends (Op.canAnswer N) (markFullyProcessed active f q) := by
  unfold markFullyProcessed
  apply Ends.cond (.ret _)
  apply (Ends.perform _).bind
  intro size
  apply Ends.cond (.ret _)
  apply (Ends.perform _).bind
  exact fun size => .perform _

/-- The only loop of the backend whose length is not known beforehand. -/
theorem ends_tryWalFile (active f : String) (q : Nat) (p : Progress) :
    Ends (Op.canAnswer N) (tryWalFile libs settings active f q p) := by
  unfold tryWalFile
  apply (Ends.perform _).tryThen
  intro opened
  split
  · exact .ret _
  apply (Halts.repeatUntil (fun s => N - s.2) (fun s => halts_recordRound f s) (p, q)).bind
  intro left
  obtain ⟨p', result⟩ := left
  cases result with
  | error e => exact .ret _
  | ok u => exact (ends_markFullyProcessed active f _).tryThen fun _ => .ret _

theorem ends_materializeFile (loaded : Loaded) (p : Progress) (f : String) :
    Ends (Op.canAnswer N) (materializeFile libs settings loaded p f) := by
  unfold materializeFile
  apply Ends.cond (.ret _)
  apply (Ends.perform _).bind
  intro size
  apply Ends.cond (.ret _)
  apply Ends.cond (.ret _)
  apply (ends_tryWalFile _ f _ p).bind
  intro left
  obtain ⟨p', result⟩ := left
  cases result with
  | ok u => exact .ret _
  | error e =>
    apply Ends.cond _ (.raise _)
    unfold quarantine
    apply Ends.bind (Ends.cond (.ret _) (ends_flush _))
    intro p'
    exact (Ends.perform _).bind fun _ => .ret _

theorem ends_materializeSegments : Ends (Op.canAnswer N) (materializeSegments libs settings) := by
  unfold materializeSegments
  apply (Ends.perform _).bind
  intro _
  apply (Ends.perform _).bind
  intro _
  apply ends_cleanupOrphaned.bind
  intro _
  apply (Ends.perform _).bind
  intro offsets
  have hquarantined : Ends (Op.canAnswer N) loadQuarantined := by
    unfold loadQuarantined
    apply (Ends.perform _).tryThen
    intro result
    split
    · exact .ret _
    · exact .ret _
    · exact .raise _
  apply hquarantined.bind
  intro quarantined
  apply (Ends.perform _).bind
  intro names
  dsimp only
  split
  · exact .ret _
  apply (Ends.forEach (fun p f => ends_materializeFile _ p f) _ _).bind
  intro p
  exact (Ends.cond (.ret _) (ends_flush _)).bind fun _ => .ret _

theorem ends_cleanupSealed : Ends (Op.canAnswer N) cleanupSealed := by
  unfold cleanupSealed
  apply (Ends.perform _).bind
  intro names
  apply Ends.cond (.ret _)
  apply (Ends.perform _).bind
  intro marked
  apply Ends.forEach
  intro deletedFiles f
  apply Ends.cond (.ret _)
  apply (Ends.perform _).tryThen
  intro unlinked
  split
  · exact (Ends.perform _).bind fun _ => .ret _
  · exact .ret _
  · exact .raise _

theorem ends_writeMerged (tempPath : String) (files : List String) :
    Ends (Op.canAnswer N) (writeMerged tempPath files) := by
  have hmerge : ∀ n f, Ends (Op.canAnswer N) (mergeFile tempPath n f) := by
    intro n f
    apply (Ends.perform _).bind
    intro batches
    apply Ends.forEach
    intro n batch
    exact (Ends.perform _).bind fun _ => .ret _
  unfold writeMerged
  apply (Ends.perform _).tryThen
  intro opened
  split
  · exact (Ends.perform _).bind fun _ => .raise _
  apply (Ends.forEach hmerge _ _).tryThen
  intro merged
  apply (Ends.perform _).suppress.bind
  intro _
  split
  · exact (Ends.perform _).bind fun _ => .raise _
  · exact .ret _

theorem ends_compactCommitted (n : Nat) : Ends (Op.canAnswer N) (compactCommitted n) := by
  unfold compactCommitted
  apply (Ends.perform _).bind
  intro _
  apply (Ends.perform _).bind
  intro names
  apply (Ends.filterBy (fun f => Ends.perform _) _).bind
  intro validFiles
  apply Ends.cond (.ret _)
  apply (Ends.perform _).bind
  intro stamp
  apply (ends_writeMerged _ _).bind
  intro totalRows
  apply Ends.cond
  · exact (Ends.perform _).bind fun _ => .ret _
  apply (Ends.perform _).bind
  intro _
  apply (Ends.perform _).bind
  intro _
  exact (ends_unlinkEach _ 0).bind fun _ => .ret _

theorem ends_materializeAll : Ends (Op.canAnswer N) (materializeAll libs settings t) := by
  unfold materializeAll
  apply ends_materializeSegments.bind
  intro total
  cases total with
  | none => exact .ret _
  | some total => exact Ends.cond ((ends_lock ends_cleanupSealed).bind fun _ => .ret _) (.ret _)

theorem IsCall.ends {α : Type} {p : Call α} (hp : IsCall libs t settings p) : Ends (Op.canAnswer N) p := by
  cases hp with
  | materialize hsize => exact ends_lock ends_materializeAll
  | compact maxFilesToMerge => exact ends_lock (ends_compactCommitted maxFilesToMerge)
  | cleanup => exact ends_lock ends_cleanupSealed
  | orphans => exact ends_lock ends_cleanupOrphaned

end Halting

section Service

variable {libs : Libs} {settings : Thread → Settings} {app N : Nat} {Allowed : Guard} {Stop : World → Prop}
  {t : Thread}

theorem canAnswer_service {α : Type} {o : Op α} {w w' : World} {r : Except PyError α}
    (hw : w.ShortSegments N) (h : ((service libs settings app Allowed Stop).machine t).step o w r w') :
    o.canAnswer N α r := by
  simp only [service] at h
  split at h
  · exact canAnswer_faulty hw h.2
  · exact canAnswer_faulty hw h.2

theorem ends_started {p : Call Unit} {w : World} (h : (service libs settings app Allowed Stop).start t p w) :
    Ends (Op.canAnswer N) p := by
  simp only [service] at h
  split at h
  · rw [h]
    exact ends_lifespan.discard
  · obtain ⟨α, q, hq, rfl⟩ := h
    exact hq.ends.discard

/-- As long as the segments do not grow beyond all bounds, every start and every call comes to an end, by
returning, by an exception or by a kill, unless it is left standing still; whatever the others do. -/
theorem calls_end {X : Nat → Pool Op PyError Unit World Thread}
    (hX : ∀ n, (service libs settings app Allowed Stop).Step (X n) (X (n + 1)))
    (hshort : ∀ n, (X n).state.ShortSegments N) (hfirst : (X 0).thread t = none)
    (hmoves : ∀ n p, (X n).thread t = some p → ∃ m, n ≤ m ∧ (X m).thread t ≠ some p) (n : Nat) :
    ∃ m, n ≤ m ∧ (X m).thread t = none := by
  apply always_idle_again hX hshort hfirst _ hmoves
  intro p w hp
  apply (ends_started (N := N) hp).acc
  intro β o s r s' hs hstep
  exact canAnswer_service hs hstep

end Service

/-- An application on a store without Parquet files. -/
def starting (o : Option (Call Unit)) : Pool Op PyError Unit World Thread :=
  ⟨Function.update (fun _ => none) ⟨0, 0⟩ o, sealedSegment⟩

/-- Its start, after so many of its operations. -/
def startedBy (k : Nat) : Call Unit := (sealedSegment.follow sampleLibs {} k lifespan.discard).1

/-- It is started over and over again. -/
def restarts (n : Nat) : Pool Op PyError Unit World Thread :=
  starting (if n % 9 = 0 then none else some (startedBy (n % 9 - 1)))

theorem restarts_step (n : Nat) :
    (service sampleLibs (fun _ => {}) 0 Op.spares fun _ => True).Step (restarts n) (restarts (n + 1)) := by
  have hupdate : ∀ o o', (⟨Function.update (starting o).thread ⟨0, 0⟩ o', sealedSegment⟩ :
      Pool Op PyError Unit World Thread) = starting o' := by
    intro o o'
    simp [starting]
  have hthread : ∀ o, (starting o).thread ⟨0, 0⟩ = o := fun o => by simp [starting]
  have hlast : n % 9 = 0 ∨ n % 9 = 8 ∨ 0 < n % 9 ∧ n % 9 < 8 := by omega
  rcases hlast with hidle | hended | ⟨hstarted, hrunning⟩
  · have hfirst : (n + 1) % 9 = 1 := by omega
    have hstep := System.Step.start (S := service sampleLibs (fun _ => {}) 0 Op.spares fun _ => True)
      (t := (starting none).thread) (s := sealedSegment) ⟨0, 0⟩ (hthread none) rfl
    rw [hupdate] at hstep
    rw [restarts, restarts, if_pos hidle, hfirst]
    exact hstep
  · have hnone : (n + 1) % 9 = 0 := by omega
    have hstep := System.Step.finish (S := service sampleLibs (fun _ => {}) 0 Op.spares fun _ => True)
      (t := (starting (some (startedBy 7))).thread) (s := sealedSegment) (r := .ok ()) ⟨0, 0⟩ (hthread _)
    rw [hupdate] at hstep
    rw [restarts, restarts, hended, hnone]
    exact hstep
  · obtain ⟨k, hk⟩ : ∃ k, n % 9 = k + 1 := ⟨n % 9 - 1, by omega⟩
    have hnext : (n + 1) % 9 = k + 2 := by omega
    have hphase : Prog.Step (guarded sampleLibs {} Op.spares) (startedBy k, sealedSegment)
        (startedBy (k + 1), sealedSegment) := by
      have hcases : k = 0 ∨ k = 1 ∨ k = 2 ∨ k = 3 ∨ k = 4 ∨ k = 5 ∨ k = 6 := by omega
      rcases hcases with rfl | rfl | rfl | rfl | rfl | rfl | rfl <;> exact .call ⟨trivial, .inl rfl⟩
    have hstep := System.Step.run (S := service sampleLibs (fun _ => {}) 0 Op.spares fun _ => True)
      (t := (starting (some (startedBy k))).thread) (s := sealedSegment) ⟨0, 0⟩ (hthread _) hphase
    rw [hupdate] at hstep
    rw [restarts, restarts, hk, hnext]
    exact hstep

theorem calls_end_restarts : ∃ m, 1000 ≤ m ∧ (restarts m).thread ⟨0, 0⟩ = none := by
  have hshort : ∀ n, (restarts n).state.ShortSegments 100 := by
    intro n f
    show ((sealedSegment.walDir.lookup f).getD []).length ≤ 100
    by_cases hone : f = "wal-1.wal"
    · subst hone
      decide +kernel
    by_cases hzero : f = "wal-0.wal"
    · subst hzero
      decide +kernel
    · have hnone : sealedSegment.walDir.lookup f = none :=
        (AList.lookup_insert_ne hone).trans ((AList.lookup_insert_ne hzero).trans (AList.lookup_empty f))
      rw [hnone]
      simp
  have hmoves : ∀ n p, (restarts n).thread ⟨0, 0⟩ = some p →
      ∃ m, n ≤ m ∧ (restarts m).thread ⟨0, 0⟩ ≠ some p := by
    intro n p _
    refine ⟨n + (9 - n % 9), by omega, ?_⟩
    have hidle : (n + (9 - n % 9)) % 9 = 0 := by omega
    simp [restarts, starting, hidle]
  exact calls_end restarts_step hshort (by simp [restarts, starting]) hmoves 1000

end Lrcp.Store
