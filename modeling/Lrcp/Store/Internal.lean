import Lrcp.Framework.Only
import Lrcp.Store.Materializer

namespace Lrcp.Store

open Lrcp.Wal Lrcp.Otlp Lrcp.Framework

/-- An operation that takes neither lock and gives none back. -/
def Op.lockless : {α : Type} → Op α → Prop
  | _, .lockAcquire _ => False
  | _, .lockRelease _ => False
  | _, .connect _ => False
  | _, .beginExclusive _ => False
  | _, .rollback _ => False
  | _, .close _ => False
  | _, _ => True

/-- An operation that leaves the locks and the segments alone. -/
def Op.internal : {α : Type} → Op α → Prop
  | _, .lockAcquire _ => False
  | _, .lockRelease _ => False
  | _, .connect _ => False
  | _, .beginExclusive _ => False
  | _, .rollback _ => False
  | _, .close _ => False
  | _, .unlinkWal _ => False
  | _, _ => True

/-- An internal operation that records no deletion and no compaction. -/
def Op.segmentwise : {α : Type} → Op α → Prop
  | _, .commitDeleted _ => False
  | _, .commitCompaction .. => False
  | _, o => o.internal

/-- Such an operation that records no corruption either. -/
def Op.plain : {α : Type} → Op α → Prop
  | _, .commitQuarantine .. => False
  | _, o => o.segmentwise

/-- An operation of the start of the application. -/
def Op.sweeping : {α : Type} → Op α → Prop
  | _, .createTables => True
  | _, .mkdirWal => True
  | _, .mkdirParquet => True
  | _, .globTmp => True
  | _, .globParquet => True
  | _, .unlinkParquet _ => True
  | _, .selectCommitted => True
  | _, _ => False

section Internal

variable {libs : Libs} {settings : Settings}

theorem Op.internal.exec {α : Type} {o : Op α} {w w' : World} {r : Except PyError α} (ho : o.internal)
    (h : World.exec libs settings o w = (r, w')) :
    w'.exclusive = w.exclusive ∧ w'.connections = w.connections ∧ w'.walDir = w.walDir := by
  cases o <;> simp only [World.exec] at h <;> first
    | exact ho.elim
    | (obtain ⟨-, rfl⟩ := Prod.mk.inj h; exact ⟨rfl, rfl, rfl⟩)
    | (split at h <;> (obtain ⟨-, rfl⟩ := Prod.mk.inj h; exact ⟨rfl, rfl, rfl⟩))
    | (split at h; · (obtain ⟨-, rfl⟩ := Prod.mk.inj h; exact ⟨rfl, rfl, rfl⟩)
       split at h <;> (obtain ⟨-, rfl⟩ := Prod.mk.inj h; exact ⟨rfl, rfl, rfl⟩))

theorem Op.lockless.exec {α : Type} {o : Op α} {w w' : World} {r : Except PyError α} (ho : o.lockless)
    (h : World.exec libs settings o w = (r, w')) : w'.rlock = w.rlock ∧ w'.exclusive = w.exclusive := by
  cases o <;> simp only [World.exec] at h <;> first
    | exact ho.elim
    | (obtain ⟨-, rfl⟩ := Prod.mk.inj h; exact ⟨rfl, rfl⟩)
    | (split at h <;> (obtain ⟨-, rfl⟩ := Prod.mk.inj h; exact ⟨rfl, rfl⟩))
    | (split at h; · (obtain ⟨-, rfl⟩ := Prod.mk.inj h; exact ⟨rfl, rfl⟩)
       split at h <;> (obtain ⟨-, rfl⟩ := Prod.mk.inj h; exact ⟨rfl, rfl⟩))

theorem internal_lockless {α : Type} {p : Call α} (hp : Only Op.internal p) : Only Op.lockless p := by
  apply hp.mono
  intro β o ho
  cases o <;> first
    | exact ho.elim
    | trivial

theorem Op.segmentwise.internal {α : Type} {o : Op α} (ho : o.segmentwise) : o.internal := by
  cases o <;> first
    | exact ho.elim
    | exact ho

theorem Op.plain.segmentwise {α : Type} {o : Op α} (ho : o.plain) : o.segmentwise := by
  cases o <;> first
    | exact ho.elim
    | exact ho

theorem Op.plain.exec {α : Type} {o : Op α} {w w' : World} {r : Except PyError α} (ho : o.plain)
    (h : World.exec libs settings o w = (r, w')) :
    w'.control.walCorruptionEvents = w.control.walCorruptionEvents ∧
      w'.control.walFileLifecycle = w.control.walFileLifecycle := by
  cases o <;> simp only [World.exec] at h <;> first
    | exact ho.elim
    | (obtain ⟨-, rfl⟩ := Prod.mk.inj h; exact ⟨rfl, rfl⟩)
    | (split at h <;> (obtain ⟨-, rfl⟩ := Prod.mk.inj h; exact ⟨rfl, rfl⟩))
    | (split at h; · (obtain ⟨-, rfl⟩ := Prod.mk.inj h; exact ⟨rfl, rfl⟩)
       split at h <;> (obtain ⟨-, rfl⟩ := Prod.mk.inj h; exact ⟨rfl, rfl⟩))

theorem segmentwise_internal {α : Type} {p : Call α} (hp : Only Op.segmentwise p) : Only Op.internal p :=
  hp.mono fun _ ho => ho.internal

theorem plain_segmentwise {α : Type} {p : Call α} (hp : Only Op.plain p) : Only Op.segmentwise p :=
  hp.mono fun _ ho => ho.segmentwise

theorem plain_internal {α : Type} {p : Call α} (hp : Only Op.plain p) : Only Op.internal p :=
  segmentwise_internal (plain_segmentwise hp)

theorem Op.sweeping.plain {α : Type} {o : Op α} (ho : o.sweeping) : o.plain := by
  cases o <;> first
    | exact ho.elim
    | trivial

theorem sweeping_unlinkEach (files : List String) (n : Nat) :
    Only Op.sweeping (unlinkEach files n) := by
  apply Only.forEach
  intro n file
  apply (Only.attempt (Only.perform trivial)).bind
  intro result
  split
  · exact .ret _
  · exact .ret _
  · exact .raise _

theorem sweeping_cleanupOrphaned : Only Op.sweeping cleanupOrphanedParquetFiles := by
  unfold cleanupOrphanedParquetFiles
  apply (Only.perform trivial).bind
  intro _
  apply (Only.perform trivial).bind
  intro tmpFiles
  apply (sweeping_unlinkEach tmpFiles 0).bind
  intro n
  apply (Only.attempt (Only.perform trivial)).bind
  intro result
  split
  · exact .ret _
  · exact .raise _
  · apply (Only.perform trivial).bind
    exact fun files => sweeping_unlinkEach _ n

theorem sweeping_lifespan : Only Op.sweeping lifespan := by
  unfold lifespan
  apply (Only.perform trivial).bind
  intro _
  apply (Only.perform trivial).bind
  intro _
  apply (Only.perform trivial).bind
  exact fun _ => sweeping_cleanupOrphaned

theorem plain_unlinkEach (files : List String) (n : Nat) : Only Op.plain (unlinkEach files n) :=
  (sweeping_unlinkEach files n).mono fun _ ho => ho.plain

theorem plain_cleanupOrphaned : Only Op.plain cleanupOrphanedParquetFiles :=
  sweeping_cleanupOrphaned.mono fun _ ho => ho.plain

theorem plain_flush (p : Progress) : Only Op.plain (p.flush libs) := by
  have hflush : ∀ rows entries offsets, Only Op.plain (flushBatch libs rows entries offsets) := by
    intro rows entries offsets
    unfold flushBatch
    apply Only.cond (.ret _)
    apply (Only.perform trivial).bind
    intro _
    apply (Only.perform trivial).bind
    intro stamp
    apply (Only.done _).bind
    intro table
    apply (Only.perform trivial).bind
    intro _
    apply (Only.perform trivial).bind
    intro _
    exact (Only.perform trivial).bind fun _ => .ret _
  exact (hflush _ _ _).bind fun _ => .ret _

theorem plain_readRecord (f : String) (q : Nat) : Only Op.plain (readRecord settings f q) := by
  unfold readRecord
  apply (Only.perform trivial).bind
  intro header
  apply Only.cond (.ret _)
  apply (Only.done _).bind
  intro head
  apply (Only.perform trivial).bind
  intro payload
  exact (Only.done _).bind fun _ => .ret _

theorem plain_recordRound (f : String) (s : Progress × Nat) :
    Only Op.plain (recordRound libs settings f s) := by
  unfold recordRound
  apply (plain_readRecord f s.2).attempt.bind
  intro result
  split
  · exact .ret _
  · exact .ret _
  split
  · exact .ret _
  apply Only.cond (.ret _)
  apply (plain_flush _).attempt.bind
  intro flushed
  split
  · exact .ret _
  · exact .ret _

theorem plain_markFullyProcessed (active f : String) (q : Nat) :
    Only Op.plain (markFullyProcessed active f q) := by
  unfold markFullyProcessed
  apply Only.cond (.ret _)
  apply (Only.perform trivial).bind
  intro size
  apply Only.cond (.ret _)
  apply (Only.perform trivial).bind
  exact fun size => .perform trivial

theorem plain_tryWalFile (active f : String) (q : Nat) (p : Progress) :
    Only Op.plain (tryWalFile libs settings active f q p) := by
  unfold tryWalFile
  apply (Only.attempt (Only.perform trivial)).bind
  intro opened
  split
  · exact .ret _
  apply (Only.repeatUntil fun s => plain_recordRound f s).bind
  intro left
  obtain ⟨p', result⟩ := left
  cases result with
  | error e => exact .ret _
  | ok u => exact (plain_markFullyProcessed active f _).attempt.bind fun _ => .ret _

theorem segmentwise_materializeFile (loaded : Loaded) (p : Progress) (f : String) :
    Only Op.segmentwise (materializeFile libs settings loaded p f) := by
  unfold materializeFile
  apply Only.cond (.ret _)
  apply (Only.perform trivial).bind
  intro size
  apply Only.cond (.ret _)
  apply Only.cond (.ret _)
  apply (plain_segmentwise (plain_tryWalFile _ f _ p)).bind
  intro left
  obtain ⟨p', result⟩ := left
  cases result with
  | ok u => exact .ret _
  | error e =>
    apply Only.cond _ (.raise _)
    unfold quarantine
    apply Only.bind (Only.cond (.ret _) (plain_segmentwise (plain_flush _)))
    intro p'
    exact (Only.perform trivial).bind fun _ => .ret _

theorem plain_loadQuarantined : Only Op.plain loadQuarantined := by
  unfold loadQuarantined
  apply (Only.attempt (Only.perform trivial)).bind
  intro result
  split
  · exact .ret _
  · exact .ret _
  · exact .raise _

theorem segmentwise_materializeSegments : Only Op.segmentwise (materializeSegments libs settings) := by
  unfold materializeSegments
  apply (Only.perform trivial).bind
  intro _
  apply (Only.perform trivial).bind
  intro _
  apply (plain_segmentwise plain_cleanupOrphaned).bind
  intro _
  apply (Only.perform trivial).bind
  intro offsets
  apply (plain_segmentwise plain_loadQuarantined).bind
  intro quarantined
  apply (Only.perform trivial).bind
  intro names
  dsimp only
  split
  · exact .ret _
  apply (Only.forEach fun p f => segmentwise_materializeFile _ p f).bind
  intro p
  exact (Only.cond (.ret _) (plain_segmentwise (plain_flush _))).bind fun _ => .ret _

theorem internal_writeMerged (tempPath : String) (files : List String) :
    Only Op.internal (writeMerged tempPath files) := by
  have hmerge : ∀ n f, Only Op.internal (mergeFile tempPath n f) := by
    intro n f
    apply (Only.perform trivial).bind
    intro batches
    apply Only.forEach
    intro n batch
    exact (Only.perform trivial).bind fun _ => .ret _
  unfold writeMerged
  apply (Only.attempt (Only.perform trivial)).bind
  intro opened
  split
  · exact (Only.perform trivial).bind fun _ => .raise _
  apply (Only.attempt (Only.forEach hmerge)).bind
  intro merged
  apply (Only.suppress (Only.perform trivial)).bind
  intro _
  split
  · exact (Only.perform trivial).bind fun _ => .raise _
  · exact .ret _

theorem internal_compactCommitted (n : Nat) : Only Op.internal (compactCommitted n) := by
  unfold compactCommitted
  apply (Only.perform trivial).bind
  intro _
  apply (Only.perform trivial).bind
  intro names
  apply (Only.filterBy fun f => Only.perform trivial).bind
  intro validFiles
  apply Only.cond (.ret _)
  apply (Only.perform trivial).bind
  intro stamp
  apply (internal_writeMerged _ _).bind
  intro totalRows
  apply Only.cond
  · exact (Only.perform trivial).bind fun _ => .ret _
  apply (Only.perform trivial).bind
  intro _
  apply (Only.perform trivial).bind
  intro _
  exact (plain_internal (plain_unlinkEach _ 0)).bind fun _ => .ret _

theorem lockless_cleanupSealed : Only Op.lockless cleanupSealed := by
  unfold cleanupSealed
  apply (Only.perform trivial).bind
  intro names
  apply Only.cond (.ret _)
  apply (Only.perform trivial).bind
  intro marked
  apply Only.forEach
  intro deletedFiles f
  apply Only.cond (.ret _)
  apply (Only.attempt (Only.perform trivial)).bind
  intro unlinked
  split
  · exact (Only.perform trivial).bind fun _ => .ret _
  · exact .ret _
  · exact .raise _

end Internal

end Lrcp.Store
