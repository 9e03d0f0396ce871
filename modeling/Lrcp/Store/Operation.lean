import Lrcp.Store.World
import Lrcp.Framework.Program

namespace Lrcp.Store

open Lrcp.Wal Lrcp.Otlp Lrcp.Framework

/-- The operations of the backend on its data directory, its databases and its
locks: everything between which a process can be interrupted. A transaction is
one operation, since nothing of it is visible before its commit. -/
inductive Op : Type → Type
  -- `_MATERIALIZATION_LOCK`
  | lockAcquire (t : Thread) : Op Bool
  | lockRelease (t : Thread) : Op Unit
  -- `storage_lifecycle.lock.db`
  | connect (t : Thread) : Op Conn
  | busyTimeout (c : Conn) : Op Unit
  | createLockTable (c : Conn) : Op Unit
  | beginExclusive (c : Conn) : Op Unit
  | rollback (c : Conn) : Op Unit
  | close (c : Conn) : Op Unit
  -- directories
  | mkdirData : Op Unit
  | mkdirParquet : Op Unit
  | mkdirWal : Op Unit
  -- `wal_dir`
  | globWal : Op (List String)
  | statWal (f : String) : Op Nat
  | openWal (f : String) : Op Unit
  | readHeader (f : String) (position : Nat) : Op Bytes
  | readPayload (f : String) (position length : Nat) : Op Bytes
  | unlinkWal (f : String) : Op Unit
  -- `parquet_dir`
  | globTmp : Op (List String)
  | globParquet : Op (List String)
  | existsParquet (f : String) : Op Bool
  | unlinkParquet (f : String) : Op Unit
  | stamp : Op (String × String)
  | writeTable (path : String) (rows : List Row) : Op Unit
  | openWriter (path : String) : Op Unit
  | writeBatch (path : String) (rows : List Row) : Op Unit
  | closeWriter (path : String) : Op Unit
  | iterBatches (f : String) : Op (List (List Row))
  | replace (tempPath finalPath : String) : Op Unit
  -- `control.db`
  | createTables : Op Unit
  | selectOffsets : Op (Table OffsetRow)
  | selectCorruptionEvents : Op (List String)
  | selectCommitted : Op (List String)
  | selectCommittedOrdered : Op (List String)
  | selectFullyProcessed : Op (List String)
  | commitBatch (filename : String) (recordCount : Nat) (entries : List (String × Nat × String))
      (fileOffsets : Table Nat) : Op Unit
  | commitMark (filename : String) (size : Nat) : Op Unit
  | commitQuarantine (filename : String) (offset : Nat) (reason : String) (size : Nat) : Op Unit
  | commitDeleted (filename : String) : Op Unit
  | commitCompaction (filename : String) (recordCount : Nat) (merged : List String) : Op Unit

def fileNotFound (f : String) : PyError := .osError s!"[Errno 2] No such file or directory: '{f}'"

def databaseIsLocked : PyError := .operationalError "database is locked"

/-- `iter_batches` hands the rows over in batches of at most this size. -/
def parquetBatchSize : Nat := 65536

namespace World

variable (libs : Libs) (settings : Settings)

/-- Some record of the segment at or behind its watermark has spans. -/
def hasUncommittedSpans (w : World) (f : String) : Bool :=
  (walRecordsFrom f (w.content f) (w.maxOffset f) settings.maxWalRecordBytes).1.any fun r =>
    match rows libs r.payload f r.start with
    | .ok rs => !rs.isEmpty
    | .error _ => false

/-- The connection is kept out of the lock database by the transaction of another one. -/
def lockedOut (w : World) (c : Conn) : Bool := w.exclusive.any fun c' => c' ≠ c

def setRlock (w : World) (process : Nat) (held : Option (Nat × Nat)) : World :=
  { w with rlock := fun p => if p = process then held else w.rlock p }

/-- The end of the transaction that the connection may have open. -/
def release (w : World) (c : Conn) : World :=
  if w.exclusive = some c then
    { w with exclusive := none, history := { w.history with renamed := [] } }
  else w

def committedNames (w : World) : List String :=
  w.control.parquetFiles.keys.filter w.isCommitted

/-- The regular effect of an operation and its answer. -/
def exec : {α : Type} → Op α → World → Except PyError α × World
  | _, .lockAcquire t, w =>
    match w.rlock t.process with
    | none => (.ok true, w.setRlock t.process (some (t.thread, 1)))
    | some (owner, depth) =>
      if owner = t.thread then (.ok true, w.setRlock t.process (some (owner, depth + 1)))
      else (.ok false, w)
  | _, .lockRelease t, w =>
    match w.rlock t.process with
    | none => (.error (.osError "cannot release un-acquired lock"), w)
    | some (owner, depth) =>
      if owner = t.thread then
        (.ok (), w.setRlock t.process (if depth ≤ 1 then none else some (owner, depth - 1)))
      else (.error (.osError "cannot release un-acquired lock"), w)
  | _, .connect t, w => (.ok ⟨t, w.connections⟩, { w with connections := w.connections + 1 })
  | _, .busyTimeout _, w => (.ok (), w)
  | _, .createLockTable c, w => if w.lockedOut c then (.error databaseIsLocked, w) else (.ok (), w)
  | _, .beginExclusive c, w =>
    if w.lockedOut c then (.error databaseIsLocked, w) else (.ok (), { w with exclusive := some c })
  | _, .rollback c, w =>
    if w.exclusive = some c then (.ok (), w.release c)
    else (.error (.operationalError "cannot rollback - no transaction is active"), w)
  | _, .close c, w => (.ok (), w.release c)
  | _, .mkdirData, w => (.ok (), w)
  | _, .mkdirParquet, w => (.ok (), w)
  | _, .mkdirWal, w => (.ok (), w)
  | _, .globWal, w => (.ok (w.walDir.keys.filter (hasSuffix ".wal")), w)
  | _, .statWal f, w =>
    match w.walDir.lookup f with
    | none => (.error (fileNotFound f), w)
    | some bytes => (.ok bytes.length, w)
  | _, .openWal f, w => if f ∈ w.walDir then (.ok (), w) else (.error (fileNotFound f), w)
  | _, .readHeader f position, w => (.ok (((w.content f).drop position).take headerSize), w)
  | _, .readPayload f position length, w => (.ok (((w.content f).drop position).take length), w)
  | _, .unlinkWal f, w =>
    match w.walDir.lookup f with
    | none => (.error (fileNotFound f), w)
    | some bytes =>
      (.ok (), { w with
        walDir := w.walDir.erase f
        history := { w.history with unlinked := w.history.unlinked.insert f bytes } })
  | _, .globTmp, w => (.ok (w.parquetDir.keys.filter (hasSuffix ".tmp")), w)
  | _, .globParquet, w => (.ok (w.parquetDir.keys.filter (hasSuffix ".parquet")), w)
  | _, .existsParquet f, w => (.ok (decide (f ∈ w.parquetDir)), w)
  | _, .unlinkParquet f, w => (.ok (), { w with parquetDir := w.parquetDir.erase f })
  | _, .stamp, w =>
    (.ok (libs.timestamp w.stamps, libs.uuid4Hex w.stamps), { w with stamps := w.stamps + 1 })
  | _, .writeTable path rows, w =>
    (.ok (), { w with parquetDir := w.parquetDir.insert path ⟨rows, true⟩ })
  | _, .openWriter path, w =>
    (.ok (), { w with parquetDir := w.parquetDir.insert path ⟨[], false⟩ })
  | _, .writeBatch path rows, w =>
    match w.parquetDir.lookup path with
    | none => (.ok (), w)
    | some file =>
      (.ok (), { w with parquetDir := w.parquetDir.insert path ⟨file.rows ++ rows, file.footer⟩ })
  | _, .closeWriter path, w =>
    match w.parquetDir.lookup path with
    | none => (.ok (), w)
    | some file => (.ok (), { w with parquetDir := w.parquetDir.insert path ⟨file.rows, true⟩ })
  | _, .iterBatches f, w =>
    match w.parquetDir.lookup f with
    | none => (.error (fileNotFound f), w)
    | some file =>
      if file.footer then (.ok (file.rows.toChunks parquetBatchSize), w)
      else (.error (.valueError "Parquet magic bytes not found in footer"), w)
  | _, .replace tempPath finalPath, w =>
    match w.parquetDir.lookup tempPath with
    | none => (.error (fileNotFound tempPath), w)
    | some file =>
      (.ok (), { w with
        parquetDir := (w.parquetDir.erase tempPath).insert finalPath file
        history := { w.history with renamed := finalPath :: w.history.renamed } })
  | _, .createTables, w => (.ok (), w)
  | _, .selectOffsets, w => (.ok w.control.materializedWalOffsets, w)
  | _, .selectCorruptionEvents, w => (.ok w.quarantined, w)
  | _, .selectCommitted, w => (.ok w.committedNames, w)
  | _, .selectCommittedOrdered, w => (.ok (sortNames w.committedNames), w)
  | _, .selectFullyProcessed, w =>
    (.ok (w.control.materializedWalOffsets.keys.filter w.isFullyProcessed), w)
  | _, .commitBatch filename recordCount entries fileOffsets, w =>
    (.ok (), { w with
      control := w.control.commitBatch filename recordCount entries fileOffsets
      history := { w.history with
        renamed := w.history.renamed.filter (· ≠ filename), unflushed := false } })
  | _, .commitMark filename size, w =>
    (.ok (), { w with
      control := w.control.commitMark filename size
      history := { w.history with
        unflushed := w.history.unflushed || w.hasUncommittedSpans libs settings filename } })
  | _, .commitQuarantine filename offset reason size, w =>
    (.ok (), { w with control := w.control.commitQuarantine filename offset reason size })
  | _, .commitDeleted filename, w =>
    (.ok (), { w with control := w.control.commitDeleted filename })
  | _, .commitCompaction filename recordCount merged, w =>
    if filename ∈ w.control.parquetFiles then
      (.error (.operationalError "UNIQUE constraint failed: parquet_files.filename"), w)
    else
      (.ok (), { w with
        control := w.control.commitCompaction filename recordCount merged
        history := { w.history with renamed := w.history.renamed.filter (· ≠ filename) } })

end World

/-- The exception with which an operation can fail: `OSError` for file
operations, `OperationalError` for the databases. Failures of `ROLLBACK` and of closing
a connection are left out: the code swallows them, and they do not stop a call. So is the
failing close of a compaction's Parquet writer, which the code swallows too: it can leave a
committed file without a footer, which `trial` is about and no run here allows for. -/
def Op.fault : {α : Type} → Op α → Option PyError
  | _, .lockAcquire _ => none
  | _, .lockRelease _ => none
  | _, .rollback _ => none
  | _, .close _ => none
  | _, .closeWriter _ => none
  | _, .stamp => none
  | _, .connect _ => some (.operationalError "unable to open database file")
  | _, .busyTimeout _ => some (.operationalError "disk I/O error")
  | _, .createLockTable _ => some (.operationalError "disk I/O error")
  | _, .beginExclusive _ => some (.operationalError "disk I/O error")
  | _, .createTables => some (.operationalError "disk I/O error")
  | _, .selectOffsets => some (.operationalError "disk I/O error")
  | _, .selectCorruptionEvents => some (.operationalError "disk I/O error")
  | _, .selectCommitted => some (.operationalError "disk I/O error")
  | _, .selectCommittedOrdered => some (.operationalError "disk I/O error")
  | _, .selectFullyProcessed => some (.operationalError "disk I/O error")
  | _, .commitBatch .. => some (.operationalError "disk I/O error")
  | _, .commitMark .. => some (.operationalError "disk I/O error")
  | _, .commitQuarantine .. => some (.operationalError "disk I/O error")
  | _, .commitDeleted _ => some (.operationalError "disk I/O error")
  | _, .commitCompaction .. => some (.operationalError "disk I/O error")
  | _, _ => some (.osError "[Errno 5] Input/output error")

/-- Every operation has its regular effect. -/
def regular (libs : Libs) (settings : Settings) : Machine Op PyError World :=
  .ofExec (World.exec libs settings)

/-- Operations may also fail, without effect. -/
def faulty (libs : Libs) (settings : Settings) : Machine Op PyError World :=
  (regular libs settings).withFaults Op.fault

/-- A program of the backend. -/
abbrev Call := Prog Op PyError

/-- What a thread leaves when its process is killed: its transaction on the lock
database is rolled back and its thread lock is gone. -/
def World.crash (w : World) (t : Thread) : World :=
  let w' := match w.exclusive with
    | none => w
    | some c => if c.owner = t then w.release c else w
  match w'.rlock t.process with
  | none => w'
  | some (owner, _) => if owner = t.thread then w'.setRlock t.process none else w'

/-- What the kill does, first to the transaction and then to the thread lock. -/
theorem World.crash_cases (w : World) (t : Thread) : ∃ w',
    ((w' = w ∧ ∀ c, w.exclusive = some c → c.owner ≠ t) ∨
      ∃ c, w.exclusive = some c ∧ c.owner = t ∧ w' = w.release c) ∧
    ((w.crash t = w' ∧ ∀ depth, w'.rlock t.process ≠ some (t.thread, depth)) ∨
      ∃ depth, w'.rlock t.process = some (t.thread, depth) ∧ w.crash t = w'.setRlock t.process none) := by
  have hlock : ∀ w' : World, ((match w'.rlock t.process with
      | none => w'
      | some (owner, _) => if owner = t.thread then w'.setRlock t.process none else w') = w' ∧
        ∀ depth, w'.rlock t.process ≠ some (t.thread, depth)) ∨
      ∃ depth, w'.rlock t.process = some (t.thread, depth) ∧ (match w'.rlock t.process with
      | none => w'
      | some (owner, _) => if owner = t.thread then w'.setRlock t.process none else w') =
        w'.setRlock t.process none := by
    intro w'
    cases hheld : w'.rlock t.process with
    | none => exact .inl ⟨rfl, fun depth h => by cases h⟩
    | some held =>
      by_cases howner : held.1 = t.thread
      · refine .inr ⟨held.2, ?_, if_pos howner⟩
        rw [← howner]
      · refine .inl ⟨if_neg howner, fun depth h => howner ?_⟩
        rw [Option.some.inj h]
  unfold World.crash
  refine ⟨_, ?_, hlock _⟩
  cases hex : w.exclusive with
  | none => exact .inl ⟨rfl, fun c h => by cases h⟩
  | some c =>
    by_cases howner : c.owner = t
    · exact .inr ⟨c, rfl, howner, if_pos howner⟩
    · refine .inl ⟨if_neg howner, fun c' h => ?_⟩
      obtain rfl := Option.some.inj h
      exact howner

end Lrcp.Store
