import Lrcp.Otlp.Rows
import Lrcp.Wal.Reader
import Lrcp.Wal.Segment

namespace Lrcp.Store

open Lrcp.Wal Lrcp.Otlp

/-- The settings that the storage operations read. -/
structure Settings where
  materializeBatchSize : Nat := 5000
  maxWalRecordBytes : Nat := 64 * 1024 * 1024
  autoCleanupWal : Bool := false

/-- A Parquet file. Without its footer it cannot be read. -/
structure ParquetFile where
  rows : List Row
  footer : Bool
  deriving DecidableEq

/-- A row of `materialized_wal_offsets`. -/
structure OffsetRow where
  maxOffset : Nat
  isFullyProcessed : Bool
  deriving DecidableEq

inductive ParquetStatus
  | committed
  | compacted
  deriving DecidableEq

/-- A row of `parquet_files`. -/
structure ParquetRow where
  recordCount : Nat
  status : ParquetStatus
  deriving DecidableEq

/-- A row of `wal_corruption_events`. -/
structure CorruptionEvent where
  sourceFile : String
  offset : Nat
  reason : String
  deriving DecidableEq

inductive SegmentStatus
  | quarantined
  | deleted
  deriving DecidableEq

/-- A row of `wal_file_lifecycle`. -/
structure LifecycleRow where
  status : SegmentStatus
  bytesSize : Nat
  deriving DecidableEq

/-- The tables of the control store that materialization works on. -/
structure ControlStore where
  materializedWalOffsets : Table OffsetRow
  materializedWalRecords : AList fun _ : String × Nat => String
  parquetFiles : Table ParquetRow
  walCorruptionEvents : List CorruptionEvent
  walFileLifecycle : Table LifecycleRow

/-- The tables as `initialize_control_store` creates them. -/
def ControlStore.empty : ControlStore := ⟨∅, ∅, ∅, [], ∅⟩

/-- A thread of a process. -/
structure Thread where
  process : Nat
  thread : Nat
  deriving DecidableEq

/-- A connection to the lock database: the thread that opened it, and a number. -/
structure Conn where
  owner : Thread
  serial : Nat
  deriving DecidableEq

/-- What has happened, as far as a statement about the store speaks of it. No
operation reads these fields.
`unlinked` keeps the bytes of WAL segments that have been deleted, `renamed` the
Parquet files moved into place by the call that holds the lifecycle lock and not
yet committed by it. `unflushed` is set when a segment is marked fully processed
while spans of it are still in the batch, and cleared by the next batch commit. -/
structure History where
  unlinked : Table Bytes
  renamed : List String
  unflushed : Bool

/-- The data directory with its two databases, and the locks held on it. -/
structure World where
  walDir : Table Bytes
  parquetDir : Table ParquetFile
  control : ControlStore
  /-- the connection whose `BEGIN EXCLUSIVE` transaction is open on the lock database -/
  exclusive : Option Conn
  connections : Nat
  /-- owner and depth of `_MATERIALIZATION_LOCK` in each process -/
  rlock : Nat → Option (Nat × Nat)
  /-- how many file names have been drawn -/
  stamps : Nat
  history : History

namespace World

/-- The bytes of a segment; none for a name that is not there. -/
def content (w : World) (f : String) : Bytes := (w.walDir.lookup f).getD []

/-- Everything that was ever written under a segment name. -/
def written (w : World) (f : String) : Bytes :=
  ((w.walDir.lookup f).orElse fun _ => w.history.unlinked.lookup f).getD []

/-- `processed_offsets.get(f, 0)` -/
def maxOffset (w : World) (f : String) : Nat :=
  ((w.control.materializedWalOffsets.lookup f).map OffsetRow.maxOffset).getD 0

def isFullyProcessed (w : World) (f : String) : Bool :=
  ((w.control.materializedWalOffsets.lookup f).map OffsetRow.isFullyProcessed).getD false

def quarantined (w : World) : List String :=
  w.control.walCorruptionEvents.map CorruptionEvent.sourceFile

/-- The file is `COMMITTED` in the manifest. -/
def isCommitted (w : World) (f : String) : Bool :=
  (w.control.parquetFiles.lookup f).any fun row => row.status = .committed

end World

/-- `ORDER BY filename ASC` -/
def sortNames (names : List String) : List String := names.insertionSort (· ≤ ·)

namespace ControlStore

/-- The upsert of one watermark in `_flush_batch`. -/
def raiseOffset (offsets : Table OffsetRow) (walFile : String) (maxOff : Nat) : Table OffsetRow :=
  match offsets.lookup walFile with
  | none => offsets.insert walFile ⟨maxOff, false⟩
  | some row => offsets.insert walFile { row with maxOffset := max row.maxOffset maxOff }

/-- `INSERT OR IGNORE INTO materialized_wal_records` -/
def recordEntry (records : AList fun _ : String × Nat => String) (entry : String × Nat × String) :
    AList fun _ : String × Nat => String :=
  if (entry.1, entry.2.1) ∈ records then records
  else records.insert (entry.1, entry.2.1) entry.2.2

/-- The transaction of `_flush_batch`. -/
def commitBatch (db : ControlStore) (filename : String) (recordCount : Nat)
    (entries : List (String × Nat × String)) (fileOffsets : Table Nat) : ControlStore :=
  { db with
    parquetFiles := db.parquetFiles.insert filename ⟨recordCount, .committed⟩
    materializedWalRecords := entries.foldl recordEntry db.materializedWalRecords
    materializedWalOffsets := fileOffsets.entries.foldl (fun t e => raiseOffset t e.1 e.2)
      db.materializedWalOffsets }

/-- The mark on a sealed segment that has been read to its end. On a conflict
the watermark is left as it is. -/
def commitMark (db : ControlStore) (filename : String) (size : Nat) : ControlStore :=
  { db with
    materializedWalOffsets :=
      match db.materializedWalOffsets.lookup filename with
      | none => db.materializedWalOffsets.insert filename ⟨size, true⟩
      | some row => db.materializedWalOffsets.insert filename { row with isFullyProcessed := true } }

/-- The transaction that quarantines a segment. -/
def commitQuarantine (db : ControlStore) (filename : String) (offset : Nat) (reason : String)
    (size : Nat) : ControlStore :=
  { db with
    walCorruptionEvents := db.walCorruptionEvents ++ [⟨filename, offset, reason⟩]
    walFileLifecycle := db.walFileLifecycle.insert filename ⟨.quarantined, size⟩ }

/-- The transaction that records the deletion of a segment. -/
def commitDeleted (db : ControlStore) (filename : String) : ControlStore :=
  { db with walFileLifecycle := db.walFileLifecycle.insert filename ⟨.deleted, 0⟩ }

def markCompacted (files : Table ParquetRow) (filename : String) : Table ParquetRow :=
  match files.lookup filename with
  | none => files
  | some row => files.insert filename { row with status := .compacted }

/-- The transaction of `compact_parquet_files`. -/
def commitCompaction (db : ControlStore) (filename : String) (recordCount : Nat)
    (merged : List String) : ControlStore :=
  { db with
    parquetFiles := merged.foldl markCompacted
      (db.parquetFiles.insert filename ⟨recordCount, .committed⟩) }

end ControlStore

end Lrcp.Store
