import Lrcp.Store.Operation

namespace Lrcp.Store

open Lrcp.Wal Lrcp.Otlp Lrcp.Framework
open Lrcp.Framework.Prog (perform attempt finallyDo suppress forEach filterBy repeatUntil done)

/-- `storage_lifecycle_lock` around a body. The connection is closed only if it was opened. -/
def storageLifecycleLock {α : Type} (t : Thread) (body : Call α) : Call α := do
  let acquired ← perform (.lockAcquire t)
  if acquired = false then
    .raise (.timeoutError "Timed out waiting for in-process storage lifecycle lock")
  else do
    perform .mkdirData
    finallyDo (do
      let conn ← perform (.connect t)
      finallyDo (do
        perform (.busyTimeout conn)
        perform (.createLockTable conn)
        perform (.beginExclusive conn)
        body) (do
        suppress (perform (.rollback conn))
        suppress (perform (.close conn)))) (perform (.lockRelease t))

/-- `unlink` each file, counting; an `OSError` is logged and passed over. -/
def unlinkEach (files : List String) (deletedCount : Nat) : Call Nat :=
  forEach (fun deletedCount file => do
    let result ← attempt (perform (.unlinkParquet file))
    match result with
    | .ok () => .ret (deletedCount + 1)
    | .error (.osError _) => .ret deletedCount
    | .error error => .raise error) files deletedCount

def cleanupOrphanedParquetFiles : Call Nat := do
  perform .mkdirParquet
  let tmpFiles ← perform .globTmp
  let deletedCount ← unlinkEach tmpFiles 0
  let result ← attempt (perform .selectCommitted)
  match result with
  | .error (.operationalError _) => .ret deletedCount
  | .error error => .raise error
  | .ok committed => do
    let files ← perform .globParquet
    unlinkEach (files.filter fun file => file ∉ committed) deletedCount

/-- The start of the application, as far as it touches the data directory. -/
def lifespan : Call Nat := do
  perform .createTables
  perform .mkdirWal
  perform .mkdirParquet
  cleanupOrphanedParquetFiles

/-- `uuid.uuid4().hex[:n]` -/
def hexPrefix (n : Nat) (uuid : String) : String := .ofList (uuid.toList.take n)

def spansFilename (timestamp uuid : String) : String :=
  "spans-" ++ timestamp ++ "-" ++ hexPrefix 12 uuid ++ ".parquet"

def spansTempPath (timestamp uuid : String) : String :=
  "tmp-" ++ timestamp ++ "-" ++ hexPrefix 12 uuid ++ ".parquet.tmp"

def compactedFilename (timestamp uuid : String) : String :=
  "spans-compacted-" ++ timestamp ++ "-" ++ hexPrefix 8 uuid ++ ".parquet"

def compactedTempPath (timestamp uuid : String) : String :=
  "tmp-" ++ compactedFilename timestamp uuid ++ ".tmp"

/-- The rows collected and not yet flushed, with what their commit is to record. -/
structure Batch where
  rows : List Row := []
  entries : List (String × Nat × String) := []
  offsets : Table Nat := ∅

namespace Batch

/-- `current_batch_offsets.get(filename, start_offset)` -/
def offset (b : Batch) (filename : String) (startOffset : Nat) : Nat :=
  (b.offsets.lookup filename).getD startOffset

/-- The rows of one more record. -/
def add (b : Batch) (filename : String) (r : WalRecord) (rows : List Row) : Batch where
  rows := b.rows ++ rows
  entries := b.entries ++ rows.map fun _ => (filename, r.start, "")
  offsets := b.offsets.insert filename r.stop

end Batch

variable (libs : Libs) (settings : Settings)

/-- `_flush_batch` -/
def flushBatch (rows : List Row) (recordManifestEntries : List (String × Nat × String))
    (fileOffsets : Table Nat) : Call String :=
  if rows = [] then .ret "" else do
    perform .mkdirParquet
    let (timestamp, uuid) ← perform .stamp
    let table ← done (fromPylist libs rows)
    perform (.writeTable (spansTempPath timestamp uuid) table)
    perform (.replace (spansTempPath timestamp uuid) (spansFilename timestamp uuid))
    perform (.commitBatch (spansFilename timestamp uuid) rows.length recordManifestEntries fileOffsets)
    .ret (spansFilename timestamp uuid)

/-- The batch of a `materialize` call with `total_materialized_spans`. -/
structure Progress where
  batch : Batch := {}
  total : Nat := 0

/-- The call of `_flush_batch` in `materialize` with what follows it. -/
def Progress.flush (p : Progress) : Call Progress := do
  let _ ← flushBatch libs p.batch.rows (p.batch.entries.map fun (f, off, _) => (f, off, ""))
    p.batch.offsets
  .ret ⟨{}, p.total + p.batch.rows.length⟩

/-- One round of the generator `_wal_records_from`. -/
def readRecord (filename : String) (recordStart : Nat) : Call (Option WalRecord) := do
  let header ← perform (.readHeader filename recordStart)
  if header = [] then .ret none
  else do
    let (length, expectedCrc) ← done ((checkHeader filename recordStart header
      settings.maxWalRecordBytes).mapError .walCorruption)
    let payload ← perform (.readPayload filename (recordStart + headerSize) length)
    done ((checkPayload filename recordStart length expectedCrc payload).mapError .walCorruption)
    .ret (some ⟨recordStart, recordStart + headerSize + length, payload⟩)

/-- One round of the loop over the records of a segment. The loop is left with
the progress made, and with the exception that ended it, if one did. -/
def recordRound (filename : String) (s : Progress × Nat) :
    Call ((Progress × Nat) ⊕ (Progress × Except PyError Unit)) := do
  let result ← attempt (readRecord settings filename s.2)
  match result with
  | .error error => .ret (.inr (s.1, .error error))
  | .ok none => .ret (.inr (s.1, .ok ()))
  | .ok (some r) =>
    match rows libs r.payload filename r.start with
    | .error error => .ret (.inr (s.1, .error error))
    | .ok rows =>
      let p : Progress := { s.1 with batch := s.1.batch.add filename r rows }
      if p.batch.rows.length < settings.materializeBatchSize then .ret (.inl (p, r.stop))
      else do
        let flushed ← attempt (p.flush libs)
        match flushed with
        | .error error => .ret (.inr (p, .error error))
        | .ok p' => .ret (.inl (p', r.stop))

/-- The mark on a sealed segment that has been read to its end. -/
def markFullyProcessed (activeWalFilename filename : String) (offset : Nat) : Call Unit :=
  if filename = activeWalFilename then .ret () else do
    let size ← perform (.statWal filename)
    if size ≠ offset then .ret () else do
      let size ← perform (.statWal filename)
      perform (.commitMark filename size)

/-- The body of the `try` in `materialize`: the progress made, and the exception, if any. -/
def tryWalFile (activeWalFilename filename : String) (startOffset : Nat) (p : Progress) :
    Call (Progress × Except PyError Unit) := do
  let opened ← attempt (perform (.openWal filename))
  match opened with
  | .error error => .ret (p, .error error)
  | .ok () => do
    let (p, result) ← repeatUntil (recordRound libs settings filename) (p, startOffset)
    match result with
    | .error error => .ret (p, .error error)
    | .ok () => do
      let marked ← attempt (markFullyProcessed activeWalFilename filename
        (p.batch.offset filename startOffset))
      .ret (p, marked)

/-- `getattr(corruption_error, "offset", …)` -/
def corruptOffset (error : PyError) (default : Nat) : Nat :=
  match error with
  | .walCorruption e => e.offset
  | _ => default

/-- The handler for `WalCorruptionError` and `ValueError`. -/
def quarantine (filename : String) (fileSize startOffset : Nat) (p : Progress) (error : PyError) :
    Call Progress := do
  let p' ← (if p.batch.rows = [] then .ret p else p.flush libs)
  perform (.commitQuarantine filename (corruptOffset error (p.batch.offset filename startOffset))
    error.message fileSize)
  .ret p'

/-- What `materialize` has loaded from the control store, and the active segment. -/
structure Loaded where
  offsets : Table OffsetRow
  quarantined : List String
  activeWalFilename : String

/-- `processed_offsets.get(filename, 0)` -/
def Loaded.startOffset (loaded : Loaded) (filename : String) : Nat :=
  ((loaded.offsets.lookup filename).map OffsetRow.maxOffset).getD 0

/-- `filename in fully_processed_files` -/
def Loaded.isFullyProcessed (loaded : Loaded) (filename : String) : Bool :=
  ((loaded.offsets.lookup filename).map OffsetRow.isFullyProcessed).getD false

/-- The body of the loop over the segments. -/
def materializeFile (loaded : Loaded) (p : Progress) (filename : String) : Call Progress :=
  if filename ∈ loaded.quarantined then .ret p else do
    let fileSize ← perform (.statWal filename)
    let startOffset := loaded.startOffset filename
    if loaded.isFullyProcessed filename ∧ fileSize ≤ startOffset then .ret p
    else if fileSize ≤ startOffset ∧ 0 < fileSize then .ret p
    else do
      let (p, result) ← tryWalFile libs settings loaded.activeWalFilename filename startOffset p
      match result with
      | .ok () => .ret p
      | .error error =>
        if error.isValueError then quarantine libs filename fileSize startOffset p error
        else .raise error

/-- `SELECT source_file FROM wal_corruption_events`, where a missing table counts as empty. -/
def loadQuarantined : Call (List String) := do
  let result ← attempt (perform .selectCorruptionEvents)
  match result with
  | .ok quarantined => .ret quarantined
  | .error (.operationalError _) => .ret []
  | .error error => .raise error

/-- `materialize` under the lock, up to the cleanup of WAL segments. `none` when
there is no segment and the function returns before it. -/
def materializeSegments : Call (Option Nat) := do
  perform .mkdirParquet
  perform .mkdirWal
  let _ ← cleanupOrphanedParquetFiles
  let offsets ← perform .selectOffsets
  let quarantined ← loadQuarantined
  let names ← perform .globWal
  let walFiles := sortSegments names
  match walFiles.getLast? with
  | none => .ret none
  | some activeWalFilename => do
    let p ← forEach (materializeFile libs settings ⟨offsets, quarantined, activeWalFilename⟩)
      walFiles {}
    let p ← (if p.batch.rows = [] then .ret p else p.flush libs)
    .ret (some p.total)

/-- `wal_file.unlink()` and the entry in the lifecycle table. -/
def deleteSegment (fullyMaterialized deletedFiles : List String) (filename : String) :
    Call (List String) :=
  if filename ∉ fullyMaterialized then .ret deletedFiles else do
    let unlinked ← attempt (perform (.unlinkWal filename))
    match unlinked with
    | .ok () => do
      perform (.commitDeleted filename)
      .ret (deletedFiles ++ [filename])
    | .error (.osError _) => .ret deletedFiles
    | .error error => .raise error

/-- `cleanup_materialized_wal_files` under the lock. -/
def cleanupSealed : Call (List String) := do
  let names ← perform .globWal
  let walFiles := sortSegments names
  if walFiles.length ≤ 1 then .ret [] else do
    let fullyMaterialized ← perform .selectFullyProcessed
    forEach (deleteSegment fullyMaterialized) walFiles.dropLast []

def cleanupMaterializedWalFiles (t : Thread) : Call (List String) :=
  storageLifecycleLock t cleanupSealed

/-- `materialize` under the lock. -/
def materializeAll (t : Thread) : Call Nat := do
  let total ← materializeSegments libs settings
  match total with
  | none => .ret 0
  | some total =>
    if settings.autoCleanupWal then do
      let _ ← cleanupMaterializedWalFiles t
      .ret total
    else .ret total

def materialize (t : Thread) : Call Nat := storageLifecycleLock t (materializeAll libs settings t)

/-- The batches of one file, written to the open writer and counted. -/
def mergeFile (tempPath : String) (totalRows : Nat) (filename : String) : Call Nat := do
  let batches ← perform (.iterBatches filename)
  forEach (fun totalRows batch => do
    perform (.writeBatch tempPath batch)
    .ret (totalRows + batch.length)) batches totalRows

/-- The `try` of `compact_parquet_files`: the merged file is written, or removed again. -/
def writeMerged (tempPath : String) (toMerge : List String) : Call Nat := do
  let opened ← attempt (perform (.openWriter tempPath))
  match opened with
  | .error error => do
    perform (.unlinkParquet tempPath)
    .raise error
  | .ok () => do
    let merged ← attempt (forEach (mergeFile tempPath) toMerge 0)
    suppress (perform (.closeWriter tempPath))
    match merged with
    | .error error => do
      perform (.unlinkParquet tempPath)
      .raise error
    | .ok totalRows => .ret totalRows

/-- `compact_parquet_files` under the lock. -/
def compactCommitted (maxFilesToMerge : Nat) : Call Nat := do
  perform .mkdirParquet
  let committedFilenames ← perform .selectCommittedOrdered
  let validFiles ← filterBy (fun file => perform (.existsParquet file)) committedFilenames
  if validFiles.length ≤ 1 then .ret 0 else do
    let toMerge := validFiles.take maxFilesToMerge
    let (timestamp, uuid) ← perform .stamp
    let totalRows ← writeMerged (compactedTempPath timestamp uuid) toMerge
    if totalRows = 0 then do
      perform (.unlinkParquet (compactedTempPath timestamp uuid))
      .ret 0
    else do
      perform (.replace (compactedTempPath timestamp uuid) (compactedFilename timestamp uuid))
      perform (.commitCompaction (compactedFilename timestamp uuid) totalRows toMerge)
      let _ ← unlinkEach toMerge 0
      .ret totalRows

def compactParquetFiles (t : Thread) (maxFilesToMerge : Nat) : Call Nat :=
  storageLifecycleLock t (compactCommitted maxFilesToMerge)

/-- `get_committed_parquet_files`, which turns every failure into the empty list. -/
def getCommittedParquetFiles : Call (List String) := do
  let result ← attempt do
    let filenames ← perform .selectCommittedOrdered
    filterBy (fun file => perform (.existsParquet file)) filenames
  match result with
  | .ok files => .ret files
  | .error _ => .ret []

/-- `read_parquet(?)` over a list of files: each is opened in turn. -/
def readParquet (files : List String) : Call (List Row) :=
  forEach (fun rows file => do
    let batches ← perform (.iterBatches file)
    .ret (rows ++ batches.flatten)) files []

/-- A query such as `list_traces`: the rows that its answer is computed over.
Without files it answers at once, as over no rows. -/
def queryRows : Call (List Row) := do
  let files ← getCommittedParquetFiles
  if files = [] then .ret [] else readParquet files

end Lrcp.Store
