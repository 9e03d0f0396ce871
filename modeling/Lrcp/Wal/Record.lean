import Lrcp.Wal.Crc32
import Mathlib.Algebra.Group.Nat.Defs
import Mathlib.Data.List.Basic

namespace Lrcp.Wal

/-- One byte of a 32-bit word, `byte` counted from the least significant one. -/
def littleEndianByte (word : BitVec 32) (byte : Nat) : UInt8 :=
  UInt8.ofBitVec ((word >>> (byte * 8)).setWidth 8)

/-- `write_little_endian`: size and checksum, four bytes each. -/
def writeLittleEndian (size checksum : BitVec 32) : Bytes :=
  (List.range 4).map (littleEndianByte size) ++ (List.range 4).map (littleEndianByte checksum)

/-- The bytes that `WalWriter::append` hands to `write_all` for one payload. -/
def encodeRecord (payload : Bytes) : Bytes :=
  writeLittleEndian (BitVec.ofNat 32 payload.length) (crc32 payload) ++ payload

/-- An unsigned integer from its bytes, least significant first. -/
def unpackLittleEndian : Bytes → Nat
  | [] => 0
  | b :: bs => b.toNat + 256 * unpackLittleEndian bs

/-- `_RECORD_HEADER.size` -/
def headerSize : Nat := 8

/-- `_RECORD_HEADER.unpack`: length and expected checksum. -/
def unpackHeader (header : Bytes) : Nat × Nat :=
  (unpackLittleEndian (header.take 4), unpackLittleEndian (header.drop 4))

theorem unpack_littleEndian (word : BitVec 32) :
    unpackLittleEndian ((List.range 4).map (littleEndianByte word)) = word.toNat := by
  have hw := word.isLt
  simp [List.range_succ, unpackLittleEndian, littleEndianByte, BitVec.toNat_setWidth,
    BitVec.toNat_ushiftRight, Nat.shiftRight_eq_div_pow]
  omega

theorem writeLittleEndian_length (size checksum : BitVec 32) :
    (writeLittleEndian size checksum).length = headerSize := by
  simp [writeLittleEndian, headerSize]

theorem unpackHeader_write (size checksum : BitVec 32) :
    unpackHeader (writeLittleEndian size checksum) = (size.toNat, checksum.toNat) := by
  rw [unpackHeader, writeLittleEndian, List.take_left' (by simp), List.drop_left' (by simp),
    unpack_littleEndian, unpack_littleEndian]

theorem encodeRecord_length (payload : Bytes) :
    (encodeRecord payload).length = headerSize + payload.length := by
  simp [encodeRecord, writeLittleEndian_length]

/-- What the reader raises: segment, byte offset of the record, reason. -/
structure WalCorruptionError where
  sourceFile : String
  offset : Nat
  reason : String
  deriving DecidableEq, Repr

/-- `str(error)` -/
def WalCorruptionError.message (e : WalCorruptionError) : String :=
  s!"WAL corruption in {e.sourceFile} at byte offset {e.offset}: {e.reason}"

/-- `f"{n:08x}"` -/
def hex08 (n : Nat) : String :=
  let digits := Nat.toDigits 16 n
  String.ofList (List.replicate (8 - digits.length) '0' ++ digits)

/-- A record as the reader yields it: where it starts and ends, and its payload. -/
structure WalRecord where
  start : Nat
  stop : Nat
  payload : Bytes
  deriving DecidableEq, Repr

/-- The checks on the header read at `recordStart`: length and expected checksum
of the record, or the reason why there is none. -/
def checkHeader (name : String) (recordStart : Nat) (header : Bytes) (maxRecordBytes : Nat) :
    Except WalCorruptionError (Nat × Nat) :=
  if header.length ≠ headerSize then
    .error ⟨name, recordStart,
      s!"truncated WAL header: expected {headerSize} bytes, got {header.length}"⟩
  else
    let (length, expectedCrc) := unpackHeader header
    if length = 0 then
      .error ⟨name, recordStart, "invalid zero-length record"⟩
    else if length > maxRecordBytes then
      .error ⟨name, recordStart,
        s!"oversized WAL record: length {length} exceeds safety limit {maxRecordBytes}"⟩
    else
      .ok (length, expectedCrc)

/-- The checks on the payload that follows a header. -/
def checkPayload (name : String) (recordStart length expectedCrc : Nat) (payload : Bytes) :
    Except WalCorruptionError Unit :=
  if payload.length ≠ length then
    .error ⟨name, recordStart,
      s!"truncated WAL payload: expected {length} bytes, got {payload.length}"⟩
  else
    let actualCrc := (binasciiCrc32 payload).toNat
    if actualCrc ≠ expectedCrc then
      .error ⟨name, recordStart,
        s!"WAL checksum mismatch: expected 0x{hex08 expectedCrc}, got 0x{hex08 actualCrc}"⟩
    else
      .ok ()

theorem checkHeader_ok {name recordStart header maxRecordBytes length expectedCrc} :
    checkHeader name recordStart header maxRecordBytes = .ok (length, expectedCrc) ↔
      header.length = headerSize ∧ unpackHeader header = (length, expectedCrc) ∧
        0 < length ∧ length ≤ maxRecordBytes := by
  unfold checkHeader
  split_ifs with h8
  · simp [h8]
  · rw [not_not] at h8
    rcases hu : unpackHeader header with ⟨l, c⟩
    dsimp only
    split_ifs with h0 hm
    · simp [h0]; omega
    · simp; omega
    · simp only [Except.ok.injEq, Prod.mk.injEq, h8, true_and]
      omega

theorem checkPayload_ok {name recordStart length expectedCrc payload} :
    checkPayload name recordStart length expectedCrc payload = .ok () ↔
      payload.length = length ∧ (binasciiCrc32 payload).toNat = expectedCrc := by
  unfold checkPayload
  split_ifs <;> simp_all

/-- Errors name the segment and the offset of the record. -/
theorem checkHeader_error {name recordStart header maxRecordBytes e}
    (h : checkHeader name recordStart header maxRecordBytes = .error e) :
    e.sourceFile = name ∧ e.offset = recordStart := by
  unfold checkHeader at h
  dsimp only at h
  split_ifs at h <;> cases h <;> exact ⟨rfl, rfl⟩

theorem checkPayload_error {name recordStart length expectedCrc payload e}
    (h : checkPayload name recordStart length expectedCrc payload = .error e) :
    e.sourceFile = name ∧ e.offset = recordStart := by
  unfold checkPayload at h
  dsimp only at h
  split_ifs at h <;> cases h <;> exact ⟨rfl, rfl⟩

/-- The reader's checks accept what the writer writes, for every payload that
is neither empty nor over the limit. -/
theorem checkHeader_write (name : String) (recordStart maxRecordBytes : Nat) (payload : Bytes)
    (h0 : payload ≠ []) (hm : payload.length ≤ maxRecordBytes) (h32 : payload.length < 2 ^ 32) :
    checkHeader name recordStart
        (writeLittleEndian (BitVec.ofNat 32 payload.length) (crc32 payload)) maxRecordBytes =
      .ok (payload.length, (crc32 payload).toNat) := by
  rw [checkHeader_ok, unpackHeader_write]
  refine ⟨writeLittleEndian_length _ _, ?_, List.length_pos_of_ne_nil h0, hm⟩
  rw [BitVec.toNat_ofNat, Nat.mod_eq_of_lt h32]

theorem checkPayload_write (name : String) (recordStart : Nat) (payload : Bytes) :
    checkPayload name recordStart payload.length (crc32 payload).toNat payload = .ok () := by
  rw [checkPayload_ok, crc32_eq_binasciiCrc32]
  exact ⟨rfl, rfl⟩

end Lrcp.Wal
