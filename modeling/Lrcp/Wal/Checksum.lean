import Lrcp.Wal.Reader

namespace Lrcp.Wal

/-- The bits of a byte in the order in which the checksum takes them. -/
def byteBits (byte : UInt8) : List Bool := (List.range 8).map byte.toBitVec.getLsbD

def messageBits (payload : Bytes) : List Bool := payload.flatMap byteBits

/-- The checksum register takes one bit. -/
def crcBit (crc : BitVec 32) (bit : Bool) : BitVec 32 :=
  crcStep (crc ^^^ (BitVec.ofBool bit).setWidth 32)

/-- The word whose lowest bits are these. -/
def wordOfBits (bits : List Bool) : BitVec 32 := (BitVec.ofBoolListLE bits).setWidth 32

section Bits

variable {r s : BitVec 32} {b : Bool}

theorem xor_ushiftRight_one (w : BitVec 32) :
    w = (BitVec.ofBool (w.getLsbD 0)).setWidth 32 ^^^ ((w >>> 1) <<< 1) := by
  apply BitVec.eq_of_getLsbD_eq
  intro i hi
  simp only [BitVec.getLsbD_xor, BitVec.getLsbD_setWidth, BitVec.getLsbD_ofBool,
    BitVec.getLsbD_shiftLeft, BitVec.getLsbD_ushiftRight]
  by_cases h0 : i = 0
  · subst h0
    simp
  · simp [h0, hi, show ¬i < 1 by omega, show 1 + (i - 1) = i by omega]

theorem crcStep_shiftLeft (w : BitVec 32) (h : w.getLsbD 31 = false) : crcStep (w <<< 1) = w := by
  rw [crcStep_of_even _ (by simp)]
  apply BitVec.eq_of_getLsbD_eq
  intro i hi
  simp only [BitVec.getLsbD_ushiftRight, BitVec.getLsbD_shiftLeft]
  by_cases h31 : i = 31
  · subst h31
    simpa using h
  · simp [show 1 + i < 32 by omega]

/-- Taking `n` bits one by one is adding them at once and stepping `n` times. -/
theorem crcStep_iterate_bits (n : Nat) (w : BitVec 32) (hw : ∀ i, n ≤ i → w.getLsbD i = false) :
    crcStep^[n] (r ^^^ w) = ((List.range n).map w.getLsbD).foldl crcBit r := by
  induction n generalizing r w with
  | zero =>
    have hzero : w = 0#32 := by
      apply BitVec.eq_of_getLsbD_eq
      intro i _
      rw [hw i (Nat.zero_le i)]
      simp
    simp [hzero]
  | succ n ih =>
    have hstep : crcStep (r ^^^ w) = crcBit r (w.getLsbD 0) ^^^ (w >>> 1) := by
      conv_lhs => rw [xor_ushiftRight_one w, ← BitVec.xor_assoc, crcStep_xor]
      rw [crcStep_shiftLeft, crcBit]
      simp
    have hrest : ∀ i, n ≤ i → (w >>> 1).getLsbD i = false := by
      intro i hi
      rw [BitVec.getLsbD_ushiftRight]
      exact hw (1 + i) (by omega)
    have hrange : (List.range (n + 1)).map w.getLsbD =
        w.getLsbD 0 :: (List.range n).map (w >>> 1).getLsbD := by
      rw [List.range_succ_eq_map, List.map_cons, List.map_map]
      congr 1
      apply List.map_congr_left
      intro i _
      simp [BitVec.getLsbD_ushiftRight, Nat.add_comm]
    rw [Function.iterate_succ_apply, hstep, ih _ hrest, hrange, List.foldl_cons]

theorem crcByte_eq_bits (crc : BitVec 32) (byte : UInt8) :
    crcByte crc byte = (byteBits byte).foldl crcBit crc := by
  have hbits : (List.range 8).map (byte.toBitVec.setWidth 32).getLsbD = byteBits byte := by
    apply List.map_congr_left
    intro i hi
    have := List.mem_range.mp hi
    simp [show i < 32 by omega]
  rw [crcByte, crcStep_iterate_bits 8, hbits]
  intro i hi
  simp [BitVec.getLsbD_setWidth, BitVec.getLsbD_of_ge byte.toBitVec i hi]

/-- The checksum takes the bits of the payload one after the other. -/
theorem crc32_eq_bits (payload : Bytes) :
    crc32 payload = ~~~((messageBits payload).foldl crcBit 0xFFFFFFFF#32) := by
  have hfold : ∀ crc, payload.foldl crcByte crc = (messageBits payload).foldl crcBit crc := by
    induction payload with
    | nil => exact fun _ => rfl
    | cons byte payload ih =>
      intro crc
      rw [List.foldl_cons, crcByte_eq_bits, ih, messageBits, messageBits, List.flatMap_cons,
        List.foldl_append]
  rw [crc32, hfold]

/-- A clear register was clear before the step: the polynomial has its top bit set,
and nothing else gets there. -/
theorem crcStep_eq_zero {x : BitVec 32} (h : crcStep x = 0#32) : x = 0#32 := by
  have hhigh : (x >>> 1).getLsbD 31 = false := by simp
  cases hx : x.getLsbD 0 with
  | false =>
    rw [crcStep_of_even _ hx] at h
    rw [xor_ushiftRight_one x, h, hx]
    rfl
  | true =>
    rw [crcStep_of_odd _ hx] at h
    have htop := congrArg (fun w : BitVec 32 => w.getLsbD 31) h
    simp only [BitVec.getLsbD_xor, hhigh] at htop
    simp at htop

theorem crcStep_injective : Function.Injective crcStep := by
  intro x y h
  have hzero : crcStep (x ^^^ y) = 0#32 := by
    rw [crcStep_xor, h, BitVec.xor_self]
  exact BitVec.xor_eq_zero_iff.mp (crcStep_eq_zero hzero)

theorem crcBit_injective (b : Bool) : Function.Injective fun r => crcBit r b := by
  intro r s h
  exact (BitVec.xor_left_inj _).mp (crcStep_injective h)

theorem foldl_crcBit_injective (bits : List Bool) : Function.Injective fun r => bits.foldl crcBit r := by
  induction bits with
  | nil => exact fun _ _ h => h
  | cons b bits ih => exact fun r s h => crcBit_injective b (ih h)

theorem getLsbD_wordOfBits {bits : List Bool} (h : bits.length ≤ 32) (i : Nat) :
    (wordOfBits bits).getLsbD i = bits.getD i false := by
  rw [wordOfBits, BitVec.getLsbD_setWidth, BitVec.getLsbD_ofBoolListLE]
  by_cases hi : i < 32
  · simp [hi]
  · simp [hi, List.getElem?_eq_none (show bits.length ≤ i by omega)]

/-- From one register, different sequences of at most 32 bits lead to different registers. -/
theorem foldl_crcBit_bits {bits bits' : List Bool} (hlength : bits.length = bits'.length)
    (h32 : bits.length ≤ 32) (h : bits.foldl crcBit r = bits'.foldl crcBit r) : bits = bits' := by
  have hfold : ∀ l : List Bool, l.length = bits.length →
      l.foldl crcBit r = crcStep^[bits.length] (r ^^^ wordOfBits l) := by
    intro l hl
    have hget := @getLsbD_wordOfBits l (by omega)
    rw [crcStep_iterate_bits bits.length, ← hl]
    · congr 1
      apply List.ext_getElem
      · simp
      · intro i hi _
        simp [hget, hi]
    · intro i hi
      rw [hget]
      simp [List.getElem?_eq_none (show l.length ≤ i by omega)]
  rw [hfold bits rfl, hfold bits' hlength.symm] at h
  have hword : wordOfBits bits = wordOfBits bits' :=
    (BitVec.xor_right_inj r).mp (crcStep_injective.iterate _ h)
  apply List.ext_getElem hlength
  intro i hi hi'
  have hbit := congrArg (fun w : BitVec 32 => w.getLsbD i) hword
  simpa [getLsbD_wordOfBits h32, getLsbD_wordOfBits (hlength ▸ h32), hi, hi'] using hbit

theorem byteBits_injective : Function.Injective byteBits := by
  intro x y h
  apply UInt8.toBitVec_inj.mp
  apply BitVec.eq_of_getLsbD_eq
  intro i hi
  exact List.map_inj_left.mp h i (List.mem_range.mpr hi)

theorem messageBits_length (payload : Bytes) : (messageBits payload).length = 8 * payload.length := by
  induction payload with
  | nil => rfl
  | cons byte payload ih =>
    rw [messageBits, List.flatMap_cons, List.length_append, ← messageBits, ih]
    simp [byteBits]
    omega

theorem getElem?_messageBits (payload : Bytes) (i : Nat) :
    (messageBits payload)[i]? = (payload[i / 8]?).bind fun byte => (byteBits byte)[i % 8]? := by
  induction payload generalizing i with
  | nil => simp [messageBits]
  | cons byte payload ih =>
    have hlength : (byteBits byte).length = 8 := by simp [byteBits]
    rw [messageBits, List.flatMap_cons, ← messageBits]
    by_cases hi : i < 8
    · rw [List.getElem?_append_left (by omega), Nat.div_eq_of_lt hi, Nat.mod_eq_of_lt hi]
      simp
    · obtain ⟨k, rfl⟩ : ∃ k, i = 8 + k := ⟨i - 8, by omega⟩
      rw [List.getElem?_append_right (by omega), hlength, Nat.add_sub_cancel_left, ih,
        show (8 + k) / 8 = k / 8 + 1 by omega, show (8 + k) % 8 = k % 8 by omega]
      simp

theorem messageBits_injective : Function.Injective messageBits := by
  intro p p' h
  induction p generalizing p' with
  | nil =>
    have hlength := congrArg List.length h
    rw [messageBits_length, messageBits_length] at hlength
    rw [List.length_nil] at hlength
    exact (List.length_eq_zero_iff.mp (by omega)).symm
  | cons x p ih =>
    cases p' with
    | nil =>
      have hlength := congrArg List.length h
      rw [messageBits_length, messageBits_length] at hlength
      simp at hlength
    | cons y p' =>
      have hsplit : byteBits x ++ messageBits p = byteBits y ++ messageBits p' := h
      obtain ⟨hx, hp⟩ := List.append_inj hsplit (by simp [byteBits])
      rw [byteBits_injective hx, ih hp]

end Bits

/-- Damage to a payload that stays within 32 consecutive bits, in the order in
which the checksum takes them. -/
structure Burst (payload damaged : Bytes) : Prop where
  length : damaged.length = payload.length
  ne : damaged ≠ payload
  window : ∃ a, ∀ i, (messageBits damaged)[i]? ≠ (messageBits payload)[i]? → a ≤ i ∧ i < a + 32

section Burst

variable {payload damaged : Bytes}

/-- Damage within four consecutive bytes, such as a flipped bit. -/
theorem burst_of_bytes {k : Nat} (hlength : damaged.length = payload.length)
    (hne : damaged ≠ payload)
    (hbytes : ∀ j, damaged[j]? ≠ payload[j]? → k ≤ j ∧ j < k + 4) : Burst payload damaged := by
  refine ⟨hlength, hne, 8 * k, fun i hi => ?_⟩
  have hbyte : damaged[i / 8]? ≠ payload[i / 8]? := by
    intro h
    apply hi
    rw [getElem?_messageBits, getElem?_messageBits, h]
  have := hbytes _ hbyte
  omega

/-- Two payloads that differ by a burst have different checksums. -/
theorem Burst.crc32_ne (h : Burst payload damaged) : crc32 damaged ≠ crc32 payload := by
  obtain ⟨hlength, hne, a, hwindow⟩ := h
  intro hcrc
  have hbits : (messageBits damaged).length = (messageBits payload).length := by
    rw [messageBits_length, messageBits_length, hlength]
  -- the two messages agree before and behind the window
  have hfront : (messageBits damaged).take a = (messageBits payload).take a := by
    apply List.ext_getElem?
    intro i
    by_contra hi
    by_cases hia : i < a
    · rw [List.getElem?_take_of_lt hia, List.getElem?_take_of_lt hia] at hi
      have := hwindow i hi
      omega
    · rw [List.getElem?_take, List.getElem?_take, if_neg hia, if_neg hia] at hi
      exact hi rfl
  have hback : (messageBits damaged).drop (a + 32) = (messageBits payload).drop (a + 32) := by
    apply List.ext_getElem?
    intro i
    by_contra hi
    rw [List.getElem?_drop, List.getElem?_drop] at hi
    have := hwindow _ hi
    omega
  have hsplit : ∀ bits : List Bool, bits.foldl crcBit 0xFFFFFFFF#32 =
      (bits.drop (a + 32)).foldl crcBit (((bits.drop a).take 32).foldl crcBit
        ((bits.take a).foldl crcBit 0xFFFFFFFF#32)) := by
    intro bits
    rw [← List.foldl_append, ← List.foldl_append, ← List.drop_drop, List.take_append_drop,
      List.take_append_drop]
  rw [crc32_eq_bits, crc32_eq_bits] at hcrc
  have hfold := BitVec.not_inj.mp hcrc
  rw [hsplit (messageBits damaged), hsplit (messageBits payload), hfront, hback] at hfold
  have hmiddle : ((messageBits damaged).drop a).take 32 = ((messageBits payload).drop a).take 32 := by
    apply foldl_crcBit_bits _ _ (foldl_crcBit_injective _ hfold)
    · simp [hbits]
    · rw [List.length_take]
      exact Nat.min_le_left _ _
  apply hne
  apply messageBits_injective
  rw [← List.take_append_drop a (messageBits damaged), ← List.take_append_drop a (messageBits payload),
    ← List.take_append_drop 32 ((messageBits damaged).drop a),
    ← List.take_append_drop 32 ((messageBits payload).drop a), List.drop_drop, List.drop_drop,
    hfront, hmiddle, hback]

/-- The header of the record is intact: the reader finds out at the checksum. -/
theorem Burst.nextRecord {name : String} {data rest : Bytes} {M q : Nat} (h : Burst payload damaged)
    (ha : Admissible M payload)
    (hdata : data.drop q = writeLittleEndian (BitVec.ofNat 32 payload.length) (crc32 payload) ++
      (damaged ++ rest)) :
    nextRecord name data M q = .error ⟨name, q,
      s!"WAL checksum mismatch: expected 0x{hex08 (crc32 payload).toNat}, got 0x{hex08 (crc32 damaged).toNat}"⟩ := by
  have hheader : (data.drop q).take headerSize =
      writeLittleEndian (BitVec.ofNat 32 payload.length) (crc32 payload) := by
    rw [hdata, List.take_left' (writeLittleEndian_length _ _)]
  have hpayload : (data.drop (q + headerSize)).take payload.length = damaged := by
    rw [← List.drop_drop, hdata, List.drop_left' (writeLittleEndian_length _ _),
      List.take_left' h.length]
  have hne : writeLittleEndian (BitVec.ofNat 32 payload.length) (crc32 payload) ≠ [] := by
    apply List.ne_nil_of_length_pos
    rw [writeLittleEndian_length]
    decide
  have hcrc : (binasciiCrc32 damaged).toNat ≠ (crc32 payload).toNat := by
    rw [← crc32_eq_binasciiCrc32]
    exact fun e => h.crc32_ne (BitVec.eq_of_toNat_eq e)
  unfold Wal.nextRecord
  dsimp only
  rw [hheader, if_neg hne, checkHeader_write name q M payload ha.1 ha.2.1 ha.2.2]
  dsimp only
  rw [hpayload, checkPayload, if_neg (not_not.mpr h.length), if_pos hcrc, ← crc32_eq_binasciiCrc32]

end Burst

/-- A burst of at most 32 bits, damage within four bytes for one, changes the
checksum of every payload. So a record whose header is intact is not yielded by
any read, and a read that gets to it ends with the mismatch at its offset. -/
theorem burst_detected :
    (∀ payload damaged, Burst payload damaged → crc32 damaged ≠ crc32 payload) ∧
    (∀ (payload damaged : Bytes) k, damaged.length = payload.length → damaged ≠ payload →
      (∀ j, damaged[j]? ≠ payload[j]? → k ≤ j ∧ j < k + 4) → Burst payload damaged) ∧
    ∀ name payload damaged data rest M q, Burst payload damaged → Admissible M payload →
      data.drop q = writeLittleEndian (BitVec.ofNat 32 payload.length) (crc32 payload) ++
        (damaged ++ rest) →
      (∀ p, ∀ r ∈ (walRecordsFrom name data p M).1, r.start ≠ q) ∧
      ∀ p rs, Reads M data p q rs → walRecordsFrom name data p M = (rs, some ⟨name, q,
        s!"WAL checksum mismatch: expected 0x{hex08 (crc32 payload).toNat}, got 0x{hex08 (crc32 damaged).toNat}"⟩) := by
  refine ⟨fun _ _ h => h.crc32_ne, fun _ _ _ => burst_of_bytes, ?_⟩
  intro name payload damaged data rest M q h ha hdata
  have hnext := @Burst.nextRecord _ _ name _ _ _ _ h ha hdata
  have hnot : ∀ r, r.start = q → ¬IsRecord M data r := by
    intro r hr hi
    rw [(@nextRecord_eq_some name _ _ _ _).mpr ⟨hr, hi⟩] at hnext
    cases hnext
  refine ⟨fun p r hr hstart => ?_, fun p rs hrs => ?_⟩
  · obtain ⟨q', hq', -⟩ := walRecordsFrom_reads name data p M
    exact hnot r hstart (hq'.isRecord hr).1
  · obtain ⟨q', hq', he'⟩ := walRecordsFrom_reads name data p M
    have hsame : (walRecordsFrom name data p M).1 = rs ∧ q' = q := by
      rcases hq'.compare hrs with ⟨t, ht, e⟩ | ⟨t, ht, e⟩
      · cases ht with
        | nil => exact ⟨by simpa using e.symm, rfl⟩
        | cons h' _ => exact absurd h' (not_isRecord_of_end he' _ rfl)
      · cases ht with
        | nil => exact ⟨by simpa using e, rfl⟩
        | cons h' _ => exact absurd h' (hnot _ rfl)
    obtain ⟨hrecords, rfl⟩ := hsame
    cases herr : (walRecordsFrom name data p M).2 with
    | none =>
      rw [herr, hnext] at he'
      cases he'
    | some e =>
      rw [herr, hnext] at he'
      rw [Except.error.inj he', ← hrecords, ← herr]

end Lrcp.Wal
