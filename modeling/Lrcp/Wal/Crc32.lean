import Mathlib.Logic.Function.Iterate

namespace Lrcp.Wal

abbrev Bytes := List UInt8

/-- One round of the inner loop: the unsigned negation turns the lowest bit into
a mask over all 32 bits. -/
def crcStep (crc : BitVec 32) : BitVec 32 :=
  (crc >>> 1) ^^^ (0xEDB88320#32 &&& (-(crc &&& 1#32)))

/-- The gateway's loop over one character of the payload. -/
def crcByte (crc : BitVec 32) (character : UInt8) : BitVec 32 :=
  crcStep^[8] (crc ^^^ character.toBitVec.setWidth 32)

/-- `crc32` of the gateway, one bit at a time. -/
def crc32 (payload : Bytes) : BitVec 32 := ~~~(payload.foldl crcByte 0xFFFFFFFF#32)

/-- The loop where `char` is signed: `static_cast<unsigned char>` comes first. -/
def crcChar (crc : BitVec 32) (character : Int8) : BitVec 32 := crcByte crc character.toUInt8

/-- The entry of the CRC-32 table for one byte. -/
def crcTable (index : BitVec 8) : BitVec 32 := crcStep^[8] (index.setWidth 32)

def tableByte (crc : BitVec 32) (byte : UInt8) : BitVec 32 :=
  crcTable ((crc ^^^ byte.toBitVec.setWidth 32).setWidth 8) ^^^ (crc >>> 8)

/-- `binascii.crc32`, one byte at a time from the table. -/
def binasciiCrc32 (payload : Bytes) : BitVec 32 :=
  payload.foldl tableByte 0xFFFFFFFF#32 ^^^ 0xFFFFFFFF#32

theorem crcStep_of_even (x : BitVec 32) (h : x.getLsbD 0 = false) : crcStep x = x >>> 1 := by
  have hm : x &&& 1#32 = 0#32 := by
    rw [BitVec.and_one_eq_setWidth_ofBool_getLsbD, h]
    rfl
  simp [crcStep, hm]

theorem crcStep_of_odd (x : BitVec 32) (h : x.getLsbD 0 = true) :
    crcStep x = (x >>> 1) ^^^ 0xEDB88320#32 := by
  have hm : x &&& 1#32 = 1#32 := by
    rw [BitVec.and_one_eq_setWidth_ofBool_getLsbD, h]
    rfl
  rw [crcStep, hm]
  rfl

/-- The step is linear over exclusive or. -/
theorem crcStep_xor (x y : BitVec 32) : crcStep (x ^^^ y) = crcStep x ^^^ crcStep y := by
  have hb : (x ^^^ y).getLsbD 0 = (x.getLsbD 0 ^^ y.getLsbD 0) := BitVec.getLsbD_xor
  have hs : (x ^^^ y) >>> 1 = (x >>> 1) ^^^ (y >>> 1) := BitVec.ushiftRight_xor_distrib _ _ _
  cases hx : x.getLsbD 0 <;> cases hy : y.getLsbD 0 <;> rw [hx, hy] at hb
  · rw [crcStep_of_even _ hb, crcStep_of_even _ hx, crcStep_of_even _ hy, hs]
  · rw [crcStep_of_odd _ hb, crcStep_of_even _ hx, crcStep_of_odd _ hy, hs, BitVec.xor_assoc]
  · rw [crcStep_of_odd _ hb, crcStep_of_odd _ hx, crcStep_of_even _ hy, hs]
    ac_rfl
  · rw [crcStep_of_even _ hb, crcStep_of_odd _ hx, crcStep_of_odd _ hy, hs]
    calc x >>> 1 ^^^ y >>> 1 = x >>> 1 ^^^ y >>> 1 ^^^ (0xEDB88320#32 ^^^ 0xEDB88320#32) := by simp
      _ = _ := by ac_rfl

theorem crcStep_iterate_xor (n : Nat) (x y : BitVec 32) :
    crcStep^[n] (x ^^^ y) = crcStep^[n] x ^^^ crcStep^[n] y := by
  induction n generalizing x y with
  | zero => rfl
  | succ n ih => rw [Function.iterate_succ_apply, crcStep_xor, ih]; rfl

/-- As long as only clear bits fall out, the register just moves down. -/
theorem crcStep_iterate_shift (n k : Nat) (hk : k ≤ n) (x : BitVec 32)
    (h : ∀ i, i < n → x.getLsbD i = false) : crcStep^[k] x = x >>> k := by
  induction k with
  | zero => simp
  | succ k ih =>
    have hbit : (x >>> k).getLsbD 0 = false := by
      simpa [BitVec.getLsbD_ushiftRight] using h k (by omega)
    rw [Function.iterate_succ_apply', ih (by omega), crcStep_of_even _ hbit, BitVec.shiftRight_add]

/-- Eight steps: the table entry of the low byte, and the rest moved down. -/
theorem crcStep_eight (x : BitVec 32) :
    crcStep^[8] x = crcTable (x.setWidth 8) ^^^ (x >>> 8) := by
  have hsplit : x = (x.setWidth 8).setWidth 32 ^^^ ((x >>> 8) <<< 8) := by
    apply BitVec.eq_of_getLsbD_eq
    intro i hi
    simp only [BitVec.getLsbD_xor, BitVec.getLsbD_setWidth, BitVec.getLsbD_shiftLeft,
      BitVec.getLsbD_ushiftRight]
    by_cases h8 : i < 8
    · simp [h8, hi]
    · simp [h8, hi, show 8 + (i - 8) = i by omega]
  have hhigh : crcStep^[8] ((x >>> 8) <<< 8) = ((x >>> 8) <<< 8) >>> 8 :=
    crcStep_iterate_shift 8 8 (Nat.le_refl 8) _ fun i hi => by simp [BitVec.getLsbD_shiftLeft, hi]
  have hback : ((x >>> 8) <<< 8) >>> 8 = x >>> 8 := by
    apply BitVec.eq_of_getLsbD_eq
    intro i hi
    simp only [BitVec.getLsbD_ushiftRight, BitVec.getLsbD_shiftLeft]
    by_cases h : 8 + i < 32
    · simp [h]
    · simp [h, BitVec.getLsbD_of_ge x (8 + i) (by omega)]
  calc crcStep^[8] x
      = crcStep^[8] ((x.setWidth 8).setWidth 32) ^^^ crcStep^[8] ((x >>> 8) <<< 8) := by
        rw [← crcStep_iterate_xor, ← hsplit]
    _ = crcTable (x.setWidth 8) ^^^ (x >>> 8) := by rw [hhigh, hback]; rfl

theorem crcByte_eq_tableByte (crc : BitVec 32) (b : UInt8) : crcByte crc b = tableByte crc b := by
  have hb : (b.toBitVec.setWidth 32) >>> 8 = 0#32 := by
    apply BitVec.eq_of_getLsbD_eq
    intro i hi
    simp [BitVec.getLsbD_ushiftRight, BitVec.getLsbD_setWidth]
  rw [crcByte, crcStep_eight, tableByte, BitVec.ushiftRight_xor_distrib, hb, BitVec.xor_zero]

/-- The checksum does not depend on whether `char` is signed. -/
theorem crc32_signed (payload : Bytes) :
    ~~~((payload.map UInt8.toInt8).foldl crcChar 0xFFFFFFFF#32) = crc32 payload := by
  rw [List.foldl_map, crc32]
  rfl

/-- The gateway and the reader compute the same checksum of every payload. -/
theorem crc32_eq_binasciiCrc32 (payload : Bytes) : crc32 payload = binasciiCrc32 payload := by
  have hfold : ∀ c : BitVec 32, payload.foldl crcByte c = payload.foldl tableByte c := by
    intro c
    congr 1
    funext c b
    exact crcByte_eq_tableByte c b
  rw [crc32, binasciiCrc32, hfold, ← BitVec.allOnes_xor]
  exact BitVec.xor_comm _ _

/-- The vector of the gateway's own test. -/
example : crc32 [0x31, 0x32, 0x33, 0x34, 0x35, 0x36, 0x37, 0x38, 0x39] = 0xCBF43926#32 := by
  decide +kernel

end Lrcp.Wal
