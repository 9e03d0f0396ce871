import Lrcp.Wal.Record
import Mathlib.Data.List.Infix

namespace Lrcp.Wal

/-- One round of the loop of `_wal_records_from` on the bytes of a segment; `none` is
the clean end of the file. -/
def nextRecord (name : String) (data : Bytes) (maxRecordBytes recordStart : Nat) :
    Except WalCorruptionError (Option WalRecord) :=
  let header := (data.drop recordStart).take headerSize
  if header = [] then .ok none
  else
    match checkHeader name recordStart header maxRecordBytes with
    | .error e => .error e
    | .ok (length, expectedCrc) =>
      let payload := (data.drop (recordStart + headerSize)).take length
      match checkPayload name recordStart length expectedCrc payload with
      | .error e => .error e
      | .ok () => .ok (some ⟨recordStart, recordStart + headerSize + length, payload⟩)

/-- The loop, for at most `fuel` rounds: the records yielded and the error raised, if any. -/
def readRecords (name : String) (data : Bytes) (maxRecordBytes : Nat) :
    Nat → Nat → List WalRecord × Option WalCorruptionError
  | 0, _ => ([], none)
  | fuel + 1, recordStart =>
    match nextRecord name data maxRecordBytes recordStart with
    | .error e => ([], some e)
    | .ok none => ([], none)
    | .ok (some r) =>
      let rest := readRecords name data maxRecordBytes fuel r.stop
      (r :: rest.1, rest.2)

/-- `_wal_records_from` on a file that does not change: every round consumes at
least one byte, so the rounds allowed are enough (`walRecordsFrom_reads`). -/
def walRecordsFrom (name : String) (data : Bytes) (startOffset maxRecordBytes : Nat) :
    List WalRecord × Option WalCorruptionError :=
  readRecords name data maxRecordBytes (data.length + 1) startOffset

/-- The bytes at `r.start` are those the writer writes for a payload that the
reader admits. -/
structure IsRecord (maxRecordBytes : Nat) (data : Bytes) (r : WalRecord) : Prop where
  nonempty : r.payload ≠ []
  within : r.payload.length ≤ maxRecordBytes
  fits : r.payload.length < 2 ^ 32
  stop : r.stop = r.start + headerSize + r.payload.length
  bytes : encodeRecord r.payload <+: data.drop r.start

/-- Reading from `p` yields the records `rs` and arrives at `q`. -/
inductive Reads (maxRecordBytes : Nat) (data : Bytes) : Nat → Nat → List WalRecord → Prop
  | nil (p : Nat) : Reads maxRecordBytes data p p []
  | cons {r : WalRecord} {q : Nat} {rs : List WalRecord} (h : IsRecord maxRecordBytes data r)
      (t : Reads maxRecordBytes data r.stop q rs) : Reads maxRecordBytes data r.start q (r :: rs)

/-- A position that a read from the start of the segment arrives at. -/
def Boundary (maxRecordBytes : Nat) (data : Bytes) (p : Nat) : Prop :=
  ∃ rs, Reads maxRecordBytes data 0 p rs

/-- `r` is one of the records that precede the first invalid record. -/
def HasRecord (maxRecordBytes : Nat) (data : Bytes) (r : WalRecord) : Prop :=
  Boundary maxRecordBytes data r.start ∧ IsRecord maxRecordBytes data r

section Bytes

theorem littleEndian_unpack (bs : Bytes) (h : bs.length = 4) :
    (List.range 4).map (littleEndianByte (BitVec.ofNat 32 (unpackLittleEndian bs))) = bs := by
  match bs, h with
  | [a, b, c, d], _ =>
    have ha := a.toNat_lt
    have hb := b.toNat_lt
    have hc := c.toNat_lt
    have hd := d.toNat_lt
    simp only [List.range_succ, List.range_zero, List.nil_append, List.cons_append, List.map_cons,
      List.map_nil, unpackLittleEndian, littleEndianByte, List.cons.injEq, and_true,
      ← UInt8.toNat_inj, UInt8.toNat_ofBitVec, BitVec.toNat_setWidth, BitVec.toNat_ushiftRight,
      BitVec.toNat_ofNat, Nat.shiftRight_eq_div_pow]
    omega

theorem unpackLittleEndian_lt (bs : Bytes) : unpackLittleEndian bs < 256 ^ bs.length := by
  induction bs with
  | nil => simp [unpackLittleEndian]
  | cons b bs ih =>
    have hb := b.toNat_lt
    rw [unpackLittleEndian, List.length_cons, Nat.pow_succ]
    omega

/-- A header is determined by what it unpacks to. -/
theorem write_unpackHeader (header : Bytes) (h : header.length = headerSize) :
    writeLittleEndian (BitVec.ofNat 32 (unpackHeader header).1)
      (BitVec.ofNat 32 (unpackHeader header).2) = header := by
  have h8 : header.length = 8 := h
  rw [writeLittleEndian, unpackHeader, littleEndian_unpack _ (by simp [h8]),
    littleEndian_unpack _ (by simp [h8]), List.take_append_drop]

end Bytes

section OneRecord

variable {name : String} {data data' : Bytes} {M p q : Nat} {r r' : WalRecord}

/-- The reader yields a record exactly where the writer's encoding of an
admissible payload stands. -/
theorem nextRecord_eq_some :
    nextRecord name data M p = .ok (some r) ↔ r.start = p ∧ IsRecord M data r := by
  unfold nextRecord
  constructor
  · intro h
    dsimp only at h
    split_ifs at h with h0
    · simp at h
    split at h
    · cases h
    · rename_i length expectedCrc hhead
      split at h
      · cases h
      · rename_i hpay
        obtain rfl : _ = r := by simpa using h
        obtain ⟨h8, hu, hpos, hmax⟩ := checkHeader_ok.mp hhead
        obtain ⟨hlen, hcrc⟩ := checkPayload_ok.mp hpay
        refine ⟨rfl, ?_, ?_, ?_, ?_, ?_⟩
        · exact List.ne_nil_of_length_pos (by rw [hlen]; exact hpos)
        · rw [hlen]; exact hmax
        · have hlt := unpackLittleEndian_lt (((data.drop p).take headerSize).take 4)
          have h4 : (((data.drop p).take headerSize).take 4).length = 4 := by
            rw [List.length_take, h8]
            rfl
          have hfst : unpackLittleEndian (((data.drop p).take headerSize).take 4) = length :=
            congrArg Prod.fst hu
          rw [h4, hfst] at hlt
          rw [hlen]
          exact hlt
        · simp only [hlen]
        · have hw := write_unpackHeader _ h8
          rw [hu] at hw
          have hc : BitVec.ofNat 32 expectedCrc =
              crc32 ((data.drop (p + headerSize)).take length) := by
            rw [crc32_eq_binasciiCrc32, ← hcrc, BitVec.ofNat_toNat, BitVec.setWidth_eq]
          dsimp only at hw
          rw [hc] at hw
          rw [encodeRecord, hlen, hw, ← List.drop_drop, ← List.take_add]
          exact List.take_prefix _ _
  · rintro ⟨rfl, hne, hM, h32, hstop, hbytes⟩
    obtain ⟨rest, hrest⟩ := hbytes
    have hhead : (data.drop r.start).take headerSize =
        writeLittleEndian (BitVec.ofNat 32 r.payload.length) (crc32 r.payload) := by
      rw [← hrest, encodeRecord, List.append_assoc,
        List.take_left' (writeLittleEndian_length _ _)]
    have hpay : (data.drop (r.start + headerSize)).take r.payload.length = r.payload := by
      rw [← List.drop_drop, ← hrest, encodeRecord, List.append_assoc,
        List.drop_left' (writeLittleEndian_length _ _), List.take_left' rfl]
    have hnil : (data.drop r.start).take headerSize ≠ [] := by
      rw [hhead]
      exact List.ne_nil_of_length_pos (by rw [writeLittleEndian_length]; decide)
    rw [if_neg hnil, hhead, checkHeader_write _ _ _ _ hne hM h32]
    dsimp only
    rw [hpay, checkPayload_write, ← hstop]

/-- A header and a payload that pass the checks make a record. -/
theorem isRecord_of_checks {length expectedCrc : Nat}
    (hhead : checkHeader name p ((data.drop p).take headerSize) M = .ok (length, expectedCrc))
    (hpay : checkPayload name p length expectedCrc ((data.drop (p + headerSize)).take length) = .ok ()) :
    IsRecord M data
      ⟨p, p + headerSize + length, (data.drop (p + headerSize)).take length⟩ := by
  apply And.right
  apply (@nextRecord_eq_some name _ _ p _).mp
  have hne : (data.drop p).take headerSize ≠ [] := by
    apply List.ne_nil_of_length_pos
    rw [(checkHeader_ok.mp hhead).1]
    decide
  unfold nextRecord
  rw [if_neg hne, hhead]
  dsimp only
  rw [hpay]

/-- Growth does not change bytes that were there in full. -/
theorem take_drop_eq_of_grown {n : Nat} (hd : data <+: data') (hn : ((data.drop p).take n).length = n) :
    (data'.drop p).take n = (data.drop p).take n := by
  obtain ⟨rest, rfl⟩ := hd
  rw [List.length_take, List.length_drop] at hn
  by_cases h0 : n = 0
  · simp [h0]
  · rw [List.drop_append_of_le_length (by omega), List.take_append_of_le_length]
    rw [List.length_drop]
    omega

/-- The loop ends without error exactly at the end of the file. -/
theorem nextRecord_eq_none : nextRecord name data M p = .ok none ↔ data.length ≤ p := by
  unfold nextRecord
  constructor
  · intro h
    dsimp only at h
    split_ifs at h with h0
    · have : data.drop p = [] := by simpa [headerSize] using h0
      simpa using this
    · split at h
      · cases h
      · split at h
        · cases h
        · simp at h
  · intro h
    simp [List.drop_eq_nil_of_le h]

theorem IsRecord.ext (h : IsRecord M data r) (h' : IsRecord M data r') (hs : r.start = r'.start) :
    r = r' := by
  have e := (@nextRecord_eq_some "" _ _ _ _).mpr ⟨rfl, h⟩
  have e' := (@nextRecord_eq_some "" _ _ _ _).mpr ⟨rfl, h'⟩
  rw [hs, e'] at e
  simpa using e.symm

theorem IsRecord.start_lt_stop (h : IsRecord M data r) : r.start < r.stop := by
  rw [h.stop]
  have := List.length_pos_of_ne_nil h.nonempty
  omega

theorem IsRecord.stop_le (h : IsRecord M data r) : r.stop ≤ data.length := by
  have hl := h.bytes.length_le
  rw [encodeRecord_length, List.length_drop] at hl
  have := List.length_pos_of_ne_nil h.nonempty
  rw [h.stop]
  omega

/-- Appending to a segment keeps its records. -/
theorem IsRecord.grow (h : IsRecord M data r) (hd : data <+: data') : IsRecord M data' r := by
  have hlt := h.start_lt_stop
  have hle := h.stop_le
  obtain ⟨rest, rfl⟩ := hd
  refine ⟨h.nonempty, h.within, h.fits, h.stop, h.bytes.trans ?_⟩
  rw [List.drop_append_of_le_length (by omega)]
  exact List.prefix_append _ _

/-- A record that was there in full before the segment grew was a record already. -/
theorem IsRecord.shrink (h : IsRecord M data' r) (hd : data <+: data')
    (hr : r.stop ≤ data.length) : IsRecord M data r := by
  have hlt := h.start_lt_stop
  have hstop := h.stop
  obtain ⟨rest, rfl⟩ := hd
  have hb := h.bytes
  rw [List.drop_append_of_le_length (by omega)] at hb
  refine ⟨h.nonempty, h.within, h.fits, hstop, ?_⟩
  refine List.prefix_of_prefix_length_le hb (List.prefix_append _ _) ?_
  rw [encodeRecord_length, List.length_drop]
  omega

end OneRecord

section Chains

variable {name : String} {data data' : Bytes} {M p q s : Nat} {r r' : WalRecord}
  {rs rs' : List WalRecord}

theorem Reads.le (h : Reads M data p q rs) : p ≤ q := by
  induction h with
  | nil p => exact Nat.le_refl p
  | cons h _ ih => exact (Nat.le_of_lt h.start_lt_stop).trans ih

theorem Reads.append (h : Reads M data p q rs) (t : Reads M data q s rs') :
    Reads M data p s (rs ++ rs') := by
  induction h with
  | nil p => exact t
  | cons h _ ih => exact .cons h (ih t)

theorem Reads.single (h : IsRecord M data r) : Reads M data r.start r.stop [r] := .cons h (.nil _)

/-- Of two reads from one position, one continues the other. -/
theorem Reads.compare (h : Reads M data p q rs) (h' : Reads M data p s rs') :
    (∃ t, Reads M data q s t ∧ rs' = rs ++ t) ∨ (∃ t, Reads M data s q t ∧ rs = rs' ++ t) := by
  induction h generalizing s rs' with
  | nil p => exact .inl ⟨rs', h', rfl⟩
  | @cons r q rs hr ht ih =>
    generalize hp : r.start = a at h'
    cases h' with
    | nil => exact .inr ⟨r :: rs, hp ▸ .cons hr ht, rfl⟩
    | @cons r' _ rs' hr' ht' =>
      obtain rfl : r = r' := hr.ext hr' hp
      rcases ih ht' with ⟨t, htt, e⟩ | ⟨t, htt, e⟩
      · exact .inl ⟨t, htt, by rw [e, List.cons_append]⟩
      · exact .inr ⟨t, htt, by rw [e, List.cons_append]⟩

theorem Reads.isRecord (h : Reads M data p q rs) (hr : r ∈ rs) :
    IsRecord M data r ∧ p ≤ r.start ∧ r.stop ≤ q ∧ ∃ a, Reads M data p r.start a := by
  induction h with
  | nil p => simp at hr
  | cons h t ih =>
    rcases List.mem_cons.mp hr with rfl | hr
    · exact ⟨h, Nat.le_refl _, t.le, [], .nil _⟩
    · obtain ⟨hi, hs, hq, a, ha⟩ := ih hr
      exact ⟨hi, (Nat.le_of_lt h.start_lt_stop).trans hs, hq, _, .cons h ha⟩

theorem Reads.increasing (h : Reads M data p q rs) : rs.Pairwise fun a b => a.start < b.start := by
  induction h with
  | nil p => exact List.Pairwise.nil
  | cons hr t ih =>
    refine List.pairwise_cons.mpr ⟨fun b hb => ?_, ih⟩
    exact hr.start_lt_stop.trans_le (t.isRecord hb).2.1

theorem Reads.grow (h : Reads M data p q rs) (hd : data <+: data') : Reads M data' p q rs := by
  induction h with
  | nil p => exact .nil p
  | cons h _ ih => exact .cons (h.grow hd) ih

theorem Reads.shrink (h : Reads M data' p q rs) (hd : data <+: data') (hq : q ≤ data.length) :
    Reads M data p q rs := by
  induction h with
  | nil p => exact .nil p
  | cons h t ih => exact .cons (h.shrink hd (t.le.trans hq)) (ih hq)

theorem Boundary.zero : Boundary M data 0 := ⟨[], .nil 0⟩

theorem Boundary.grow (h : Boundary M data p) (hd : data <+: data') : Boundary M data' p :=
  h.imp fun _ h => h.grow hd

theorem Boundary.le_length (h : Boundary M data p) : p ≤ data.length := by
  obtain ⟨rs, h⟩ := h
  have key : ∀ {a b rs}, Reads M data a b rs → a ≤ data.length → b ≤ data.length := by
    intro a b rs h
    induction h with
    | nil p => exact id
    | cons h _ ih => exact fun _ => ih h.stop_le
  exact key h (Nat.zero_le _)

theorem HasRecord.boundary_stop (h : HasRecord M data r) : Boundary M data r.stop := by
  obtain ⟨⟨rs, hrs⟩, hr⟩ := h
  exact ⟨rs ++ [r], hrs.append (.single hr)⟩

theorem HasRecord.grow (h : HasRecord M data r) (hd : data <+: data') : HasRecord M data' r :=
  ⟨h.1.grow hd, h.2.grow hd⟩

theorem HasRecord.shrink (h : HasRecord M data' r) (hd : data <+: data')
    (hr : r.stop ≤ data.length) : HasRecord M data r := by
  obtain ⟨⟨rs, hrs⟩, hi⟩ := h
  have hlt := hi.start_lt_stop
  exact ⟨⟨rs, hrs.shrink hd (by omega)⟩, hi.shrink hd hr⟩

theorem HasRecord.ext (h : HasRecord M data r) (h' : HasRecord M data r')
    (hs : r.start = r'.start) : r = r' := h.2.ext h'.2 hs

/-- A record at or behind the start of another one is that one or stands behind it. -/
theorem HasRecord.eq_or_stop_le (h : HasRecord M data r) (h' : HasRecord M data r')
    (hle : r.start ≤ r'.start) : r' = r ∨ r.stop ≤ r'.start := by
  obtain ⟨⟨rs, hrs⟩, hi⟩ := h
  obtain ⟨⟨rs', hrs'⟩, hi'⟩ := h'
  rcases hrs.compare hrs' with ⟨t, ht, -⟩ | ⟨t, ht, -⟩
  · generalize hp : r.start = p at ht
    generalize hq : r'.start = q at ht
    cases ht with
    | nil => exact .inl (hi'.ext hi (hq.trans hp.symm))
    | cons hr t =>
      obtain rfl := hi.ext hr hp
      exact .inr t.le
  · have hle' := ht.le
    exact .inl (hi'.ext hi (by omega))

/-- A boundary does not cut a record. -/
theorem Boundary.cases (hp : Boundary M data p) (h : HasRecord M data r) :
    r.stop ≤ p ∨ p ≤ r.start := by
  obtain ⟨⟨rs, hrs⟩, hi⟩ := h
  obtain ⟨ps, hps⟩ := hp
  rcases hps.compare hrs with ⟨t, ht, -⟩ | ⟨t, ht, -⟩
  · exact .inr ht.le
  · generalize ha : r.start = a at ht
    cases ht with
    | nil => exact .inr (Nat.le_refl _)
    | cons h' t' =>
      obtain rfl := hi.ext h' ha
      exact .inl t'.le

/-- Where the reader stops, all records of the segment are behind it. -/
theorem HasRecord.stop_le_end (h : HasRecord M data r) (hp : Boundary M data p)
    (hn : ∀ r', r'.start = p → ¬IsRecord M data r') : r.stop ≤ p := by
  obtain ⟨⟨rs, hrs⟩, hi⟩ := h
  obtain ⟨ps, hps⟩ := hp
  rcases hps.compare hrs with ⟨t, ht, -⟩ | ⟨t, ht, -⟩
  · cases ht with
    | nil => exact absurd hi (hn r rfl)
    | cons h' _ => exact absurd h' (hn _ rfl)
  · generalize ha : r.start = a at ht
    cases ht with
    | nil => exact absurd hi (hn r ha)
    | cons h' t' =>
      obtain rfl := hi.ext h' ha
      exact t'.le

end Chains

section Loop

variable {name : String} {data : Bytes} {M p : Nat} {r : WalRecord}

/-- The loop reads records up to a position where `nextRecord` yields none, and
its error is the one raised there. -/
theorem readRecords_reads (fuel : Nat) (hf : data.length < p + fuel) :
    ∃ q, Reads M data p q (readRecords name data M fuel p).1 ∧
      match (readRecords name data M fuel p).2 with
      | none => nextRecord name data M q = .ok none
      | some e => nextRecord name data M q = .error e := by
  induction fuel generalizing p with
  | zero => exact ⟨p, .nil p, nextRecord_eq_none.mpr (by omega)⟩
  | succ fuel ih =>
    unfold readRecords
    split
    · rename_i e he
      exact ⟨p, .nil p, he⟩
    · rename_i he
      exact ⟨p, .nil p, he⟩
    · rename_i r hr
      obtain ⟨rfl, hi⟩ := nextRecord_eq_some.mp hr
      have hlt := hi.start_lt_stop
      obtain ⟨q, hq, he⟩ := ih (p := r.stop) (by omega)
      exact ⟨q, .cons hi hq, he⟩

theorem walRecordsFrom_reads (name : String) (data : Bytes) (p M : Nat) :
    ∃ q, Reads M data p q (walRecordsFrom name data p M).1 ∧
      match (walRecordsFrom name data p M).2 with
      | none => nextRecord name data M q = .ok none
      | some e => nextRecord name data M q = .error e :=
  readRecords_reads _ (by omega)

/-- Where the reader stops there is no record. -/
theorem not_isRecord_of_end {q : Nat} {o : Option WalCorruptionError} (h : match o with
      | none => nextRecord name data M q = .ok none
      | some e => nextRecord name data M q = .error e) :
    ∀ r, r.start = q → ¬IsRecord M data r := by
  intro r hr hi
  have hsome := (@nextRecord_eq_some name _ _ _ _).mpr ⟨hr, hi⟩
  split at h <;> rw [hsome] at h <;> simp at h

/-- The records of a full read are those of any read that cannot be continued. -/
theorem walRecordsFrom_eq {q : Nat} {rs : List WalRecord} (h : Reads M data 0 q rs)
    (hend : ∀ r, r.start = q → ¬IsRecord M data r) : (walRecordsFrom name data 0 M).1 = rs := by
  obtain ⟨q', hq', he'⟩ := walRecordsFrom_reads name data 0 M
  rcases hq'.compare h with ⟨t, ht, e⟩ | ⟨t, ht, e⟩
  · cases ht with
    | nil => simpa using e.symm
    | cons h' _ => exact absurd h' (not_isRecord_of_end he' _ rfl)
  · cases ht with
    | nil => simpa using e
    | cons h' _ => exact absurd h' (hend _ rfl)

/-- A full read yields the records that precede the first invalid one, and no others. -/
theorem mem_walRecordsFrom : r ∈ (walRecordsFrom name data 0 M).1 ↔ HasRecord M data r := by
  obtain ⟨q, hq, he⟩ := walRecordsFrom_reads name data 0 M
  constructor
  · intro hr
    obtain ⟨hi, -, -, a, ha⟩ := hq.isRecord hr
    exact ⟨⟨a, ha⟩, hi⟩
  · rintro ⟨⟨rs, hrs⟩, hi⟩
    rcases hq.compare (hrs.append (.single hi)) with ⟨t, ht, e⟩ | ⟨t, -, e⟩
    · generalize hb : r.stop = b at ht
      cases ht with
      | nil =>
        rw [List.append_nil] at e
        exact e ▸ by simp
      | cons h' _ => exact absurd h' (not_isRecord_of_end he _ rfl)
    · rw [e]
      simp

/-- A read from a boundary yields the records behind it. -/
theorem mem_walRecordsFrom_of_le (hp : Boundary M data p) (hr : HasRecord M data r) (hle : p ≤ r.start) :
    r ∈ (walRecordsFrom name data p M).1 := by
  obtain ⟨q, hq, he⟩ := walRecordsFrom_reads name data p M
  obtain ⟨ps, hps⟩ := hp
  obtain ⟨⟨rs, hrs⟩, hi⟩ := hr
  have hlt := hi.start_lt_stop
  rcases hps.compare (hrs.append (.single hi)) with ⟨t, ht, e⟩ | ⟨t, ht, -⟩
  · have hrt : r ∈ t := by
      have hmem : r ∈ ps ++ t := e ▸ by simp
      rcases List.mem_append.mp hmem with h | h
      · have := (hps.isRecord h).2.2.1
        omega
      · exact h
    rcases hq.compare ht with ⟨u, hu, e'⟩ | ⟨u, -, e'⟩
    · cases hu with
      | nil => simpa [e'] using hrt
      | cons h' _ => exact absurd h' (not_isRecord_of_end he _ rfl)
    · rw [e']
      exact List.mem_append_left _ hrt
  · have := ht.le
    omega

/-- Where the reader raises an error the records end. -/
theorem Boundary.dirty {e : WalCorruptionError} (hp : Boundary M data p)
    (h : nextRecord name data M p = .error e) : ¬Boundary M data data.length := by
  intro hend
  obtain ⟨rs, hrs⟩ := hend
  obtain ⟨ps, hps⟩ := hp
  have hlt : p < data.length := by
    by_contra hge
    rw [nextRecord_eq_none.mpr (by omega)] at h
    cases h
  rcases hps.compare hrs with ⟨t, ht, -⟩ | ⟨t, ht, -⟩
  · generalize hb : data.length = b at ht
    cases ht with
    | nil => omega
    | cons h' _ =>
      rw [(@nextRecord_eq_some name _ _ _ _).mpr ⟨rfl, h'⟩] at h
      cases h
  · have := ht.le
    omega

/-- The reader raises nothing exactly when the whole segment consists of records. -/
theorem walRecordsFrom_clean :
    (walRecordsFrom name data 0 M).2 = none ↔ Boundary M data data.length := by
  obtain ⟨q, hq, he⟩ := walRecordsFrom_reads name data 0 M
  have hle : q ≤ data.length := Boundary.le_length ⟨_, hq⟩
  constructor
  · intro h
    rw [h] at he
    have hge := nextRecord_eq_none.mp he
    have heq : q = data.length := by omega
    exact heq ▸ ⟨_, hq⟩
  · intro hend
    cases ho : (walRecordsFrom name data 0 M).2 with
    | none => rfl
    | some e =>
      rw [ho] at he
      exact absurd hend (Boundary.dirty ⟨_, hq⟩ he)

/-- A payload that the reader admits. -/
def Admissible (maxRecordBytes : Nat) (payload : Bytes) : Prop :=
  payload ≠ [] ∧ payload.length ≤ maxRecordBytes ∧ payload.length < 2 ^ 32

theorem isRecord_encode {front rest payload : Bytes} (h : Admissible M payload) :
    IsRecord M (front ++ (encodeRecord payload ++ rest))
      ⟨front.length, front.length + headerSize + payload.length, payload⟩ := by
  refine ⟨h.1, h.2.1, h.2.2, rfl, ?_⟩
  rw [List.drop_left' rfl]
  exact List.prefix_append _ _

/-- Admissible payloads, written one after the other behind `front`, are read back in order. -/
theorem reads_encode {payloads : List Bytes} (front rest : Bytes)
    (h : ∀ payload ∈ payloads, Admissible M payload) :
    ∃ rs, Reads M (front ++ (payloads.flatMap encodeRecord ++ rest)) front.length
      (front.length + (payloads.flatMap encodeRecord).length) rs ∧
      rs.map WalRecord.payload = payloads := by
  induction payloads generalizing front with
  | nil => exact ⟨[], by simpa using .nil _, rfl⟩
  | cons payload payloads ih =>
    obtain ⟨rs, hrs, hmap⟩ := ih (front ++ encodeRecord payload) fun p hp => h p (by simp [hp])
    have hdata : front ++ (((payload :: payloads).flatMap encodeRecord) ++ rest) =
        front ++ (encodeRecord payload ++ (payloads.flatMap encodeRecord ++ rest)) := by
      simp [List.append_assoc]
    have hlen : front.length + ((payload :: payloads).flatMap encodeRecord).length =
        (front ++ encodeRecord payload).length + (payloads.flatMap encodeRecord).length := by
      simp only [List.flatMap_cons, List.length_append]
      omega
    have hhead : IsRecord M (front ++ (encodeRecord payload ++ (payloads.flatMap encodeRecord ++ rest)))
        ⟨front.length, front.length + headerSize + payload.length, payload⟩ :=
      isRecord_encode (h payload (by simp))
    have hstop : (front ++ encodeRecord payload).length =
        front.length + headerSize + payload.length := by
      rw [List.length_append, encodeRecord_length, Nat.add_assoc]
    rw [hdata, hlen]
    rw [List.append_assoc, hstop] at hrs
    rw [hstop]
    exact ⟨_ :: rs, .cons hhead hrs, by rw [List.map_cons, hmap]⟩

/-- What the writer has written is read back without an error. -/
theorem walRecordsFrom_encode (name : String) {payloads : List Bytes}
    (h : ∀ payload ∈ payloads, Admissible M payload) :
    (walRecordsFrom name (payloads.flatMap encodeRecord) 0 M).1.map WalRecord.payload = payloads ∧
      (walRecordsFrom name (payloads.flatMap encodeRecord) 0 M).2 = none := by
  obtain ⟨rs, hrs, hmap⟩ := reads_encode [] [] h
  simp only [List.nil_append, List.append_nil, List.length_nil, Nat.zero_add] at hrs
  refine ⟨?_, walRecordsFrom_clean.mpr ⟨rs, hrs⟩⟩
  rw [walRecordsFrom_eq hrs fun r hr hi => ?_, hmap]
  have hlt := hi.start_lt_stop
  have hle := hi.stop_le
  omega

end Loop

end Lrcp.Wal
