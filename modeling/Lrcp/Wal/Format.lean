import Lrcp.Wal.Reader
import Lrcp.Wal.Whole

namespace Lrcp.Wal

/-- The records follow one another from `p` to `q` without a gap. -/
def Contiguous : Nat → List WalRecord → Nat → Prop
  | p, [], q => p = q
  | p, r :: rs, q => r.start = p ∧ Contiguous r.stop rs q

/-- A record boundary of a full read: the start of the segment, or an end of a record. -/
def RecordBoundary (rs : List WalRecord) (p : Nat) : Prop := p = 0 ∨ ∃ r ∈ rs, p = r.stop

section Slices

variable {name : String} {s : Bytes} {M p q : Nat} {r : WalRecord} {rs : List WalRecord}

/-- The bytes of a record are those that the writer writes for its payload. -/
theorem IsRecord.slice (h : IsRecord M s r) : (s.take r.stop).drop r.start = encodeRecord r.payload := by
  have hlength : r.stop - r.start = (encodeRecord r.payload).length := by
    rw [encodeRecord_length, h.stop]
    omega
  rw [List.drop_take, hlength]
  exact (List.prefix_iff_eq_take.mp h.bytes).symm

theorem IsRecord.admissible (h : IsRecord M s r) : Admissible M r.payload :=
  ⟨h.nonempty, h.within, h.fits⟩

theorem Reads.contiguous (h : Reads M s p q rs) : Contiguous p rs q := by
  induction h with
  | nil p => rfl
  | cons h _ ih => exact ⟨rfl, ih⟩

/-- What a read passes over is the concatenation of the encodings. -/
theorem Reads.slice (h : Reads M s p q rs) :
    s.drop p = (rs.map WalRecord.payload).flatMap encodeRecord ++ s.drop q := by
  induction h with
  | nil p => rfl
  | @cons r q rs h _ ih =>
    have hstop : r.stop = r.start + (encodeRecord r.payload).length := by
      rw [encodeRecord_length, h.stop]
      omega
    obtain ⟨rest, hrest⟩ := h.bytes
    have hdrop : s.drop r.stop = rest := by
      rw [hstop, ← List.drop_drop, ← hrest, List.drop_left' rfl]
    rw [List.map_cons, List.flatMap_cons, List.append_assoc, ← ih, hdrop, hrest]

/-- The error names the segment and the position at which no record was found. -/
theorem nextRecord_error {e : WalCorruptionError} (h : nextRecord name s M q = .error e) :
    e.sourceFile = name ∧ e.offset = q := by
  unfold nextRecord at h
  dsimp only at h
  split_ifs at h
  split at h
  · rename_i hhead
    obtain rfl := Except.error.inj h
    exact checkHeader_error hhead
  · split at h
    · rename_i hpayload
      obtain rfl := Except.error.inj h
      exact checkPayload_error hpayload
    · cases h

/-- Where the encoding of an admissible payload stands there is a record. -/
theorem isRecord_of_encoded {payload : Bytes} (ha : Admissible M payload)
    (h : encodeRecord payload <+: s.drop q) :
    IsRecord M s ⟨q, q + headerSize + payload.length, payload⟩ :=
  ⟨ha.1, ha.2.1, ha.2.2, rfl, h⟩

/-- A read from a boundary of the full read yields the rest of it. -/
theorem walRecordsFrom_boundary (hp : RecordBoundary (walRecordsFrom name s 0 M).1 p) :
    (walRecordsFrom name s p M).1 = (walRecordsFrom name s 0 M).1.filter (p ≤ ·.start) := by
  obtain ⟨q, hq, he⟩ := walRecordsFrom_reads name s 0 M
  obtain ⟨q', hq', he'⟩ := walRecordsFrom_reads name s p M
  -- the full read, cut at `p`
  have hcut : ∃ ps t, Reads M s 0 p ps ∧ Reads M s p q t ∧ (walRecordsFrom name s 0 M).1 = ps ++ t := by
    rcases hp with rfl | ⟨r, hr, rfl⟩
    · exact ⟨[], _, .nil 0, hq, rfl⟩
    · obtain ⟨hi, -, -, ps, hps⟩ := hq.isRecord hr
      have hread := hps.append (.single hi)
      rcases hq.compare hread with ⟨t, ht, e⟩ | ⟨t, ht, e⟩
      · generalize hb : r.stop = b at ht hread
        cases ht with
        | nil => exact ⟨_, [], hread, .nil _, by simpa using e.symm⟩
        | cons h' _ => exact absurd h' (not_isRecord_of_end he _ rfl)
      · exact ⟨_, t, hread, ht, e⟩
  obtain ⟨ps, t, hps, ht, hfull⟩ := hcut
  have hrest : (walRecordsFrom name s p M).1 = t := by
    rcases hq'.compare ht with ⟨u, hu, e⟩ | ⟨u, hu, e⟩
    · cases hu with
      | nil => simpa using e.symm
      | cons h' _ => exact absurd h' (not_isRecord_of_end he' _ rfl)
    · cases hu with
      | nil => simpa using e
      | cons h' _ => exact absurd h' (not_isRecord_of_end he _ rfl)
  have hbefore : ps.filter (p ≤ ·.start) = [] := by
    apply List.filter_eq_nil_iff.mpr
    intro r hr
    obtain ⟨hi, -, hle, -⟩ := hps.isRecord hr
    have hlt := hi.start_lt_stop
    simp only [decide_eq_true_eq, Nat.not_le]
    omega
  have hbehind : t.filter (p ≤ ·.start) = t := by
    apply List.filter_eq_self.mpr
    intro r hr
    obtain ⟨-, hle, -⟩ := ht.isRecord hr
    simpa using hle
  rw [hrest, hfull, List.filter_append, hbefore, hbehind, List.nil_append]

/-- The encodings of admissible payloads come back first, whatever follows them. -/
theorem walRecordsFrom_front {payloads : List Bytes} (rest : Bytes)
    (h : ∀ payload ∈ payloads, Admissible M payload) :
    payloads <+: (walRecordsFrom name (payloads.flatMap encodeRecord ++ rest) 0 M).1.map
      WalRecord.payload := by
  obtain ⟨rs, hrs, hmap⟩ := reads_encode [] rest h
  obtain ⟨q, hq, he⟩ := walRecordsFrom_reads name (payloads.flatMap encodeRecord ++ rest) 0 M
  simp only [List.nil_append, List.length_nil, Nat.zero_add] at hrs
  rcases hq.compare hrs with ⟨t, ht, e⟩ | ⟨t, -, e⟩
  · generalize hb : (payloads.flatMap encodeRecord).length = b at ht
    cases ht with
    | nil =>
      rw [List.append_nil] at e
      rw [← e, hmap]
    | cons h' _ => exact absurd h' (not_isRecord_of_end he _ rfl)
  · rw [e, List.map_append, hmap]
    exact List.prefix_append _ _

/-- The reader ends without an error exactly on concatenations of encodings. -/
theorem walRecordsFrom_none : (walRecordsFrom name s 0 M).2 = none ↔
    ∃ payloads : List Bytes, (∀ payload ∈ payloads, Admissible M payload) ∧
      s = payloads.flatMap encodeRecord := by
  rw [walRecordsFrom_clean]
  constructor
  · intro h
    obtain ⟨rs, hrs⟩ := h
    refine ⟨rs.map WalRecord.payload, fun payload hp => ?_, ?_⟩
    · obtain ⟨r, hr, rfl⟩ := List.mem_map.mp hp
      exact (hrs.isRecord hr).1.admissible
    · have hslice := hrs.slice
      rw [List.drop_length, List.append_nil] at hslice
      exact hslice
  · intro h
    obtain ⟨payloads, hp, rfl⟩ := h
    obtain ⟨rs, hrs, -⟩ := reads_encode [] [] hp
    simp only [List.nil_append, List.append_nil, List.length_nil, Nat.zero_add] at hrs
    exact ⟨rs, hrs⟩

end Slices

/-- The reader accepts exactly the writer's format. A full read yields adjacent
records with the bytes that the writer writes, up to an end `q`. It raises no
error exactly on concatenations of encodings; otherwise the error names `q`, and
no encoding stands there. What has been encoded comes back first, and a read from
a record boundary yields what the full read yields from there on. -/
theorem walRecordsFrom_format (name : String) (s : Bytes) (M : Nat) :
    ∃ q, Contiguous 0 (walRecordsFrom name s 0 M).1 q ∧
      (∀ r ∈ (walRecordsFrom name s 0 M).1, 1 ≤ r.payload.length ∧ r.payload.length ≤ M ∧
        (s.take r.stop).drop r.start = encodeRecord r.payload) ∧
      ((walRecordsFrom name s 0 M).2 = none ↔ ∃ payloads : List Bytes,
        (∀ payload ∈ payloads, Admissible M payload) ∧ s = payloads.flatMap encodeRecord) ∧
      (∀ e, (walRecordsFrom name s 0 M).2 = some e → e.offset = q ∧
        ∀ payload, Admissible M payload → ¬encodeRecord payload <+: s.drop q) ∧
      (∀ payloads : List Bytes, ∀ rest, (∀ payload ∈ payloads, Admissible M payload) →
        ((walRecordsFrom name (payloads.flatMap encodeRecord) 0 M).1.map WalRecord.payload = payloads ∧
          payloads <+: (walRecordsFrom name (payloads.flatMap encodeRecord ++ rest) 0 M).1.map
            WalRecord.payload)) ∧
      ∀ p, RecordBoundary (walRecordsFrom name s 0 M).1 p →
        (walRecordsFrom name s p M).1 = (walRecordsFrom name s 0 M).1.filter (p ≤ ·.start) := by
  obtain ⟨q, hq, he⟩ := walRecordsFrom_reads name s 0 M
  refine ⟨q, hq.contiguous, fun r hr => ?_, walRecordsFrom_none, fun e herr => ⟨?_, ?_⟩,
    fun payloads rest hp => ⟨(walRecordsFrom_encode name hp).1, walRecordsFrom_front rest hp⟩,
    fun p hp => walRecordsFrom_boundary hp⟩
  · have hi := (hq.isRecord hr).1
    exact ⟨List.length_pos_of_ne_nil hi.nonempty, hi.within, hi.slice⟩
  · rw [herr] at he
    exact (nextRecord_error he).2
  · intro payload ha hpre
    exact not_isRecord_of_end he _ rfl (isRecord_of_encoded ha hpre)

section Payloads

variable {payloads payloads' : List Bytes} {M : Nat} {name : String}

/-- What the writer writes determines the payloads. -/
theorem flatMap_encode_inj (h : ∀ payload ∈ payloads, payload.length < 2 ^ 32)
    (h' : ∀ payload ∈ payloads', payload.length < 2 ^ 32)
    (heq : payloads.flatMap encodeRecord <+: payloads'.flatMap encodeRecord) : payloads <+: payloads' := by
  induction payloads generalizing payloads' with
  | nil => exact List.nil_prefix
  | cons payload payloads ih =>
    rw [List.flatMap_cons] at heq
    cases payloads' with
    | nil =>
      have hlength := heq.length_le
      rw [List.length_append, encodeRecord_length] at hlength
      simp [headerSize] at hlength
    | cons payload' payloads' =>
      rw [List.flatMap_cons] at heq
      have hhead : payload = payload' := encodeRecord_inj (h payload (by simp)) (h' payload' (by simp))
        ((List.prefix_append _ _).trans heq)
      subst hhead
      rw [List.prefix_append_right_inj] at heq
      rw [List.prefix_cons_inj]
      exact ih (fun x hx => h x (by simp [hx])) (fun x hx => h' x (by simp [hx])) heq

/-- The reader yields payloads that have been written, in their order. -/
theorem walRecordsFrom_payloads (h : ∀ payload ∈ payloads, payload.length < 2 ^ 32) :
    (walRecordsFrom name (payloads.flatMap encodeRecord) 0 M).1.map WalRecord.payload <+: payloads := by
  obtain ⟨q, hq, -⟩ := walRecordsFrom_reads name (payloads.flatMap encodeRecord) 0 M
  apply flatMap_encode_inj _ h
  · have hslice := hq.slice
    rw [List.drop_zero] at hslice
    exact ⟨_, hslice.symm⟩
  · intro payload hp
    obtain ⟨r, hr, rfl⟩ := List.mem_map.mp hp
    exact (hq.isRecord hr).1.fits

end Payloads

end Lrcp.Wal
