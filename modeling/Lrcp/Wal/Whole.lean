import Lrcp.Wal.Reader

namespace Lrcp.Wal

/-- The segment consists of finished records. Their payloads need not be ones
that the reader admits. -/
def Whole (data : Bytes) : Prop :=
  ∃ payloads : List Bytes, (∀ payload ∈ payloads, payload.length < 2 ^ 32) ∧
    data = payloads.flatMap encodeRecord

/-- The segment can be read to its end. -/
def Clean (maxRecordBytes : Nat) (data : Bytes) : Prop := Boundary maxRecordBytes data data.length

/-- Records stand one behind the other up to `q`, and what follows there is not one. -/
structure FirstInvalid (maxRecordBytes : Nat) (data : Bytes) (q : Nat) : Prop where
  reached : Boundary maxRecordBytes data q
  more : q < data.length
  invalid : ∀ r, r.start = q → ¬IsRecord maxRecordBytes data r

/-- The reader raises an error at `p`, whatever is appended to the segment. -/
def Refused (name : String) (maxRecordBytes : Nat) (data : Bytes) (p : Nat) : Prop :=
  ∀ data', data <+: data' → ∃ e, nextRecord name data' maxRecordBytes p = .error e

section FirstInvalid

variable {M : Nat} {name : String} {data : Bytes} {p q : Nat} {e : WalCorruptionError}

theorem firstInvalid_of_error (hp : Boundary M data p) (h : nextRecord name data M p = .error e) :
    FirstInvalid M data p := by
  refine ⟨hp, ?_, fun r hstart hr => ?_⟩
  · by_contra hge
    rw [nextRecord_eq_none.mpr (by omega)] at h
    cases h
  · have hsome := (@nextRecord_eq_some name _ _ _ _).mpr ⟨hstart, hr⟩
    rw [h] at hsome
    cases hsome

/-- Nobody gets past the first invalid record. -/
theorem FirstInvalid.le (h : FirstInvalid M data q) (hp : Boundary M data p) : p ≤ q := by
  obtain ⟨ps, hps⟩ := hp
  obtain ⟨qs, hqs⟩ := h.reached
  rcases hps.compare hqs with ⟨t, ht, -⟩ | ⟨t, ht, -⟩
  · exact ht.le
  · cases ht with
    | nil => exact Nat.le_refl _
    | cons hr _ => exact absurd hr (h.invalid _ rfl)

theorem FirstInvalid.unique (h : FirstInvalid M data q) (h' : FirstInvalid M data p) : q = p :=
  Nat.le_antisymm (h'.le h.reached) (h.le h'.reached)

theorem FirstInvalid.not_clean (h : FirstInvalid M data q) : ¬Clean M data := by
  intro hclean
  have hle := h.le hclean
  have hmore := h.more
  omega

end FirstInvalid

section Whole

variable {M : Nat} {name : String} {data data' payload : Bytes} {p : Nat} {r : WalRecord}

theorem Refused.grow (h : Refused name M data p) (hd : data <+: data') : Refused name M data' p :=
  fun data'' hd' => h data'' (hd.trans hd')

theorem whole_nil : Whole [] := ⟨[], by simp, rfl⟩

theorem Whole.append (h : Whole data) (hp : payload.length < 2 ^ 32) :
    Whole (data ++ encodeRecord payload) := by
  obtain ⟨payloads, hall, rfl⟩ := h
  refine ⟨payloads ++ [payload], fun x hx => ?_, by simp⟩
  rcases List.mem_append.mp hx with hx | hx
  · exact hall x hx
  · rw [List.mem_singleton.mp hx]
    exact hp

/-- The header tells where a record ends. -/
theorem encodeRecord_inj {payload' rest : Bytes} (hp : payload.length < 2 ^ 32)
    (hp' : payload'.length < 2 ^ 32) (h : encodeRecord payload <+: encodeRecord payload' ++ rest) :
    payload = payload' := by
  obtain ⟨t, ht⟩ := h
  unfold encodeRecord at ht
  rw [List.append_assoc, List.append_assoc] at ht
  obtain ⟨hhead, hbody⟩ := List.append_inj ht (by rw [writeLittleEndian_length, writeLittleEndian_length])
  have hlen : payload.length = payload'.length := by
    have hunpack := congrArg (fun header => (unpackHeader header).1) hhead
    simp only [unpackHeader_write, BitVec.toNat_ofNat] at hunpack
    rwa [Nat.mod_eq_of_lt hp, Nat.mod_eq_of_lt hp'] at hunpack
  exact List.append_inj_left hbody hlen

/-- What the reader does not admit it refuses at once. -/
theorem refused_encode (front rest : Bytes) (hp : payload.length < 2 ^ 32) (h : ¬Admissible M payload) :
    Refused name M (front ++ (encodeRecord payload ++ rest)) front.length := by
  intro data' hd
  obtain ⟨t, rfl⟩ := hd
  have hheader : ((front ++ (encodeRecord payload ++ rest) ++ t).drop front.length).take headerSize =
      writeLittleEndian (BitVec.ofNat 32 payload.length) (crc32 payload) := by
    rw [List.append_assoc, List.drop_left' rfl, encodeRecord, List.append_assoc, List.append_assoc,
      List.take_left' (writeLittleEndian_length _ _)]
  have hne : writeLittleEndian (BitVec.ofNat 32 payload.length) (crc32 payload) ≠ [] := by
    apply List.ne_nil_of_length_pos
    rw [writeLittleEndian_length]
    decide
  unfold nextRecord
  rw [hheader, if_neg hne]
  cases hcheck : checkHeader name front.length
      (writeLittleEndian (BitVec.ofNat 32 payload.length) (crc32 payload)) M with
  | error e => exact ⟨e, rfl⟩
  | ok lc =>
    obtain ⟨-, hunpack, hpos, hle⟩ := checkHeader_ok.mp hcheck
    rw [unpackHeader_write, BitVec.toNat_ofNat, Nat.mod_eq_of_lt hp] at hunpack
    have hlen : payload.length = lc.1 := congrArg Prod.fst hunpack
    rw [← hlen] at hpos hle
    exact absurd ⟨List.ne_nil_of_length_pos hpos, hle, hp⟩ h

/-- Behind the records read, a whole segment goes on with whole records. -/
theorem Whole.drop (h : Whole data) (hp : Boundary M data p) : Whole (data.drop p) := by
  obtain ⟨rs, hrs⟩ := hp
  have key : ∀ p q rs, Reads M data p q rs → Whole (data.drop p) → Whole (data.drop q) := by
    intro p q rs hrs
    induction hrs with
    | nil => exact id
    | @cons r q rs hr _ ih =>
      intro hwhole
      obtain ⟨payloads, hall, hdata⟩ := hwhole
      apply ih
      have hbytes := hr.bytes
      cases payloads with
      | nil =>
        have hlen := hbytes.length_le
        rw [hdata, encodeRecord_length] at hlen
        simp [headerSize] at hlen
      | cons payload payloads =>
        rw [hdata, List.flatMap_cons] at hbytes
        have hpayload := encodeRecord_inj hr.fits (hall payload (by simp)) hbytes
        refine ⟨payloads, fun x hx => hall x (List.mem_cons_of_mem payload hx), ?_⟩
        rw [hr.stop, Nat.add_assoc, ← List.drop_drop, hdata, List.flatMap_cons, hpayload,
          List.drop_left' (encodeRecord_length payload)]
  exact key 0 p rs hrs (by rw [List.drop_zero]; exact h)

/-- In a whole segment the reader arrives at the end, at a record, or at a place
where it is refused for ever. -/
theorem Whole.next (h : Whole data) (hp : Boundary M data p) :
    p = data.length ∨ (∃ r, r.start = p ∧ IsRecord M data r) ∨ ∀ name, Refused name M data p := by
  have hle := hp.le_length
  obtain ⟨payloads, hall, hdata⟩ := h.drop hp
  have hsplit : data.take p ++ data.drop p = data := List.take_append_drop p data
  have hfront : (data.take p).length = p := List.length_take_of_le hle
  cases payloads with
  | nil =>
    have hnil : data.drop p = [] := hdata
    rw [List.drop_eq_nil_iff] at hnil
    exact .inl (by omega)
  | cons payload payloads =>
    rw [hdata, List.flatMap_cons] at hsplit
    by_cases hadm : Admissible M payload
    · have hrec := @isRecord_encode M (data.take p) (payloads.flatMap encodeRecord) payload hadm
      rw [hsplit, hfront] at hrec
      exact .inr (.inl ⟨_, rfl, hrec⟩)
    · refine .inr (.inr fun name => ?_)
      have hrefused : Refused name M
          (data.take p ++ (encodeRecord payload ++ payloads.flatMap encodeRecord)) (data.take p).length :=
        refused_encode _ _ (hall payload (by simp)) hadm
      rwa [hsplit, hfront] at hrefused

theorem Whole.refused {e : WalCorruptionError} (h : Whole data) (hp : Boundary M data p)
    (he : nextRecord name data M p = .error e) : Refused name M data p := by
  rcases h.next hp with hend | ⟨r, hstart, hr⟩ | hrefused
  · rw [nextRecord_eq_none.mpr (Nat.le_of_eq hend.symm)] at he
    cases he
  · rw [(@nextRecord_eq_some name _ _ _ _).mpr ⟨hstart, hr⟩] at he
    cases he
  · exact hrefused name

theorem Refused.not_isRecord (h : Refused name M data p) (hd : data <+: data') (hr : r.start = p) :
    ¬IsRecord M data' r := by
  intro hrec
  obtain ⟨e, he⟩ := h data' hd
  rw [(@nextRecord_eq_some name _ _ _ _).mpr ⟨hr, hrec⟩] at he
  cases he

/-- A whole segment is clean, or reading ends at a place where the reader is refused. -/
theorem Whole.cases (M : Nat) (h : Whole data) :
    Clean M data ∨ ∃ p, Boundary M data p ∧ ∀ name, Refused name M data p := by
  obtain ⟨p, hp, hend⟩ := walRecordsFrom_reads "" data 0 M
  have hbound : Boundary M data p := ⟨_, hp⟩
  rcases h.next hbound with rfl | ⟨r, hstart, hr⟩ | hrefused
  · exact .inl hbound
  · exact absurd hr (not_isRecord_of_end hend r hstart)
  · exact .inr ⟨p, hbound, hrefused⟩

/-- A record more can be read only behind a segment that was clean. -/
theorem Whole.behind (h : Whole data) (hd : data <+: data') (hr : HasRecord M data' r)
    (hstop : ¬r.stop ≤ data.length) : Clean M data := by
  rcases h.cases M with hclean | ⟨p, hp, hrefused⟩
  · exact hclean
  · have hle := hr.stop_le_end (hp.grow hd) fun r' hr' => (hrefused "").not_isRecord hd hr'
    exact absurd (hle.trans hp.le_length) hstop

/-- Appending does not make a whole segment clean. -/
theorem Whole.dirty (h : Whole data) (hd : data <+: data') (hclean : ¬Clean M data) :
    ¬Clean M data' := by
  rcases h.cases M with hclean' | ⟨p, hp, hrefused⟩
  · exact absurd hclean' hclean
  · obtain ⟨e, he⟩ := hrefused "" data' hd
    exact (hp.grow hd).dirty he

end Whole

end Lrcp.Wal
