import Lrcp.Wal.Format
import Lrcp.Wal.Segment

namespace Lrcp.Wal

/-- The records of `data` that are finished going by their lengths, at most `fuel`. -/
def finishedRecords : Nat → Bytes → Bytes
  | 0, _ => []
  | fuel + 1, data =>
    let size := headerSize + (unpackHeader (data.take headerSize)).1
    if headerSize ≤ data.length ∧ size ≤ data.length then
      data.take size ++ finishedRecords fuel (data.drop size)
    else []

/-- A segment without the record at its end that is not finished. -/
def complete (data : Bytes) : Bytes := finishedRecords data.length data

/-- A record, only a part of which has been written. -/
def Torn (part : Bytes) : Prop :=
  ∃ payload : Bytes, payload.length < 2 ^ 32 ∧ part <+: encodeRecord payload ∧ part ≠ encodeRecord payload

section Complete

variable {payloads : List Bytes} {payload part data rest : Bytes}

theorem torn_nil : Torn [] :=
  ⟨[], by decide, List.nil_prefix, by decide⟩

theorem unpackHeader_encode (hp : payload.length < 2 ^ 32) (rest : Bytes) :
    (unpackHeader ((encodeRecord payload ++ rest).take headerSize)).1 = payload.length := by
  rw [encodeRecord, List.append_assoc, List.take_left' (writeLittleEndian_length _ _), unpackHeader_write,
    BitVec.toNat_ofNat, Nat.mod_eq_of_lt hp]

theorem finishedRecords_prefix (fuel : Nat) (data : Bytes) : finishedRecords fuel data <+: data := by
  induction fuel generalizing data with
  | zero => exact List.nil_prefix
  | succ fuel ih =>
    unfold finishedRecords
    dsimp only
    split_ifs with hfits
    · set size := headerSize + (unpackHeader (data.take headerSize)).1
      have hrest : data.take size ++ finishedRecords fuel (data.drop size) <+:
          data.take size ++ data.drop size := (List.prefix_append_right_inj _).mpr (ih _)
      rw [List.take_append_drop] at hrest
      exact hrest
    · exact List.nil_prefix

theorem complete_prefix (data : Bytes) : complete data <+: data := finishedRecords_prefix _ _

/-- The record that has not been written to its end does not count. -/
theorem finishedRecords_torn (h : Torn part) (fuel : Nat) : finishedRecords fuel part = [] := by
  obtain ⟨payload, hp, ⟨rest, hrest⟩, hne⟩ := h
  cases fuel with
  | zero => rfl
  | succ fuel =>
    have hlength := congrArg List.length hrest
    rw [List.length_append, encodeRecord_length] at hlength
    have hpos : rest ≠ [] := by
      intro hnil
      rw [hnil, List.append_nil] at hrest
      exact hne hrest
    have hshort := List.length_pos_of_ne_nil hpos
    unfold finishedRecords
    dsimp only
    rw [if_neg]
    intro ⟨hheader, hsize⟩
    have hunpack := unpackHeader_encode hp []
    rw [List.append_nil, ← hrest, List.take_append_of_le_length hheader] at hunpack
    rw [hunpack] at hsize
    omega

theorem finishedRecords_encode (hp : payload.length < 2 ^ 32) (fuel : Nat) (rest : Bytes) :
    finishedRecords (fuel + 1) (encodeRecord payload ++ rest) =
      encodeRecord payload ++ finishedRecords fuel rest := by
  have hlength : headerSize + payload.length = (encodeRecord payload).length :=
    (encodeRecord_length payload).symm
  rw [finishedRecords, unpackHeader_encode hp, hlength, if_pos, List.take_left' rfl, List.drop_left' rfl]
  rw [List.length_append, encodeRecord_length]
  omega

theorem finishedRecords_whole (h : ∀ payload ∈ payloads, payload.length < 2 ^ 32) (hpart : Torn part)
    {fuel : Nat} (hfuel : payloads.length ≤ fuel) :
    finishedRecords fuel (payloads.flatMap encodeRecord ++ part) = payloads.flatMap encodeRecord := by
  induction payloads generalizing fuel with
  | nil => exact finishedRecords_torn hpart fuel
  | cons payload payloads ih =>
    cases fuel with
    | zero => simp at hfuel
    | succ fuel =>
      have hrest := @ih (fun x hx => h x (by simp [hx])) fuel (by simpa using hfuel)
      rw [List.flatMap_cons, List.append_assoc, finishedRecords_encode (h payload (by simp)), hrest]

theorem length_le_flatMap_encode (payloads : List Bytes) :
    payloads.length ≤ (payloads.flatMap encodeRecord).length := by
  induction payloads with
  | nil => simp
  | cons payload payloads ih =>
    rw [List.flatMap_cons, List.length_append, encodeRecord_length, List.length_cons, headerSize]
    omega

/-- What is left of finished records and one that is not are the finished records. -/
theorem complete_torn (h : ∀ payload ∈ payloads, payload.length < 2 ^ 32) (hpart : Torn part) :
    complete (payloads.flatMap encodeRecord ++ part) = payloads.flatMap encodeRecord := by
  apply finishedRecords_whole h hpart
  have hle := length_le_flatMap_encode payloads
  rw [List.length_append]
  omega

theorem Whole.complete_eq (h : Whole data) : complete data = data := by
  obtain ⟨payloads, hall, rfl⟩ := h
  have hnil := complete_torn hall torn_nil
  rw [List.append_nil] at hnil
  exact hnil

/-- Finished records, and one that has been started. -/
theorem complete_started (h : ∀ payload ∈ payloads, payload.length < 2 ^ 32) (hp : payload.length < 2 ^ 32)
    (hpart : part <+: encodeRecord payload) : complete (payloads.flatMap encodeRecord ++ part) =
      (payloads ++ if part = encodeRecord payload then [payload] else []).flatMap encodeRecord := by
  split_ifs with hfinished
  · have hall : ∀ x ∈ payloads ++ [payload], x.length < 2 ^ 32 := by
      intro x hx
      rcases List.mem_append.mp hx with hx | hx
      · exact h x hx
      · obtain rfl := List.mem_singleton.mp hx
        exact hp
    have hwhole : Whole ((payloads ++ [payload]).flatMap encodeRecord) := ⟨_, hall, rfl⟩
    have hsame : payloads.flatMap encodeRecord ++ part = (payloads ++ [payload]).flatMap encodeRecord := by
      rw [List.flatMap_append, List.flatMap_singleton, hfinished]
    rw [hsame, hwhole.complete_eq]
  · rw [complete_torn h ⟨payload, hp, hpart, hfinished⟩, List.append_nil]

end Complete

namespace Table

variable {α β : Type} {g : α → β} {t : Table α} {f : String} {x : α}

/-- A table with `g` applied to its values. -/
def map (g : α → β) (t : Table α) : Table β :=
  ⟨t.entries.map fun e => ⟨e.1, g e.2⟩, List.NodupKeys.map₂ (fun _ => g) _ t.nodupKeys⟩

@[simp] theorem keys_map : (t.map g).keys = t.keys := List.map₂_keys (fun _ => g) _

@[simp] theorem mem_map : f ∈ t.map g ↔ f ∈ t := by
  rw [AList.mem_keys, keys_map, AList.mem_keys]

theorem lookup_map : (t.map g).lookup f = (t.lookup f).map g :=
  List.dlookup_map₂ (f := fun _ => g) f

theorem kerase_map (l : List (Sigma fun _ : String => α)) :
    List.kerase f (l.map fun e => (⟨e.1, g e.2⟩ : Sigma fun _ : String => β)) =
      (List.kerase f l).map fun e => ⟨e.1, g e.2⟩ := by
  induction l with
  | nil => rfl
  | cons e l ih =>
    rw [List.map_cons]
    by_cases hf : f = e.1
    · have hmapped := @List.kerase_cons_eq _ (fun _ => β) _ f ⟨e.1, g e.2⟩ (l.map fun e => ⟨e.1, g e.2⟩) hf
      rw [hmapped, List.kerase_cons_eq hf]
    · have hmapped := @List.kerase_cons_ne _ (fun _ => β) _ f ⟨e.1, g e.2⟩ (l.map fun e => ⟨e.1, g e.2⟩) hf
      rw [hmapped, List.kerase_cons_ne hf, List.map_cons, ih]

theorem map_erase : Table.map g (t.erase f) = (t.map g).erase f :=
  AList.ext (kerase_map t.entries).symm

theorem map_insert : Table.map g (t.insert f x) = (t.map g).insert f (g x) := by
  apply AList.ext
  have hentries : (Table.map g (t.insert f x)).entries =
      (t.insert f x).entries.map fun e => (⟨e.1, g e.2⟩ : Sigma fun _ : String => β) := rfl
  rw [hentries, AList.entries_insert, AList.entries_insert, List.map_cons]
  exact congrArg _ (kerase_map t.entries).symm

/-- Values that `g` leaves alone. -/
theorem map_eq {g : α → α} (h : ∀ f x, t.lookup f = some x → g x = x) : t.map g = t := by
  apply AList.ext
  show t.entries.map _ = t.entries
  conv_rhs => rw [← List.map_id t.entries]
  apply List.map_congr_left
  intro e he
  rw [h e.1 e.2 (AList.mem_lookup_iff.mpr he)]
  rfl

end Table

end Lrcp.Wal
