import Lrcp.Store.Startup
import Lrcp.Wal.Complete

namespace Lrcp.Store

open Lrcp.Wal Lrcp.Otlp Lrcp.Framework

/-- The store without the record that is being written. -/
def World.settled (w : World) : World :=
  { w with
    walDir := Table.map complete w.walDir
    history := { w.history with unlinked := Table.map complete w.history.unlinked } }

/-- What lies before position `n` of a segment does not belong to a record that is being written. -/
def World.SettledTo (w : World) (f : String) (n : Nat) : Prop :=
  n ≤ (complete (w.content f)).length ∨ Whole (w.content f)

/-- The operation does not catch a record that is being written. -/
def Op.patient : {α : Type} → Op α → World → Prop
  | _, .statWal f, w => Whole (w.content f)
  | _, .readHeader f position, w => w.SettledTo f (position + headerSize)
  | _, .readPayload f position length, w => w.SettledTo f (position + length)
  | _, .commitMark f _, w => Whole (w.content f)
  | _, _, _ => True

/-- A segment is deleted, or none is. -/
def Erases (w w' : World) : Prop :=
  (w'.walDir = w.walDir ∧ w'.history.unlinked = w.history.unlinked) ∨
    ∃ f bytes, w.walDir.lookup f = some bytes ∧ w'.walDir = w.walDir.erase f ∧
      w'.history.unlinked = w.history.unlinked.insert f bytes

/-- The processes, none of which catches a record that is being written. -/
def patientService (libs : Libs) (settings : Thread → Settings) (app : Nat) (Stop : World → Prop) :
    System Op PyError Unit World Thread := (service libs settings app Op.spares Stop).guard Op.patient

section Settled

variable {libs : Libs} {settings : Settings} {w w' : World} {α : Type} {o : Op α}

theorem complete_nil : complete [] = [] := rfl

@[simp] theorem settled_control (w : World) : w.settled.control = w.control := rfl
@[simp] theorem settled_parquetDir (w : World) : w.settled.parquetDir = w.parquetDir := rfl
@[simp] theorem settled_exclusive (w : World) : w.settled.exclusive = w.exclusive := rfl
@[simp] theorem settled_rlock (w : World) : w.settled.rlock = w.rlock := rfl
@[simp] theorem settled_visible (w : World) : w.settled.visible = w.visible := rfl

theorem release_settled (w : World) (c : Conn) : w.settled.release c = (w.release c).settled := by
  unfold World.release
  rw [settled_exclusive]
  by_cases hc : w.exclusive = some c
  · rw [if_pos hc, if_pos hc]
    rfl
  · rw [if_neg hc, if_neg hc]

theorem lookup_settled (w : World) (f : String) :
    w.settled.walDir.lookup f = (w.walDir.lookup f).map complete := Table.lookup_map

theorem mem_settled {f : String} : f ∈ w.settled.walDir ↔ f ∈ w.walDir := Table.mem_map

theorem content_settled (f : String) : w.settled.content f = complete (w.content f) := by
  unfold World.content World.settled
  rw [Table.lookup_map]
  cases w.walDir.lookup f with
  | none => simp [complete_nil]
  | some bytes => rfl

theorem written_settled (f : String) : w.settled.written f = complete (w.written f) := by
  unfold World.written World.settled
  rw [Table.lookup_map, Table.lookup_map]
  cases w.walDir.lookup f with
  | none => cases w.history.unlinked.lookup f <;> simp [complete_nil]
  | some bytes => rfl

/-- What is read before the record that is being written. -/
theorem take_settled {f : String} {position n : Nat} (h : w.SettledTo f (position + n)) :
    ((w.settled.content f).drop position).take n = ((w.content f).drop position).take n := by
  rw [content_settled]
  rcases h with hle | hwhole
  · obtain ⟨rest, hrest⟩ := complete_prefix (w.content f)
    conv_rhs => rw [← hrest]
    rw [List.drop_append_of_le_length (by omega), List.take_append_of_le_length]
    rw [List.length_drop]
    omega
  · rw [hwhole.complete_eq]

/-- What a patient operation answers and does is the same without the unfinished record. -/
theorem exec_settled (h : o.patient w) : World.exec libs settings o w.settled =
    ((World.exec libs settings o w).1, (World.exec libs settings o w).2.settled) := by
  cases o with
  | statWal f =>
    simp only [World.exec, lookup_settled]
    cases hl : w.walDir.lookup f with
    | none => rfl
    | some bytes =>
      have hwhole : Whole bytes := by
        have hpatient : Whole (w.content f) := h
        rw [World.content, hl] at hpatient
        exact hpatient
      simp [hwhole.complete_eq]
  | openWal f =>
    simp only [World.exec, mem_settled]
    split_ifs <;> rfl
  | readHeader f position =>
    have hread := take_settled (n := headerSize) h
    simp only [World.exec, hread]
  | readPayload f position length =>
    have hread := take_settled (n := length) h
    simp only [World.exec, hread]
  | unlinkWal f =>
    simp only [World.exec, lookup_settled]
    cases hl : w.walDir.lookup f with
    | none => rfl
    | some bytes =>
      simp only [Option.map_some, World.settled, Table.map_erase, Table.map_insert]
  | globWal =>
    simp only [World.exec, World.settled, Table.keys_map]
  | commitMark f size =>
    have hwhole : Whole (w.content f) := h
    have hspans : World.hasUncommittedSpans libs settings w.settled f =
        World.hasUncommittedSpans libs settings w f := by
      unfold World.hasUncommittedSpans
      rw [content_settled, hwhole.complete_eq]
      rfl
    simp only [World.exec, hspans]
    rfl
  | lockAcquire t =>
    simp only [World.exec, settled_rlock]
    cases w.rlock t.process with
    | none => rfl
    | some held =>
      dsimp only
      split_ifs <;> rfl
  | lockRelease t =>
    simp only [World.exec, settled_rlock]
    cases w.rlock t.process with
    | none => rfl
    | some held =>
      dsimp only
      split_ifs <;> rfl
  | createLockTable c =>
    by_cases hc : w.lockedOut c = true
    · have hc' : w.settled.lockedOut c = true := hc
      simp only [World.exec, if_pos hc, if_pos hc']
    · have hc' : ¬w.settled.lockedOut c = true := hc
      simp only [World.exec, if_neg hc, if_neg hc']
  | beginExclusive c =>
    by_cases hc : w.lockedOut c = true
    · have hc' : w.settled.lockedOut c = true := hc
      simp only [World.exec, if_pos hc, if_pos hc']
    · have hc' : ¬w.settled.lockedOut c = true := hc
      simp only [World.exec, if_neg hc, if_neg hc']
      rfl
  | rollback c =>
    simp only [World.exec, release_settled, settled_exclusive]
    by_cases hc : w.exclusive = some c
    · rw [if_pos hc, if_pos hc]
    · rw [if_neg hc, if_neg hc]
  | close c => simp only [World.exec, release_settled]
  | writeBatch path rows | closeWriter path | replace path finalPath =>
    simp only [World.exec, settled_parquetDir]
    cases w.parquetDir.lookup path <;> rfl
  | iterBatches f =>
    simp only [World.exec, settled_parquetDir]
    cases w.parquetDir.lookup f with
    | none => rfl
    | some file =>
      dsimp only
      split_ifs <;> rfl
  | commitCompaction filename recordCount merged =>
    by_cases hmem : filename ∈ w.control.parquetFiles
    · have hmem' : filename ∈ w.settled.control.parquetFiles := hmem
      simp only [World.exec, if_pos hmem, if_pos hmem']
    · have hmem' : filename ∉ w.settled.control.parquetFiles := hmem
      simp only [World.exec, if_neg hmem, if_neg hmem']
      rfl
  | _ => rfl

theorem crash_settled (w : World) (t : Thread) : w.settled.crash t = (w.crash t).settled := by
  obtain ⟨w₁, hw₁, hcrash₁⟩ := w.crash_cases t
  obtain ⟨w₂, hw₂, hcrash₂⟩ := w.settled.crash_cases t
  have hsame : w₂ = w₁.settled := by
    rcases hw₁ with ⟨rfl, hnone⟩ | ⟨c, hex, hc, rfl⟩
    · rcases hw₂ with ⟨rfl, -⟩ | ⟨c, hex, hc, -⟩
      · rfl
      · exact absurd hc (hnone c hex)
    · rcases hw₂ with ⟨-, hnone⟩ | ⟨c', hex', -, rfl⟩
      · exact absurd hc (hnone c hex)
      · obtain rfl : c' = c := Option.some.inj (hex'.symm.trans hex)
        exact release_settled w c'
  subst hsame
  rcases hcrash₁ with ⟨heq, hnone⟩ | ⟨depth, hheld, heq⟩
  · rcases hcrash₂ with ⟨heq', -⟩ | ⟨depth, hheld, -⟩
    · rw [heq', heq]
    · exact absurd hheld (hnone depth)
  · rcases hcrash₂ with ⟨-, hnone⟩ | ⟨depth', -, heq'⟩
    · exact absurd hheld (hnone depth)
    · rw [heq', heq]
      rfl

/-- An operation of the backend deletes one segment, or none. -/
theorem exec_erases {r : Except PyError α} (h : World.exec libs settings o w = (r, w')) : Erases w w' := by
  have hw' : w' = (World.exec libs settings o w).2 := by rw [h]
  subst hw'
  cases o with
  | unlinkWal f =>
    simp only [World.exec]
    cases hl : w.walDir.lookup f with
    | none => exact .inl ⟨rfl, rfl⟩
    | some bytes => exact .inr ⟨f, bytes, hl, rfl, rfl⟩
  | lockAcquire t | lockRelease t =>
    simp only [World.exec]
    cases w.rlock t.process with
    | none => exact .inl ⟨rfl, rfl⟩
    | some held =>
      dsimp only
      split_ifs <;> exact .inl ⟨rfl, rfl⟩
  | createLockTable c | beginExclusive c | rollback c | close c =>
    simp only [World.exec, World.release]
    split_ifs <;> exact .inl ⟨rfl, rfl⟩
  | statWal f =>
    simp only [World.exec]
    cases w.walDir.lookup f <;> exact .inl ⟨rfl, rfl⟩
  | openWal f | commitCompaction f recordCount merged =>
    simp only [World.exec]
    split_ifs <;> exact .inl ⟨rfl, rfl⟩
  | writeBatch path rows | closeWriter path | replace path finalPath =>
    simp only [World.exec]
    cases w.parquetDir.lookup path <;> exact .inl ⟨rfl, rfl⟩
  | iterBatches f =>
    simp only [World.exec]
    cases w.parquetDir.lookup f with
    | none => exact .inl ⟨rfl, rfl⟩
    | some file =>
      dsimp only
      split_ifs <;> exact .inl ⟨rfl, rfl⟩
  | _ => exact .inl ⟨rfl, rfl⟩

theorem Erases.written (h : Erases w w') (f : String) : w'.written f = w.written f := by
  unfold World.written
  rcases h with ⟨hdir, hunlinked⟩ | ⟨g, bytes, hl, hdir, hunlinked⟩
  · rw [hdir, hunlinked]
  · rw [hdir, hunlinked]
    by_cases hf : f = g
    · subst hf
      rw [AList.lookup_erase, AList.lookup_insert, hl]
      rfl
    · rw [AList.lookup_erase_ne hf, AList.lookup_insert_ne hf]

theorem sealed_settled {f : String} : w.settled.Sealed f ↔ w.Sealed f := by
  simp only [World.Sealed, mem_settled]

/-- The segments that are there do not depend on the unfinished record. -/
theorem Erases.trims (h : Erases w w') (hs : Trims w.settled w'.settled) : Trims w w' where
  written := h.written
  segments f hf := mem_settled.mp (hs.segments f (mem_settled.mpr hf))
  deleted f hf hdel := sealed_settled.mp
    (hs.deleted f (mem_settled.mpr hf) fun hmem => hdel (mem_settled.mp hmem))
  unlinked f hf := by
    have hboth := hs.unlinked f (Table.mem_map.mpr hf)
    exact hboth.imp Table.mem_map.mp mem_settled.mp

theorem Trims.trans {w'' : World} (h : Trims w w') (h' : Trims w' w'') : Trims w w'' where
  written f := (h'.written f).trans (h.written f)
  segments f hf := h.segments f (h'.segments f hf)
  deleted f hf hdel := by
    by_cases hmem : f ∈ w'.walDir
    · obtain ⟨-, g, hg, hlt⟩ := h'.deleted f hmem hdel
      exact ⟨hf, g, h.segments g hg, hlt⟩
    · exact h.deleted f hf hmem
  unlinked f hf := by
    rcases h'.unlinked f hf with hmem | hmem
    · exact h.unlinked f hmem
    · exact .inr (h.segments f hmem)

theorem faulty_erases {r : Except PyError α} (h : (faulty libs settings).step o w r w') : Erases w w' := by
  rcases h with hexec | ⟨e, -, -, rfl⟩
  · exact exec_erases hexec
  · exact .inl ⟨rfl, rfl⟩

theorem crash_erases (w : World) (t : Thread) : Erases w (w.crash t) := by
  obtain ⟨w', hw', hcrash⟩ := w.crash_cases t
  have hfirst : w'.walDir = w.walDir ∧ w'.history.unlinked = w.history.unlinked := by
    rcases hw' with ⟨rfl, -⟩ | ⟨c, -, -, rfl⟩
    · exact ⟨rfl, rfl⟩
    · unfold World.release
      split_ifs <;> exact ⟨rfl, rfl⟩
  rcases hcrash with ⟨heq, -⟩ | ⟨depth, -, heq⟩
  · rw [heq]
    exact .inl hfirst
  · rw [heq]
    exact .inl hfirst

/-- A step that is allowed with the unfinished record is allowed without it. -/
theorem guarded_settled {Allowed : Guard} {r : Except PyError α}
    (hallowed : Allowed o w → Allowed o w.settled) (hpatient : o.patient w)
    (h : (guarded libs settings Allowed).step o w r w') :
    (guarded libs settings Allowed).step o w.settled r w'.settled := by
  obtain ⟨hok, hexec | ⟨e, hfault, rfl, rfl⟩⟩ := h
  · refine ⟨hallowed hok, .inl ?_⟩
    have hsettled := @exec_settled libs settings w α o hpatient
    rw [show World.exec libs settings o w = (r, w') from hexec] at hsettled
    exact hsettled
  · exact ⟨hallowed hok, .inr ⟨e, hfault, rfl, rfl⟩⟩

end Settled

section Service

variable {libs : Libs} {settings : Thread → Settings} {app : Nat} {Stop : World → Prop}
  {X Y : Pool Op PyError Unit World Thread}

/-- The processes do what they would do without the unfinished record. -/
theorem service_maps (hstop : ∀ w, Stop w → Stop w.settled) :
    System.Maps (patientService libs settings app Stop)
      (service libs settings app Op.spares Stop) World.settled where
  machine t {β} o w r w' h := by
    obtain ⟨hpatient, h⟩ := h
    simp only [service] at h ⊢
    split_ifs at h ⊢
    · exact guarded_settled (fun hok => by cases o <;> exact hok) hpatient h
    · refine guarded_settled (fun hok => ?_) hpatient h
      cases o with
      | rollback c => exact fun hex => hstop w (hok hex)
      | _ => exact hok
  start t p w h := h
  kill t w w' h := by
    obtain ⟨hkill, rfl⟩ := h
    exact ⟨fun c hex hc => hstop w (hkill c hex hc), (crash_settled w t).symm⟩

/-- Whatever the processes do, a step of them deletes one segment, or none. -/
theorem service_erases {Allowed : Guard}
    (h : (service libs settings app Allowed Stop).offline.Step X Y) : Erases X.state Y.state := by
  cases h with
  | start t ht hp => exact .inl ⟨rfl, rfl⟩
  | run t ht hp =>
    cases hp with
    | call hm =>
      simp only [System.offline, service] at hm
      split_ifs at hm
      · exact faulty_erases hm.2
      · exact faulty_erases hm.2
    | loop => exact .inl ⟨rfl, rfl⟩
  | finish t ht => exact .inl ⟨rfl, rfl⟩
  | kill t ht hs =>
    obtain ⟨-, rfl⟩ := hs
    exact crash_erases _ t
  | env hs => exact hs.elim

end Service

end Lrcp.Store
