import Lrcp.Gateway.Naming
import Lrcp.Gateway.Session
import Lrcp.Store.Settled

namespace Lrcp.Pipeline

open Lrcp.Framework Lrcp.Wal Lrcp.Gateway

/-- A segment is opened in the order of clock readings, under a name that has not been used. -/
def Opens (w : Store.World) (walDir : Table Bytes) (path : String) : Prop :=
  InOrder walDir path ∧ path ∉ walDir ∧ path ∉ w.history.unlinked

/-- The operations of the gateway on the data directory, with the counter of its process. None fails. -/
def gateway : Machine Op String (Store.World × Nat) where
  step o s r s' := ∃ d : Disk, Effect False (Opens s.1) o ⟨s.1.walDir, s.2⟩ r d ∧
    s' = ({ s.1 with walDir := d.walDir }, d.sequence)

/-- The segments hold the bodies stored, and behind those of `path` a part of one more record. -/
structure Segments (config : ServerConfig) (stored : List (String × Bytes)) (path : String) (part : Bytes)
    (w : Store.World) : Prop where
  named : ∀ f ∈ w.walDir, ∃ now sequence : Nat, f = segmentName now sequence
  written : ∀ f, w.written f = (bodiesOf stored f).flatMap encodeRecord ++ if f = path then part else []
  bounded : ∀ entry ∈ stored, entry.2.length ≤ config.maxBodyBytes ∧ entry.2.length < 2 ^ 32
  kept : ∀ entry ∈ stored, ∃ now sequence : Nat, entry.1 = segmentName now sequence

/-- The segment is there, and it is the last one. -/
def Active (path : String) (w : Store.World) : Prop :=
  path ∈ w.walDir ∧ ∀ f ∈ w.walDir, parseWalKey f ≤ parseWalKey path

/-- What the backend does beside the gateway. -/
def Trimmed (s s' : Store.World × Nat) : Prop := s'.2 = s.2 ∧ Store.Trims s.1 s'.1

/-- While a request is served: its body is not stored yet, a part of its record at most is written,
or it is stored. -/
inductive Storing (protobuf : Protobuf) (config : ServerConfig) (stored : List (String × Bytes))
    (request : HttpRequest) (w : Store.World) : Prop
  | before {path part} (torn : Torn part) (segments : Segments config stored path part w)
  | after {path} (passed : passesChecks protobuf config request = true)
      (segments : Segments config (stored ++ [(path, request.body)]) path [] w)

/-- What the gateway does while it serves a request: up to the record that is not finished, some
segment gets whole records. -/
def Writes (protobuf : Protobuf) (config : ServerConfig) (stored : List (String × Bytes))
    (request : HttpRequest) (s s' : Store.World × Nat) : Prop :=
  (s'.1 = s.1 ∨ Store.Extended s.1.settled s'.1.settled) ∧ Storing protobuf config stored request s'.1

/-- What holds between two requests. -/
structure Idle (config : ServerConfig) (stored : List (String × Bytes)) (writer : WalWriter)
    (w : Store.World) : Prop where
  segments : Segments config stored "" [] w
  active : writer.handle = true → Active writer.currentPath w

/-- A request has been served: its body is stored, or it is not answered with 200. -/
inductive Served (protobuf : Protobuf) (config : ServerConfig) (stored : List (String × Bytes))
    (request : HttpRequest) (w : Store.World) : SharedState × HttpResponse → Prop
  | refused {state response} (hresponse : (request.isExport && response.status = .ok) = false)
      (idle : Idle config stored state.walWriter w) : Served protobuf config stored request w (state, response)
  | stored {state response} (passed : passesChecks protobuf config request = true)
      (idle : Idle config (stored ++ [(state.walWriter.currentPath, request.body)]) state.walWriter w) :
      Served protobuf config stored request w (state, response)

section Segments

variable {config : ServerConfig} {protobuf : Protobuf} {stored : List (String × Bytes)} {path f : String}
  {part data body : Bytes} {request : HttpRequest} {w w' : Store.World}

theorem trimmed_refl (s : Store.World × Nat) : Trimmed s s := ⟨rfl, .refl _⟩

theorem trimmed_trans (s s' s'' : Store.World × Nat) (h : Trimmed s s') (h' : Trimmed s' s'') :
    Trimmed s s'' := ⟨h'.1.trans h.1, h.2.trans h'.2⟩

theorem Segments.trims (h : Segments config stored path part w) (ht : Store.Trims w w') :
    Segments config stored path part w' where
  named f hf := h.named f (ht.segments f hf)
  written f := (ht.written f).trans (h.written f)
  bounded := h.bounded
  kept := h.kept

/-- Where nothing is being written, the segment does not matter. -/
theorem Segments.idle (h : Segments config stored path [] w) (path' : String) :
    Segments config stored path' [] w where
  named := h.named
  written f := by
    have hwritten := h.written f
    rw [ite_self] at hwritten ⊢
    exact hwritten
  bounded := h.bounded
  kept := h.kept

theorem Active.trims (h : Active path w) (ht : Store.Trims w w') : Active path w' := by
  obtain ⟨hmem, hlast⟩ := h
  refine ⟨?_, fun f hf => hlast f (ht.segments f hf)⟩
  by_contra hdeleted
  obtain ⟨-, g, hg, hlt⟩ := ht.deleted path hmem hdeleted
  exact absurd hlt (not_lt_of_ge (hlast g hg))

theorem Storing.trims (h : Storing protobuf config stored request w) (ht : Store.Trims w w') :
    Storing protobuf config stored request w' := by
  cases h with
  | before torn segments => exact .before torn (segments.trims ht)
  | after passed segments => exact .after passed (segments.trims ht)

theorem Idle.trims {writer : WalWriter} (h : Idle config stored writer w) (ht : Store.Trims w w') :
    Idle config stored writer w' :=
  ⟨h.segments.trims ht, fun hhandle => (h.active hhandle).trims ht⟩

theorem Served.trims {answer : SharedState × HttpResponse} (h : Served protobuf config stored request w answer)
    (ht : Store.Trims w w') : Served protobuf config stored request w' answer := by
  cases h with
  | refused hresponse idle => exact .refused hresponse (idle.trims ht)
  | stored passed idle => exact .stored passed (idle.trims ht)

theorem Segments.bodies_bounded (h : Segments config stored path part w) (f : String) :
    ∀ body ∈ bodiesOf stored f, body.length < 2 ^ 32 :=
  fun body hbody => (h.bounded (f, body) (mem_bodiesOf.mp hbody)).2

/-- Without the record that is being written the segments hold the bodies stored. -/
theorem Segments.settled (h : Segments config stored path part w) (hpart : Torn part) (f : String) :
    w.settled.written f = (bodiesOf stored f).flatMap encodeRecord := by
  rw [Store.written_settled, h.written]
  split_ifs
  · exact complete_torn (h.bodies_bounded f) hpart
  · exact complete_torn (h.bodies_bounded f) torn_nil

/-- The record that is being written is finished. -/
theorem Segments.finish (h : Segments config stored path (encodeRecord body) w) (hactive : Active path w)
    (hbody : body.length ≤ config.maxBodyBytes ∧ body.length < 2 ^ 32) :
    Segments config (stored ++ [(path, body)]) path [] w where
  named := h.named
  written f := by
    rw [h.written, bodiesOf_append, List.flatMap_append]
    by_cases hf : f = path
    · subst hf
      simp
    · simp [hf, Ne.symm hf]
  bounded entry he := by
    rcases List.mem_append.mp he with he | he
    · exact h.bounded entry he
    · obtain rfl := List.mem_singleton.mp he
      exact hbody
  kept entry he := by
    rcases List.mem_append.mp he with he | he
    · exact h.kept entry he
    · obtain rfl := List.mem_singleton.mp he
      exact h.named path hactive.1

theorem Segments.storing (h : Segments config stored path part w) (hactive : Active path w)
    (hpart : part <+: encodeRecord request.body) (hpass : passesChecks protobuf config request = true)
    (hbody : request.body.length < 2 ^ 32) : Storing protobuf config stored request w := by
  by_cases hfinished : part = encodeRecord request.body
  · subst hfinished
    have hmax : request.body.length ≤ config.maxBodyBytes := by
      simp only [passesChecks, Bool.and_eq_true, decide_eq_true_eq] at hpass
      exact hpass.1.1.1.1
    exact .after hpass (h.finish hactive ⟨hmax, hbody⟩)
  · exact .before ⟨request.body, hbody, hpart, hfinished⟩ h

theorem settled_insert (path : String) (bytes : Bytes) :
    Store.World.settled { w with walDir := w.walDir.insert path bytes } =
      { w.settled with walDir := w.settled.walDir.insert path (complete bytes) } := by
  unfold Store.World.settled
  rw [Table.map_insert]

/-- A part of the record is written. -/
theorem Segments.write (h : Segments config stored path part w) (hactive : Active path w) (hne : data ≠ [])
    (hpart : part ++ data <+: encodeRecord body) (hbody : body.length < 2 ^ 32)
    (hw' : w' = { w with walDir := w.walDir.insert path (w.content path ++ data) }) :
    Segments config stored path (part ++ data) w' ∧ Active path w' ∧
      Store.Extended w.settled w'.settled := by
  subst hw'
  have hcontent : w.content path = (bodiesOf stored path).flatMap encodeRecord ++ part := by
    rw [← Store.written_of_mem hactive.1, h.written, if_pos rfl]
  have htorn : Torn part := by
    refine ⟨body, hbody, (List.prefix_append _ _).trans hpart, fun hfinished => hne ?_⟩
    have hlength := hpart.length_le
    rw [List.length_append, hfinished] at hlength
    exact List.eq_nil_of_length_eq_zero (by omega)
  have hcomplete := complete_started (h.bodies_bounded path) hbody hpart
  refine ⟨⟨fun f hf => ?_, fun f => ?_, h.bounded, h.kept⟩, ⟨(AList.mem_insert _).mpr (.inl rfl), fun f hf => ?_⟩,
    path, complete (w.content path ++ data), ⟨?_, ?_, ?_, ?_, fun _ => Store.mem_settled.mpr hactive.1⟩,
    settled_insert path _⟩
  · rcases (AList.mem_insert _).mp hf with rfl | hf
    · exact h.named _ hactive.1
    · exact h.named f hf
  · rw [Store.written_insert]
    by_cases hf : f = path
    · rw [if_pos hf, if_pos hf, hf, hcontent, List.append_assoc]
    · rw [if_neg hf, if_neg hf, h.written, if_neg hf]
  · rcases (AList.mem_insert _).mp hf with rfl | hf
    · exact le_rfl
    · exact hactive.2 f hf
  · rw [h.settled htorn, hcontent, List.append_assoc, hcomplete, List.flatMap_append]
    exact List.prefix_append _ _
  · exact ⟨_, h.bodies_bounded path, h.settled htorn path⟩
  · rw [hcontent, List.append_assoc, hcomplete]
    refine ⟨_, fun b hb => ?_, rfl⟩
    rcases List.mem_append.mp hb with hb | hb
    · exact h.bodies_bounded path b hb
    · split_ifs at hb
      · obtain rfl := List.mem_singleton.mp hb
        exact hbody
      · cases hb
  · intro hsealed
    obtain ⟨-, g, hg, hlt⟩ := Store.sealed_settled.mp hsealed
    exact absurd hlt (not_lt_of_ge (hactive.2 g hg))

theorem Opens.last (h : Opens w w.walDir path)
    (hnamed : ∀ f ∈ w.walDir, ∃ now sequence : Nat, f = segmentName now sequence) :
    (∃ now sequence : Nat, path = segmentName now sequence) ∧
      ∀ f ∈ w.walDir, parseWalKey f < parseWalKey path := by
  obtain ⟨horder, hunused, -⟩ := h
  have hnewest : Newest path (Disk.create ⟨w.walDir, 0⟩ path) := InOrder.newest horder
  obtain ⟨now, sequence, rfl, hnow, -⟩ := horder
  obtain ⟨n, rfl⟩ := Int.eq_ofNat_of_zero_le hnow
  refine ⟨⟨n, sequence, rfl⟩, fun f hf => ?_⟩
  obtain ⟨now', sequence', rfl⟩ := hnamed f hf
  have hle := hnewest.2 now' sequence' ((AList.mem_insert _).mpr (.inr hf))
  refine lt_of_le_of_ne hle fun hkey => hunused ?_
  rw [← parseWalKey_injective hkey]
  exact hf

theorem Opens.written (h : Opens w w.walDir path) : w.written path = [] := by
  obtain ⟨-, hunused, hunlinked⟩ := h
  rw [Store.World.written, AList.lookup_eq_none.mpr hunused, AList.lookup_eq_none.mpr hunlinked]
  rfl

/-- A segment is opened, and is the last one from then on. -/
theorem Segments.opened (h : Segments config stored "" [] w) (hopens : Opens w w.walDir path)
    (hw' : w' = { w with walDir := w.walDir.insert path [] }) :
    Segments config stored "" [] w' ∧ Active path w' ∧ Store.Extended w.settled w'.settled := by
  subst hw'
  obtain ⟨hname, hlast⟩ := hopens.last h.named
  have hwritten : w.settled.written path = [] := by
    rw [Store.written_settled, hopens.written, Store.complete_nil]
  refine ⟨⟨fun f hf => ?_, fun f => ?_, h.bounded, h.kept⟩, ⟨(AList.mem_insert _).mpr (.inl rfl), fun f hf => ?_⟩,
    path, [], ⟨?_, ?_, whole_nil, ?_, fun hmem => ?_⟩, settled_insert path []⟩
  · rcases (AList.mem_insert _).mp hf with rfl | hf
    · exact hname
    · exact h.named f hf
  · rw [Store.written_insert]
    by_cases hf : f = path
    · rw [if_pos hf, hf, ← h.written, hopens.written]
    · rw [if_neg hf, h.written]
  · rcases (AList.mem_insert _).mp hf with rfl | hf
    · exact le_rfl
    · exact (hlast f hf).le
  · rw [hwritten]
  · rw [hwritten]
    exact whole_nil
  · exact fun hsealed => hopens.2.1 (Store.sealed_settled.mp hsealed).1
  · exact absurd (Table.mem_map.mp hmem) hopens.2.2

end Segments

section Program

variable {config : ServerConfig} {protobuf : Protobuf} {stored : List (String × Bytes)} {path : String}
  {part data : Bytes} {request : HttpRequest}

theorem written_stable : Stable Trimmed fun s => Segments config stored path part s.1 ∧ Active path s.1 :=
  fun _ _ hs ht => ⟨hs.1.trims ht.2, hs.2.trims ht.2⟩

/-- `write_all` of the next part of the record. -/
theorem writeAll_beside (hpass : passesChecks protobuf config request = true)
    (hbody : request.body.length < 2 ^ 32) (hdata : part ++ data <+: encodeRecord request.body) :
    Triple gateway Trimmed (Writes protobuf config stored request)
      (fun s => Segments config stored path part s.1 ∧ Active path s.1) (writeAll path data)
      fun r s => r = .ok () ∧ Segments config stored path (part ++ data) s.1 ∧ Active path s.1 := by
  unfold writeAll
  apply Triple.pre (H := fun s : Store.World × Nat => ∃ front, front ++ data = part ++ data ∧
    Segments config stored path front s.1 ∧ Active path s.1) fun s hs => ⟨part, rfl, hs⟩
  apply Triple.repeatUntil (I := fun remaining (s : Store.World × Nat) => ∃ front, front ++ remaining = part ++ data ∧
    Segments config stored path front s.1 ∧ Active path s.1)
  intro remaining
  apply Triple.exists_pre
  intro front
  apply Triple.assume
  intro hfront
  by_cases hr : remaining = []
  · rw [if_pos hr]
    rw [hr, List.append_nil] at hfront
    apply Triple.ret
    intro s hs
    exact ⟨rfl, hfront ▸ hs⟩
  · rw [if_neg hr]
    apply Triple.bind (J := fun r (s : Store.World × Nat) => ∃ n, r = .ok n ∧
      Segments config stored path (front ++ remaining.take n) s.1 ∧ Active path s.1)
    · apply Triple.perform written_stable
      intro s r s' hs hstep
      obtain ⟨d, ⟨n, hpos, hle, rfl, rfl⟩ | ⟨hfaults, -⟩, rfl⟩ := hstep
      · have hnext : front ++ remaining.take n <+: encodeRecord request.body := by
          refine List.IsPrefix.trans ?_ (hfront ▸ hdata)
          exact (List.prefix_append_right_inj front).mpr (List.take_prefix n remaining)
        have hne : remaining.take n ≠ [] := by
          intro hnil
          rcases List.take_eq_nil_iff.mp hnil with hzero | hnil
          · omega
          · exact hr hnil
        obtain ⟨hsegments, hactive, hextended⟩ := hs.1.write hs.2 hne hnext hbody rfl
        exact ⟨⟨.inr hextended, hsegments.storing hactive hnext hpass hbody⟩, n, rfl, hsegments, hactive⟩
      · exact hfaults.elim
    · intro n
      apply Triple.ret
      intro s hs
      obtain ⟨m, hn, hs⟩ := hs
      obtain rfl := Except.ok.inj hn
      refine ⟨front ++ remaining.take n, ?_, hs⟩
      rw [List.append_assoc, List.take_append_drop, hfront]
    · intro e s hs
      obtain ⟨n, he, -⟩ := hs
      cases he

/-- The record is written from its header on, and is stored with its last byte. -/
theorem writeRecord_beside (hpass : passesChecks protobuf config request = true)
    (hbody : request.body.length < 2 ^ 32) :
    Triple gateway Trimmed (Writes protobuf config stored request)
      (fun s => Segments config stored path [] s.1 ∧ Active path s.1)
      (WalWriter.writeRecord path request.body)
      fun r s => r = .ok () ∧ Segments config stored path (encodeRecord request.body) s.1 ∧ Active path s.1 := by
  unfold WalWriter.writeRecord
  set header := writeLittleEndian (BitVec.ofNat 32 request.body.length) (crc32 request.body) with hheader
  have hencode : encodeRecord request.body = header ++ request.body := rfl
  have hfirst : [] ++ header <+: encodeRecord request.body := by
    rw [hencode]
    exact List.prefix_append _ _
  have hsecond : ([] ++ header) ++ request.body <+: encodeRecord request.body := by
    rw [hencode, List.nil_append]
  apply Triple.bind (writeAll_beside hpass hbody hfirst)
  · intro _
    apply Triple.bind ((writeAll_beside hpass hbody hsecond).pre fun s hs => hs.2)
    · intro _
      apply Triple.perform
      · intro s s' hs ht
        exact ⟨rfl, written_stable s s' hs.2 ht⟩
      · intro s r s' hs hstep
        obtain ⟨d, ⟨hr, rfl⟩, rfl⟩ := hstep
        obtain ⟨-, hsegments, hactive⟩ := hs
        rw [List.nil_append, ← hencode] at hsegments
        refine ⟨⟨.inl rfl, hsegments.storing hactive List.prefix_rfl hpass hbody⟩, ?_, hsegments, hactive⟩
        exact hr.resolve_right fun hfaults => hfaults.1
    · intro e s hs
      exact absurd hs.1 (by simp)
  · intro e s hs
    exact absurd hs.1 (by simp)

theorem idle_stable : Stable Trimmed fun s => Segments config stored path part s.1 :=
  fun _ _ hs ht => hs.trims ht.2

/-- A new segment, which is the last one. -/
theorem openNewSegment_beside {G : Store.World × Nat → Store.World × Nat → Prop} {writer : WalWriter}
    (hG : ∀ s s', (s'.1 = s.1 ∨ Store.Extended s.1.settled s'.1.settled) →
      Segments config stored "" [] s'.1 → G s s') :
    Triple gateway Trimmed G (fun s => Segments config stored "" [] s.1) writer.openNewSegment
      fun r s => ∃ writer', r = .ok (writer', .ok ()) ∧ Segments config stored "" [] s.1 ∧
        Active writer'.currentPath s.1 := by
  unfold WalWriter.openNewSegment
  apply Triple.bind (J := fun r (s : Store.World × Nat) => (∃ now, r = .ok now) ∧
    Segments config stored "" [] s.1)
  · apply Triple.perform idle_stable
    intro s r s' hs hstep
    obtain ⟨d, ⟨now, rfl, rfl⟩, rfl⟩ := hstep
    exact ⟨hG _ _ (.inl rfl) hs, ⟨now, rfl⟩, hs⟩
  · intro now
    apply Triple.bind (J := fun r (s : Store.World × Nat) => (∃ sequence, r = .ok sequence) ∧
      Segments config stored "" [] s.1)
    · apply Triple.perform
      · exact fun s s' hs ht => ⟨hs.1, hs.2.trims ht.2⟩
      · intro s r s' hs hstep
        obtain ⟨d, ⟨rfl, rfl⟩, rfl⟩ := hstep
        exact ⟨hG _ _ (.inl rfl) hs.2, ⟨_, rfl⟩, hs.2⟩
    · intro sequence
      apply Triple.tryThen (J := fun r (s : Store.World × Nat) => r = .ok () ∧
        Segments config stored "" [] s.1 ∧ Active (segmentName now sequence) s.1)
      · apply Triple.perform
        · exact fun s s' hs ht => ⟨hs.1, hs.2.trims ht.2⟩
        · intro s r s' hs hstep
          obtain ⟨d, ⟨hopens, rfl, rfl⟩ | ⟨hfaults, -⟩, rfl⟩ := hstep
          · have hempty : Disk.content ⟨s.1.walDir, s.2⟩ (segmentName now sequence) = [] :=
              Disk.content_of_unused hopens.2.1
            have hopened := hs.2.opened hopens rfl
            rw [Disk.create, hempty]
            obtain ⟨hsegments, hactive, hextended⟩ := hopened
            exact ⟨hG _ _ (.inr hextended) hsegments, rfl, hsegments, hactive⟩
          · exact hfaults.elim
      · intro r
        apply Triple.assume
        intro hr
        subst hr
        apply Triple.ret
        intro s hs
        exact ⟨_, rfl, hs⟩
    · intro e s hs
      obtain ⟨⟨sequence, he⟩, -⟩ := hs
      cases he
  · intro e s hs
    obtain ⟨⟨now, he⟩, -⟩ := hs
    cases he

/-- `append` of a body that has passed the checks. -/
theorem append_beside {writer : WalWriter} (hpass : passesChecks protobuf config request = true)
    (hbody : request.body.length < 2 ^ 32) :
    Triple gateway Trimmed (Writes protobuf config stored request)
      (fun s => Idle config stored writer s.1) (writer.append request.body)
      fun r s => ∃ writer', r = .ok (writer', .ok ()) ∧
        Idle config (stored ++ [(writer'.currentPath, request.body)]) writer' s.1 := by
  have hmax : request.body.length ≤ config.maxBodyBytes := by
    simp only [passesChecks, Bool.and_eq_true, decide_eq_true_eq] at hpass
    exact hpass.1.1.1.1
  unfold WalWriter.append
  rw [if_neg (by omega)]
  dsimp only
  apply Triple.bind (J := fun r (s : Store.World × Nat) => ∃ writer', r = .ok (writer', .ok ()) ∧
    Segments config stored "" [] s.1 ∧ Active writer'.currentPath s.1)
  · apply Triple.cond
    · intro _
      apply (openNewSegment_beside fun s s' hsame hsegments => ?_).pre fun s hs => hs.segments
      exact ⟨hsame, .before torn_nil hsegments⟩
    · intro hrotates
      have hhandle : writer.handle = true := by
        simp only [WalWriter.rotates, Bool.or_eq_true, not_or, Bool.not_eq_true, Bool.not_eq_false'] at hrotates
        exact hrotates.1
      apply Triple.ret
      intro s hs
      exact ⟨writer, rfl, hs.segments, hs.active hhandle⟩
  · intro opened
    apply Triple.exists_pre
    intro writer'
    apply Triple.assume
    intro hopened
    obtain rfl := Except.ok.inj hopened
    apply Triple.tryThen ((writeRecord_beside hpass hbody).pre fun s hs => ⟨hs.1.idle _, hs.2⟩)
    intro r
    apply Triple.assume
    intro hr
    subst hr
    apply Triple.ret
    intro s hs
    obtain ⟨hsegments, hactive⟩ := hs
    exact ⟨_, rfl, (hsegments.finish hactive ⟨hmax, hbody⟩).idle _, fun _ => hactive⟩
  · intro e s hs
    obtain ⟨writer', he, -⟩ := hs
    cases he

/-- An answer that leaves the segments as they are. -/
theorem refuse_beside {state state' : SharedState} {response : HttpResponse}
    (hwriter : state'.walWriter = state.walWriter)
    (hresponse : (request.isExport && response.status = .ok) = false) :
    Triple gateway Trimmed (Writes protobuf config stored request)
      (fun s => Idle config stored state.walWriter s.1) (.ret (state', response))
      fun r s => ∃ answer, r = .ok answer ∧ Served protobuf config stored request s.1 answer := by
  apply Triple.ret
  intro s hs
  exact ⟨_, rfl, .refused hresponse (hwriter ▸ hs)⟩

theorem handleRequest_beside {state : SharedState} (hbody : request.body.length ≤ config.maxBodyBytes) :
    Triple gateway Trimmed (Writes protobuf config stored request)
      (fun s => Idle config stored state.walWriter s.1) (handleRequest protobuf config state request)
      fun r s => ∃ answer, r = .ok answer ∧ Served protobuf config stored request s.1 answer := by
  unfold handleRequest
  have hchecked := @checkRequest_checked protobuf config request
  generalize checkRequest protobuf config request = result at hchecked
  cases hchecked with
  | healthy hexport hstatus hcounts => exact refuse_beside rfl (by simp [hexport])
  | rejected hpass hstatus hencoded hcounts => exact refuse_beside rfl (by simp [hstatus])
  | @passed exportRequest hpass hexport hparse =>
    by_cases h32 : request.body.length < 2 ^ 32
    · dsimp only
      apply Triple.bind (append_beside (hpass hbody) h32)
      · intro appended
        apply Triple.exists_pre
        intro writer'
        apply Triple.assume
        intro happended
        obtain rfl := Except.ok.inj happended
        apply Triple.ret
        intro s hs
        exact ⟨_, rfl, .stored (hpass hbody) hs⟩
      · intro e s hs
        obtain ⟨writer', he, -⟩ := hs
        cases he
    · dsimp only
      rw [append_tooLarge h32]
      exact refuse_beside rfl (by simp [conclude, errorResponse])

/-- A request, from the moment it has been read to its answer. -/
theorem onRead_beside {state : SharedState} :
    Triple gateway Trimmed (Writes protobuf config stored request)
      (fun s => Idle config stored state.walWriter s.1) (onRead protobuf config state request)
      fun r s => ∃ answer, r = .ok answer ∧ Served protobuf config stored request s.1 answer := by
  unfold onRead
  apply Triple.cond
  · intro _
    exact refuse_beside rfl (by simp [bodyTooLarge, errorResponse])
  · intro hsmall
    exact handleRequest_beside (by omega)

/-- The start of the gateway opens a segment. -/
theorem construct_beside :
    Triple gateway Trimmed
      (fun s s' => s'.1 = s.1 ∨ Store.Extended s.1.settled s'.1.settled)
      (fun s => Segments config stored "" [] s.1) (WalWriter.construct config.maxWalFileBytes)
      fun r s => ∃ writer, r = .ok writer ∧ Idle config stored writer s.1 := by
  unfold WalWriter.construct
  apply Triple.bind (openNewSegment_beside fun s s' hsame _ => hsame)
  · intro opened
    apply Triple.exists_pre
    intro writer
    apply Triple.assume
    intro hopened
    obtain rfl := Except.ok.inj hopened
    apply Triple.ret
    intro s hs
    exact ⟨writer, rfl, hs.1, fun _ => hs.2⟩
  · intro e s hs
    obtain ⟨writer, he, -⟩ := hs
    cases he

end Program

end Lrcp.Pipeline
