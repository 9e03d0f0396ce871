import Lrcp.Store.NoLoss
import Lrcp.Store.AutoCleanup
import Lrcp.Store.Schedule
import Lrcp.Wal.Whole

namespace Lrcp.Store

open Lrcp.Wal Lrcp.Otlp Lrcp.Framework

/-- The account for the segments that have an invalid record: every event stands at
the first one, and no record before it is lost, whatever becomes of the batch. -/
structure Custody (libs : Libs) (M : Nat) (C P : List Entry) (w : World) (p : Progress) : Prop where
  located : ∀ event ∈ w.control.walCorruptionEvents,
    FirstInvalid M (w.written event.sourceFile) event.offset
  covered : ∀ f q r, FirstInvalid M (w.written f) q → HasRecord M (w.written f) r →
    rows libs r.payload f r.start = .ok [] ∨ (f, r) ∈ C ++ P ∨
      (w.position p.batch f ≤ r.start ∧ f ∉ w.quarantined)
  pending : ∀ e ∈ P, rowsOf libs e ≠ [] → ∀ q, FirstInvalid M (w.written e.1) q →
    w.maxOffset e.1 ≤ e.2.start ∧ e.1 ∉ w.quarantined

namespace Custody

variable {libs : Libs} {settings : Settings} {M : Nat} {C P : List Entry} {w w' : World} {p : Progress}
  {o : Origin} {f name : String} {r : WalRecord}

theorem quiet (h : Custody libs M C P w p) (hq : Quiet w w') : Custody libs M C P w' p where
  located event he := by
    rw [hq.events] at he
    rw [hq.written]
    exact h.located event he
  covered g q r' hg hr := by
    rw [hq.written] at hg hr
    rw [hq.position, hq.quarantined]
    exact h.covered g q r' hg hr
  pending e he hne q hq' := by
    rw [hq.written] at hq'
    rw [hq.maxOffset, hq.quarantined]
    exact h.pending e he hne q hq'

theorem read (h : Custody libs M C P w p) (L : Ledger libs M C P w p) {rs : List Row}
    (hf : f ∈ w.walDir) (hstart : r.start = w.position p.batch f) (hrec : IsRecord M (w.content f) r) :
    Custody libs M C (P ++ [(f, r)]) w { p with batch := p.batch.add f r rs } := by
  have hhas : HasRecord M (w.written f) r := by
    refine ⟨?_, by rw [written_of_mem hf]; exact hrec⟩
    rw [hstart]
    exact L.reached f
  refine ⟨h.located, fun g q r' hg hr => ?_, fun e he hne q hq => ?_⟩
  · rw [← List.append_assoc]
    rcases h.covered g q r' hg hr with hnil | hmem | ⟨hle, hnot⟩
    · exact .inl hnil
    · exact .inr (.inl (List.mem_append_left _ hmem))
    · by_cases hgf : g = f
      · subst hgf
        rcases hhas.eq_or_stop_le hr (hstart.trans_le hle) with rfl | hstop
        · exact .inr (.inl (by simp))
        · refine .inr (.inr ⟨?_, hnot⟩)
          rw [position_add, if_pos rfl]
          exact hstop
      · refine .inr (.inr ⟨?_, hnot⟩)
        rw [position_add, if_neg hgf]
        exact hle
  · rcases List.mem_append.mp he with he | he
    · exact h.pending e he hne q hq
    · obtain rfl := List.mem_singleton.mp he
      rcases h.covered f q r hq hhas with hnil | hmem | ⟨-, hnot⟩
      · exact absurd (rowsOf_ok hnil) hne
      · have hnew := L.not_mem_of_le (Nat.le_of_eq hstart.symm)
        exact absurd (List.mem_map.mpr ⟨(f, r), hmem, rfl⟩) hnew
      · refine ⟨?_, hnot⟩
        rw [hstart]
        exact L.maxOffset_le_position f

theorem flush (h : Custody libs M C P w p) (L : Ledger libs M C P w p) (n total : Nat)
    (entries : List (String × Nat × String)) :
    Custody libs M (C ++ P) [] (w.exec libs settings
      (.commitBatch name n entries p.batch.offsets)).2 ⟨{}, total⟩ := by
  refine ⟨h.located, fun g q r' hg hr => ?_, fun e he => by cases he⟩
  rw [position_commitBatch L.ahead, List.append_nil]
  exact h.covered g q r' hg hr

/-- A segment that is marked has no invalid record. -/
theorem mark (h : Custody libs M C P w p) (L : Ledger libs M C P w p) (hf : f ∈ w.walDir)
    (hpos : w.position p.batch f = (w.content f).length) :
    Custody libs M C P (w.exec libs settings (.commitMark f (w.content f).length)).2 p := by
  refine ⟨h.located, fun g q r' hg hr => ?_, fun e he hne q hq => ?_⟩
  · rw [position_commitMark hpos]
    exact h.covered g q r' hg hr
  · have hef : e.1 ≠ f := by
      rintro rfl
      have hclean := L.reached e.1
      rw [hpos, ← written_of_mem hf] at hclean
      exact hq.not_clean hclean
    rw [maxOffset_commitMark, if_neg fun hh => hef hh.1]
    exact h.pending e he hne q hq

theorem quarantine (h : Custody libs M C P w p) (L : Ledger libs M C P w p) (hnil : p.batch.rows = [])
    (hwritten : ∀ f, w.written f = o.written f) {e : WalCorruptionError} (hbad : Unreadable M o f e)
    (hoffset : e.offset = w.position p.batch f) (size : Nat) :
    Custody libs M C P (w.exec libs settings (.commitQuarantine f e.offset e.message size)).2 p := by
  have hq : (w.exec libs settings (.commitQuarantine f e.offset e.message size)).2.quarantined =
      w.quarantined ++ [f] := by
    simp [World.exec, World.quarantined, ControlStore.commitQuarantine]
  refine ⟨fun event he => ?_, fun g q r' hg hr => ?_, fun e' he hne => ?_⟩
  · rcases List.mem_append.mp he with he | he
    · exact h.located event he
    · obtain rfl := List.mem_singleton.mp he
      change FirstInvalid M (w.written f) e.offset
      rw [hwritten]
      exact firstInvalid_of_error hbad.1 hbad.2
  · rcases h.covered g q r' hg hr with hempty | hmem | ⟨hle, hnot⟩
    · exact .inl hempty
    · exact .inr (.inl hmem)
    · refine .inr (.inr ⟨hle, ?_⟩)
      rw [hq]
      intro hmem
      rcases List.mem_append.mp hmem with hmem | hmem
      · exact hnot hmem
      · obtain rfl := List.mem_singleton.mp hmem
        replace hr : HasRecord M (w.written g) r' := hr
        have hend : ∀ r, r.start = w.position p.batch g → ¬IsRecord M (w.written g) r := by
          intro r hstart
          rw [hwritten]
          exact hbad.not_record (hstart.trans hoffset.symm)
        have hstop := hr.stop_le_end (L.reached g) hend
        have hlt := hr.2.start_lt_stop
        omega
  · rw [L.batch] at hnil
    exact absurd (List.flatMap_eq_nil_iff.mp hnil e' he) hne

theorem compact (h : Custody libs M C P w p) (n : Nat) (merged : List String) :
    Custody libs M C P (w.exec libs settings (.commitCompaction name n merged)).2 p := by
  simp only [World.exec]
  split_ifs
  · exact h
  · exact ⟨h.located, h.covered, h.pending⟩

theorem delete (h : Custody libs M C P w p) : Custody libs M C P (w.exec libs settings (.unlinkWal f)).2 p := by
  have hwritten : ∀ g, (w.exec libs settings (.unlinkWal f)).2.written g = w.written g :=
    fun _ => written_unlinkWal
  have hcontrol : (w.exec libs settings (.unlinkWal f)).2.control = w.control := by
    cases hl : w.walDir.lookup f with
    | none => simp only [World.exec, hl]
    | some bytes => simp only [World.exec, hl]
  refine ⟨fun event he => ?_, fun g q r' hg hr => ?_, fun e he hne q hq => ?_⟩
  · rw [hwritten]
    rw [hcontrol] at he
    exact h.located event he
  · rw [hwritten] at hg hr
    rw [World.position, World.maxOffset, World.quarantined, hcontrol]
    exact h.covered g q r' hg hr
  · rw [hwritten] at hq
    rw [World.maxOffset, World.quarantined, hcontrol]
    exact h.pending e he hne q hq

/-- The batch is dropped: its records can be read again. -/
theorem drop (h : Custody libs M C P w p) (L : Ledger libs M C P w p) : Custody libs M C [] w {} := by
  refine ⟨h.located, fun g q r' hg hr => ?_, fun e he => by cases he⟩
  rw [List.append_nil]
  rcases h.covered g q r' hg hr with hnil | hmem | ⟨hle, hnot⟩
  · exact .inl hnil
  · rcases List.mem_append.mp hmem with hmem | hmem
    · exact .inr (.inl hmem)
    · by_cases hrows : rowsOf libs (g, r') = []
      · have hparsed := L.parsed (g, r') (List.mem_append_right C hmem)
        rw [hrows] at hparsed
        exact .inl hparsed
      · exact .inr (.inr (h.pending (g, r') hmem hrows q hg))
  · exact .inr (.inr ⟨(L.maxOffset_le_position g).trans hle, hnot⟩)

theorem relocked (h : Custody libs M C P w p) (hr : Relocked w w') : Custody libs M C P w' p := by
  obtain ⟨e, n, l, renamed, rfl⟩ := hr
  exact ⟨h.located, h.covered, h.pending⟩

theorem bookkeeping : Bookkeeping libs settings Unguarded o (Custody libs settings.maxWalRecordBytes) where
  quiet h hq := h.quiet hq
  read h L hf _ _ hstart hrec _ := h.read L hf hstart hrec
  flush h L _ _ _ _ := h.flush L _ _ _
  mark h L hsealed hpos := h.mark L hsealed.1 hpos
  quarantine size h L hnil hwritten hbad hoffset := h.quarantine L hnil hwritten hbad hoffset size
  compact n h _ _ _ := h.compact n _
  delete h _ _ _ _ := h.delete

end Custody

/-- No segment has two events, and every segment that has one is `QUARANTINED`. The
segments are those of `d`. -/
structure Logged (d : Table Bytes) (w : World) : Prop where
  walDir : w.walDir = d
  once : w.quarantined.Nodup
  status : ∀ f ∈ w.quarantined, ∃ size, w.control.walFileLifecycle.lookup f = some ⟨.quarantined, size⟩

/-- Under the lock, with the events of `reported`. -/
def Reported (c : Conn) (d : Table Bytes) (reported : List String) (w : World) : Prop :=
  (Occupied c d w ∧ Logged d w) ∧ w.quarantined = reported

section Logged

variable {libs : Libs} {settings : Settings} {t : Thread} {c : Conn} {d : Table Bytes} {w w' : World}
  {loaded : Loaded} {reported rest : List String} {f : String} {p : Progress} {α : Type}

theorem Logged.relocked (h : Relocked w w') (hw : Logged d w) : Logged d w' := by
  obtain ⟨e, n, l, renamed, rfl⟩ := h
  exact ⟨hw.walDir, hw.once, hw.status⟩

theorem plain_triple {p : Call α} (hp : Only Op.plain p) :
    Triple (regular libs settings) Eq (fun _ w' => Logged d w') (Reported c d reported) p
      fun _ => Reported c d reported := by
  apply hp.triple stable_eq
  intro β o w r w' ho hw hexec
  obtain ⟨⟨hocc, hlog⟩, hreported⟩ := hw
  obtain ⟨hex, hconn, hdir⟩ := ho.segmentwise.internal.exec hexec
  obtain ⟨hevents, hlifecycle⟩ := ho.exec hexec
  have hquarantined : w'.quarantined = w.quarantined := by
    rw [World.quarantined, hevents, World.quarantined]
  have hlog' : Logged d w' := by
    refine ⟨hdir.trans hlog.walDir, ?_, ?_⟩
    · rw [hquarantined]
      exact hlog.once
    · rw [hquarantined, hlifecycle]
      exact hlog.status
  refine ⟨hlog', ⟨⟨hex.trans hocc.exclusive, ?_, hlog'.walDir⟩, hlog'⟩, hquarantined.trans hreported⟩
  rw [hconn]
  exact hocc.serial

/-- One segment: it is passed over when it has an event. -/
theorem materializeFile_reported (hnew : f ∈ reported → f ∈ loaded.quarantined) :
    Triple (regular libs settings) Eq (fun _ w' => Logged d w') (Reported c d reported)
      (materializeFile libs settings loaded p f)
      fun r w => match r with
        | .ok _ => Reported c d reported w ∨ Reported c d (reported ++ [f]) w
        | .error _ => Occupied c d w ∧ Logged d w := by
  unfold materializeFile
  apply Triple.cond
  · exact fun _ => Triple.ret fun w hw => .inl hw
  intro hf
  apply Triple.bind (plain_triple (Only.perform (by trivial))) _ fun e w hw => hw.1
  intro size
  apply Triple.cond
  · exact fun _ => Triple.ret fun w hw => .inl hw
  intro _
  apply Triple.cond
  · exact fun _ => Triple.ret fun w hw => .inl hw
  intro _
  apply Triple.bind (plain_triple (plain_tryWalFile _ f _ p)) _ fun e w hw => hw.1
  intro left
  obtain ⟨p', result⟩ := left
  cases result with
  | ok u => exact Triple.ret fun w hw => .inl hw
  | error e =>
    apply Triple.cond _ fun _ => Triple.raise fun w hw => hw.1
    intro _
    unfold Store.quarantine
    apply Triple.bind (plain_triple (Only.cond (.ret _) (plain_flush _))) _ fun e w hw => hw.1
    intro p''
    apply Triple.bind (J := fun _ => Reported c d (reported ++ [f]))
    · apply Triple.perform stable_eq
      intro w r w' hw hexec
      obtain ⟨⟨hocc, hlog⟩, rfl⟩ := hw
      obtain ⟨-, rfl⟩ := Prod.mk.inj hexec
      have hquarantined : World.quarantined { w with
          control := w.control.commitQuarantine f
            (corruptOffset e (p'.batch.offset f (loaded.startOffset f))) e.message size } =
          w.quarantined ++ [f] := by
        simp [World.quarantined, ControlStore.commitQuarantine]
      have hlog' : Logged d { w with
          control := w.control.commitQuarantine f
            (corruptOffset e (p'.batch.offset f (loaded.startOffset f))) e.message size } := by
        refine ⟨hlog.walDir, ?_, fun g hg => ?_⟩
        · rw [hquarantined]
          exact List.nodup_append.mpr ⟨hlog.once, List.nodup_singleton f, fun g hg g' hg' => by
            obtain rfl := List.mem_singleton.mp hg'
            rintro rfl
            exact hf (hnew hg)⟩
        · by_cases hgf : g = f
          · subst hgf
            exact ⟨size, AList.lookup_insert _⟩
          · rw [hquarantined] at hg
            obtain ⟨size', hl⟩ := hlog.status g (by simpa [hgf] using hg)
            exact ⟨size', (AList.lookup_insert_ne hgf).trans hl⟩
      exact ⟨hlog', ⟨⟨hocc.exclusive, hocc.serial, hocc.walDir⟩, hlog'⟩, hquarantined⟩
    · exact fun _ => Triple.ret fun w hw => .inr hw
    · exact fun e w hw => hw.1

/-- `materialize` under the lock: a segment gets an event only when it had none. -/
theorem materializeSegments_logged :
    Triple (regular libs settings) Eq (fun _ w' => Logged d w') (fun w => Occupied c d w ∧ Logged d w)
      (materializeSegments libs settings) fun _ w => Occupied c d w ∧ Logged d w := by
  apply Triple.pre (H := fun w => ∃ reported, Reported c d reported w)
  · exact fun w hw => ⟨w.quarantined, hw, rfl⟩
  apply Triple.exists_pre
  intro reported
  unfold materializeSegments
  apply Triple.bind (plain_triple (Only.perform (by trivial))) _ fun e w hw => hw.1
  intro _
  apply Triple.bind (plain_triple (Only.perform (by trivial))) _ fun e w hw => hw.1
  intro _
  apply Triple.bind (plain_triple plain_cleanupOrphaned) _ fun e w hw => hw.1
  intro _
  apply Triple.bind (plain_triple (Only.perform (by trivial))) _ fun e w hw => hw.1
  intro offsets
  apply Triple.bind (J := fun r w => r = .ok reported ∧ Reported c d reported w)
  · unfold loadQuarantined
    apply Triple.tryThen (J := fun r w => r = .ok reported ∧ Reported c d reported w)
    · apply Triple.perform stable_eq
      intro w r w' hw hexec
      obtain ⟨rfl, rfl⟩ := Prod.mk.inj hexec
      exact ⟨hw.1.2, by rw [hw.2], hw⟩
    · intro result
      apply Triple.assume
      rintro rfl
      exact Triple.ret fun w hw => ⟨rfl, hw⟩
  swap
  · exact fun e w hw => hw.2.1
  intro quarantined
  apply Triple.assume
  intro hquarantined
  obtain rfl := Except.ok.inj hquarantined
  apply Triple.bind (J := fun r w => (∀ names, r = .ok names → names.Nodup) ∧ Reported c d quarantined w)
  · apply Triple.perform stable_eq
    intro w r w' hw hexec
    obtain ⟨rfl, rfl⟩ := Prod.mk.inj hexec
    refine ⟨hw.1.2, fun names hnames => ?_, hw⟩
    rw [← Except.ok.inj hnames]
    exact w.walDir.nodupKeys.filter _
  swap
  · exact fun e w hw => hw.2.1
  intro names
  apply Triple.assume
  intro hnames
  dsimp only
  cases hactive : (sortSegments names).getLast? with
  | none => exact Triple.ret fun w hw => hw.1
  | some active =>
    apply Triple.bind (J := fun _ w => Occupied c d w ∧ Logged d w)
    · apply (Triple.forEach (I := fun rest _ w => rest.Nodup ∧ ∃ reported,
        (∀ f ∈ rest, f ∈ reported → f ∈ quarantined) ∧ Reported c d reported w) ?_ ?_).pre
      · exact fun w hw => ⟨nodup_sortSegments (hnames names rfl), quarantined, fun _ _ h => h, hw⟩
      · intro f rest p
        apply Triple.assume
        intro hnodup
        apply Triple.exists_pre
        intro reported
        apply Triple.assume
        intro hnew
        obtain ⟨hf, hrest⟩ := List.nodup_cons.mp hnodup
        have hfirst : f ∈ reported → f ∈ Loaded.quarantined ⟨offsets, quarantined, active⟩ :=
          hnew f List.mem_cons_self
        apply (materializeFile_reported hfirst).post
        intro r w hw
        have hnew' : ∀ g ∈ rest, g ∈ reported → g ∈ quarantined :=
          fun g hg => hnew g (List.mem_cons_of_mem f hg)
        cases r with
        | error e => exact hw
        | ok p' =>
          rcases hw with hw | hw
          · exact ⟨hrest, reported, hnew', hw⟩
          · refine ⟨hrest, reported ++ [f], fun g hg hmem => ?_, hw⟩
            rcases List.mem_append.mp hmem with hmem | hmem
            · exact hnew' g hg hmem
            · obtain rfl := List.mem_singleton.mp hmem
              exact absurd hg hf
      · intro p w hw
        obtain ⟨-, reported, -, hw⟩ := hw
        exact hw.1
    swap
    · exact fun e w hw => hw
    intro p
    apply Triple.pre (H := fun w => ∃ reported, Reported c d reported w)
    · exact fun w hw => ⟨w.quarantined, hw, rfl⟩
    apply Triple.exists_pre
    intro reported
    apply Triple.bind (plain_triple (Only.cond (.ret _) (plain_flush _))) _ fun e w hw => hw.1
    exact fun p' => Triple.ret fun w hw => hw.1

theorem materialize_logged {q : Call Nat} (hw : Logged d w)
    (hr : Prog.Runs (regular libs settings) (materialize libs settings t, w) (q, w')) : Logged d w' := by
  have htriple := materialize_outcome (F := Logged d) (N := True) (t := t)
    (fun w w' h => Logged.relocked h) fun c =>
      (@materializeSegments_logged libs settings c d).post fun r w hw => ⟨hw, fun _ => trivial⟩
  exact (htriple.runs (I := Logged d) ⟨hw.walDir, hw⟩ hw hr).1

end Logged

/-- Runs of `materialize`, one after the other, over segments that do not change. Each
returns, or it stops at any operation, by an exception or because its process is killed. -/
inductive Repeated (libs : Libs) (M : Nat) (d : Table Bytes) : World → Prop
  | start {w} (h : Initial libs w) (hd : w.walDir = d) : Repeated libs M d w
  | returned {w w' t settings total} (h : Repeated libs M d w) (hM : settings.maxWalRecordBytes = M)
      (hsize : 0 < settings.materializeBatchSize)
      (hr : Prog.Runs (regular libs settings) (materialize libs settings t, w) (.ret total, w')) :
      Repeated libs M d w'
  | stopped {w w' t settings} {q : Call Nat} (h : Repeated libs M d w)
      (hM : settings.maxWalRecordBytes = M) (hsize : 0 < settings.materializeBatchSize)
      (hr : Prog.Runs (regular libs settings) (materialize libs settings t, w) (q, w')) :
      Repeated libs M d (w'.crash t)

/-- No segment has two events, and every event stands at the first invalid record of
its segment. -/
structure Exact (M : Nat) (d : Table Bytes) (w : World) : Prop where
  once : w.quarantined.Nodup
  located : ∀ event ∈ w.control.walCorruptionEvents, event.sourceFile ∈ d ∧
    FirstInvalid M (bytesOf d event.sourceFile) event.offset

/-- Every segment that has an invalid record has its event and is `QUARANTINED`, and
what stands before that record is committed. -/
def Isolated (libs : Libs) (M : Nat) (d : Table Bytes) (w : World) : Prop :=
  ∀ f ∈ d, hasSuffix ".wal" f = true → ∀ q, FirstInvalid M (bytesOf d f) q →
    (∃ event ∈ w.control.walCorruptionEvents, event.sourceFile = f ∧ event.offset = q) ∧
    (∃ size, w.control.walFileLifecycle.lookup f = some ⟨.quarantined, size⟩) ∧
    ∀ r, HasRecord M (bytesOf d f) r → Committed libs w f r

/-- What holds between the runs. -/
structure Repeating (libs : Libs) (M : Nat) (d : Table Bytes) (C : List Entry) (w : World) : Prop where
  fresh : Fresh libs w
  unlocked : w.exclusive = none
  written : ∀ f, w.written f = bytesOf d f
  ledger : Ledger libs M C [] w {}
  custody : Custody libs M C [] w {}
  logged : Logged d w

section Repeated

variable {libs : Libs} {settings : Settings} {M : Nat} {d : Table Bytes} {t : Thread} {C P : List Entry}
  {w w' : World} {p : Progress}

theorem Initial.repeating (h : Initial libs w) : Repeating libs M w.walDir [] w := by
  refine ⟨h.fresh, h.exclusive, fun f => ?_, h.ledger, ?_, rfl, ?_, ?_⟩
  · rw [World.written, h.history, bytesOf]
    cases w.walDir.lookup f <;> rfl
  · refine ⟨fun event he => ?_, fun f q r _ _ => .inr (.inr ⟨?_, ?_⟩), fun e he => by cases he⟩
    · rw [h.control] at he
      cases he
    · change w.maxOffset f ≤ r.start
      rw [h.maxOffset]
      exact Nat.zero_le _
    · rw [h.quarantined]
      simp
  · rw [h.quarantined]
    exact List.nodup_nil
  · intro f hf
    rw [h.quarantined] at hf
    cases hf

theorem Custody.exact (h : Custody libs M C P w p) (hlogged : Logged d w)
    (hwritten : ∀ f, w.written f = bytesOf d f) : Exact M d w := by
  refine ⟨hlogged.once, fun event he => ?_⟩
  have hfirst := h.located event he
  rw [hwritten] at hfirst
  refine ⟨?_, hfirst⟩
  by_contra hnot
  have hmore := hfirst.more
  rw [bytesOf, AList.lookup_eq_none.mpr hnot] at hmore
  cases hmore

/-- When every segment is quarantined or has been read to its end. -/
theorem Custody.isolated (h : Custody libs M C P w p) (L : Ledger libs M C P w p) (hlogged : Logged d w)
    (hwritten : ∀ f, w.written f = bytesOf d f) {total : Nat} (hdone : Materialized d total w p) :
    Isolated libs M d w := by
  intro f _ hwal q hq
  have hfirst := hq
  rw [← hwritten] at hfirst
  have hmem : f ∈ w.quarantined := by
    rcases hdone.finished f hwal with hmem | hend
    · exact hmem
    · have hle := hfirst.le (L.reached f)
      have hmore := hq.more
      rw [bytesOf] at hmore
      omega
  refine ⟨?_, hlogged.status f hmem, fun r hr => ?_⟩
  · obtain ⟨event, he, rfl⟩ := List.mem_map.mp hmem
    exact ⟨event, he, rfl, (h.located event he).unique hfirst⟩
  · rw [← hwritten] at hr
    rcases h.covered f q r hfirst hr with hnil | hrec | ⟨-, hnot⟩
    · exact ⟨[], hnil, List.nil_subperm⟩
    · rcases List.mem_append.mp hrec with hrec | hrec
      · exact L.committed hrec
      · have hnil := hdone.empty
        rw [L.batch, List.flatMap_eq_nil_iff] at hnil
        have hparsed := L.parsed (f, r) (List.mem_append_right C hrec)
        rw [hnil (f, r) hrec] at hparsed
        exact ⟨[], hparsed, List.nil_subperm⟩
    · exact absurd hmem hnot

/-- A run that starts between two others: what can be said when it has got to `w'`. -/
theorem Repeating.run (h : Repeating libs settings.maxWalRecordBytes d C w) (hlibs : FreshNames libs)
    (hsize : 0 < settings.materializeBatchSize) {q : Call Nat}
    (hr : Prog.Runs (regular libs settings) (materialize libs settings t, w) (q, w')) :
    Exact settings.maxWalRecordBytes d w' ∧
      (∃ C', Repeating libs settings.maxWalRecordBytes d C' (w'.crash t)) ∧
      ∀ total, q = .ret total → Isolated libs settings.maxWalRecordBytes d w' ∧
        ∃ C', Repeating libs settings.maxWalRecordBytes d C' w' := by
  have hlogged := materialize_logged h.logged hr
  have hrelocked : ∀ w₁ w₂ p, Relocked w₁ w₂ →
      Booked libs settings.maxWalRecordBytes ⟨w.written, C⟩ (Custody libs settings.maxWalRecordBytes) w₁ p →
      Booked libs settings.maxWalRecordBytes ⟨w.written, C⟩ (Custody libs settings.maxWalRecordBytes) w₂ p :=
    fun _ _ _ hlocks hI => hlocks.booked (fun _ _ hX => hX.relocked hlocks) hI
  have htriple := (amid_encloses (t := t) hrelocked).materialize_triple (d := d)
    (fun c hc => hc ▸ booked_discipline Custody.bookkeeping) hlibs hsize
  have hstart : Booked libs settings.maxWalRecordBytes ⟨w.written, C⟩
      (Custody libs settings.maxWalRecordBytes) w {} :=
    ⟨fun _ => rfl, C, [], List.prefix_rfl, rfl, h.ledger, h.custody⟩
  have hr' : Prog.Runs (guarded libs settings Unguarded) (materialize libs settings t, w) (q, w') :=
    (regular_faulty hr).mono (N := guarded libs settings Unguarded) fun _ _ _ _ hm => ⟨trivial, hm⟩
  obtain ⟨⟨hfresh, hown, p, hwritten, C', P, -, -, L, hX⟩, hend⟩ :=
    Amid.runs htriple ⟨h.fresh, h.unlocked, h.logged.walDir, hstart⟩ hr'
  have hbytes : ∀ f, w'.written f = bytesOf d f := fun f => (hwritten f).trans (h.written f)
  refine ⟨hX.exact hlogged hbytes, ⟨C', ?_⟩, fun total hq => ?_⟩
  · have hlocks := relocked_crash w' t
    refine ⟨hlocks.fresh hfresh, crash_exclusive hown, fun f => ?_, hlocks.ledger L.drop,
      (hX.drop L).relocked hlocks, hlogged.relocked hlocks⟩
    rw [← hbytes]
    obtain ⟨e, n, l, renamed, heq⟩ := hlocks
    rw [heq]
    rfl
  · obtain ⟨-, hnone, p', ⟨hwritten', C'', P', -, -, L', hX'⟩, hdone⟩ := hend (.ok total) hq
    have hbytes' : ∀ f, w'.written f = bytesOf d f := fun f => (hwritten' f).trans (h.written f)
    exact ⟨hX'.isolated L' hlogged hbytes' (hdone total rfl),
      C'', hfresh, hnone, hbytes', L'.drop, hX'.drop L', hlogged⟩

theorem Repeated.repeating (h : Repeated libs M d w) (hlibs : FreshNames libs) :
    ∃ C, Repeating libs M d C w := by
  induction h with
  | start h hd =>
    subst hd
    exact ⟨[], h.repeating⟩
  | returned _ hM hsize hr ih =>
    obtain ⟨C, hC⟩ := ih
    subst hM
    exact ((hC.run hlibs hsize hr).2.2 _ rfl).2
  | stopped _ hM hsize hr ih =>
    obtain ⟨C, hC⟩ := ih
    subst hM
    exact (hC.run hlibs hsize hr).2.1

end Repeated

/-- Whatever the runs before it have done and wherever this one has got to, the events
are exact; when it has returned, every segment with an invalid record is isolated.
Nothing has to be known of the payloads: a run returns only if it can use them all. -/
theorem corruption_reported {libs : Libs} (hlibs : FreshNames libs) {M : Nat} {d : Table Bytes}
    {w : World} (h : Repeated libs M d w) {settings : Settings} (hM : settings.maxWalRecordBytes = M)
    (hsize : 0 < settings.materializeBatchSize) {t : Thread} {q : Call Nat} {w' : World}
    (hr : Prog.Runs (regular libs settings) (materialize libs settings t, w) (q, w')) :
    Exact M d w' ∧ ∀ total, q = .ret total → Isolated libs M d w' := by
  obtain ⟨C, hC⟩ := h.repeating hlibs
  subst hM
  obtain ⟨hexact, -, hret⟩ := hC.run hlibs hsize hr
  exact ⟨hexact, fun total hq => (hret total hq).1⟩

/-- A run over `tornDir` that flushes its batch twice before it comes to the torn record. -/
def tornRun : World :=
  ((World.ofSegments tornDir).follow sampleLibs { materializeBatchSize := 1 } 120
    (materialize sampleLibs { materializeBatchSize := 1 } ⟨0, 0⟩)).2

theorem corruption_reported_torn : Exact (64 * 1024 * 1024) tornDir tornRun ∧
    ∀ total, (.ret 3 : Call Nat) = .ret total → Isolated sampleLibs (64 * 1024 * 1024) tornDir tornRun := by
  have hrun : Prog.Runs (regular sampleLibs { materializeBatchSize := 1 })
      (materialize sampleLibs { materializeBatchSize := 1 } ⟨0, 0⟩, World.ofSegments tornDir)
      (.ret 3, tornRun) := World.follow_outcome (r := .ok 3) (by decide +kernel)
  exact corruption_reported sampleLibs_freshNames (.start (initial_ofSegments _ _) rfl) rfl (by decide) hrun

end Lrcp.Store
