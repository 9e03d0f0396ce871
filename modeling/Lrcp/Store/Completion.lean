import Lrcp.Framework.Termination
import Lrcp.Store.Enclosed

namespace Lrcp.Store

open Lrcp.Wal Lrcp.Otlp Lrcp.Framework

/-- A statement on the lock database that waits for a transaction of its own thread. -/
def Op.waitsForItself : {α : Type} → Op α → World → Prop
  | _, .createLockTable c, w => ∃ c', w.exclusive = some c' ∧ c' ≠ c ∧ c'.owner = c.owner
  | _, .beginExclusive c, w => ∃ c', w.exclusive = some c' ∧ c' ≠ c ∧ c'.owner = c.owner
  | _, _, _ => False

def Patient : Guard := fun o w => ¬o.waitsForItself w

/-- The operations with their regular effects, none of which waits for its own thread. -/
abbrev patient (libs : Libs) (settings : Settings) : Machine Op PyError World :=
  (regular libs settings).guard Patient

/-- The record can be parsed, and its rows fit the schema. -/
def Usable (libs : Libs) (f : String) (r : WalRecord) : Prop :=
  ∃ rs, rows libs r.payload f r.start = .ok rs ∧ ∀ row ∈ rs, row.fitsSchema = true

/-- Every record that is still to be read is usable. -/
def PendingUsable (libs : Libs) (M : Nat) (w : World) : Prop :=
  ∀ f ∈ w.walDir, hasSuffix ".wal" f = true → f ∉ w.quarantined → ∀ r,
    HasRecord M (w.content f) r → w.maxOffset f ≤ r.start → Usable libs f r

/-- The thread is inside the lifecycle lock, and the segments are those of `d`. -/
structure Held (t : Thread) (c : Conn) (d : Table Bytes) (w : World) : Prop where
  exclusive : w.exclusive = some c
  rlock : w.rlock t.process = some (t.thread, 1)
  walDir : w.walDir = d

section Completion

variable {libs : Libs} {settings : Settings} {t : Thread} {c : Conn} {d : Table Bytes} {w w' : World}
  {p : Progress} {f : String} {α β : Type} {Q : Except PyError α → World → Prop}

/-- A program that goes on after an operation. -/
theorem step_reaches {o : Op β} {k : β → Call α} {b : β} (ho : Patient o w)
    (hexec : World.exec libs settings o w = (.ok b, w'))
    (h : Reaches (patient libs settings) Q (k b) w') :
    Reaches (patient libs settings) Q (Prog.perform o >>= k) w := by
  apply Reaches.bind (J := fun r s => r = .ok b ∧ s = w')
  · exact .perform ⟨ho, hexec⟩ ⟨rfl, rfl⟩
  · intro b' s hs
    rw [Except.ok.inj hs.1, hs.2]
    exact h
  · exact fun e s hs => by cases hs.1

theorem try_reaches {o : Op β} {k : Except PyError β → Call α} {r : Except PyError β}
    (ho : Patient o w) (hexec : World.exec libs settings o w = (r, w'))
    (h : Reaches (patient libs settings) Q (k r) w') :
    Reaches (patient libs settings) Q ((Prog.perform o).attempt >>= k) w := by
  apply Reaches.tryThen (J := fun r' s => r' = r ∧ s = w')
  · exact .perform ⟨ho, hexec⟩ ⟨rfl, rfl⟩
  · intro r' s hs
    rw [hs.1, hs.2]
    exact h

theorem replace_exec {tempPath finalPath : String} {file : ParquetFile}
    (h : w.parquetDir.lookup tempPath = some file) :
    World.exec libs settings (.replace tempPath finalPath) w = (.ok (), { w with
      parquetDir := (w.parquetDir.erase tempPath).insert finalPath file
      history := { w.history with renamed := finalPath :: w.history.renamed } }) := by
  simp only [World.exec, h]

/-- A flush of rows that fit the schema succeeds. -/
theorem flush_reaches (hw : Held t c d w) (hfits : ∀ row ∈ p.batch.rows, row.fitsSchema = true) :
    Reaches (patient libs settings)
      (fun r w' => Held t c d w' ∧ r = .ok ⟨{}, p.total + p.batch.rows.length⟩) (p.flush libs) w := by
  unfold Progress.flush
  apply Reaches.bind (J := fun r w' => Held t c d w' ∧ ∃ name, r = .ok name)
  · unfold flushBatch
    split_ifs with hnil
    · exact .ret ⟨hw, _, rfl⟩
    refine step_reaches id rfl (step_reaches id rfl ?_)
    have htable : fromPylist libs p.batch.rows = .ok p.batch.rows := fromPylist_ok.mpr ⟨rfl, hfits⟩
    rw [htable]
    refine step_reaches id rfl (step_reaches id (replace_exec (AList.lookup_insert _)) ?_)
    refine step_reaches id rfl (.ret ⟨?_, _, rfl⟩)
    exact ⟨hw.exclusive, hw.rlock, hw.walDir⟩
  · intro name w' hw'
    exact .ret ⟨hw'.1, rfl⟩
  · intro e w' hw'
    obtain ⟨-, name, hname⟩ := hw'
    cases hname

theorem unlinkEach_reaches (hw : Held t c d w) (files : List String) (n : Nat) :
    Reaches (patient libs settings) (fun r w' => (Held t c d w' ∧ w'.control = w.control) ∧
      ∃ n, r = .ok n) (unlinkEach files n) w := by
  unfold unlinkEach
  apply Reaches.forEach (I := fun _ w' => Held t c d w' ∧ w'.control = w.control)
  · exact ⟨hw, rfl⟩
  · intro file n w' _ hw'
    obtain ⟨hheld, hcontrol⟩ := hw'
    refine try_reaches id rfl (.ret ⟨?_, hcontrol⟩)
    exact ⟨hheld.exclusive, hheld.rlock, hheld.walDir⟩
  · exact fun n w' hw' => ⟨hw', n, rfl⟩

theorem cleanupOrphaned_reaches (hw : Held t c d w) :
    Reaches (patient libs settings) (fun r w' => (Held t c d w' ∧ w'.control = w.control) ∧
      ∃ n, r = .ok n) cleanupOrphanedParquetFiles w := by
  unfold cleanupOrphanedParquetFiles
  refine step_reaches id rfl (step_reaches id rfl ?_)
  apply Reaches.bind (unlinkEach_reaches hw _ 0)
  · intro n w' hw'
    obtain ⟨⟨hheld, hcontrol⟩, -⟩ := hw'
    refine try_reaches id rfl (step_reaches id rfl ((unlinkEach_reaches hheld _ n).post ?_))
    exact fun r w'' hw'' => ⟨⟨hw''.1.1, hw''.1.2.trans hcontrol⟩, hw''.2⟩
  · intro e w' hw'
    obtain ⟨-, n, hn⟩ := hw'
    cases hn

/-- Reading a record is what `nextRecord` says. -/
theorem readRecord_reaches (f : String) (q : Nat) :
    Reaches (patient libs settings) (fun r w' => w' = w ∧
      r = (nextRecord f (w.content f) settings.maxWalRecordBytes q).mapError PyError.walCorruption)
      (readRecord settings f q) w := by
  unfold readRecord nextRecord
  refine step_reaches id rfl ?_
  dsimp only
  split_ifs with hheader
  · exact .ret ⟨rfl, rfl⟩
  cases hhead : checkHeader f q (((w.content f).drop q).take headerSize) settings.maxWalRecordBytes with
  | error e => exact .raise ⟨rfl, rfl⟩
  | ok header =>
    obtain ⟨length, expectedCrc⟩ := header
    refine step_reaches id rfl ?_
    dsimp only
    cases hpay : checkPayload f q length expectedCrc
        (((w.content f).drop (q + headerSize)).take length) with
    | error e => exact .raise ⟨rfl, rfl⟩
    | ok u => exact .ret ⟨rfl, rfl⟩

/-- The thread holds the lock and has rows in its batch that fit the schema. -/
structure Fitting (t : Thread) (c : Conn) (d : Table Bytes) (p : Progress) (w : World) : Prop
    extends Held t c d w where
  fits : ∀ row ∈ p.batch.rows, row.fitsSchema = true

/-- Between the records `q` is, and every record from there on is usable. -/
structure Readable (libs : Libs) (M : Nat) (d : Table Bytes) (f : String) (q : Nat) : Prop where
  boundary : Boundary M ((d.lookup f).getD []) q
  usable : ∀ r, HasRecord M ((d.lookup f).getD []) r → q ≤ r.start → Usable libs f r

theorem Held.content (hw : Held t c d w) (f : String) : w.content f = (d.lookup f).getD [] := by
  rw [World.content, hw.walDir]

/-- A round goes on behind the record read, or leaves the loop with an error that is handled. -/
theorem recordRound_reaches {s : Progress × Nat} (hw : Fitting t c d s.1 w)
    (hread : Readable libs settings.maxWalRecordBytes d f s.2) :
    Reaches (patient libs settings)
      (fun (r : Except PyError ((Progress × Nat) ⊕ (Progress × Except PyError Unit))) w' => match r with
      | .ok (.inl s') => (Fitting t c d s'.1 w' ∧ Readable libs settings.maxWalRecordBytes d f s'.2) ∧
          ((d.lookup f).getD []).length - s'.2 < ((d.lookup f).getD []).length - s.2
      | .ok (.inr left) => Fitting t c d left.1 w' ∧ ∀ e, left.2 = .error e → e.isValueError = true
      | .error _ => False) (recordRound libs settings f s) w := by
  obtain ⟨p, q⟩ := s
  unfold recordRound
  apply Reaches.tryThen (readRecord_reaches f q)
  intro r w' hr
  obtain ⟨rfl, rfl⟩ := hr
  rw [hw.content]
  cases hnext : nextRecord f ((d.lookup f).getD []) settings.maxWalRecordBytes q with
  | error e =>
    refine .ret ⟨hw, fun e' he => ?_⟩
    obtain rfl := Except.error.inj he
    rfl
  | ok next =>
    cases next with
    | none => exact .ret ⟨hw, fun e he => by cases he⟩
    | some r =>
      obtain ⟨rfl, hrec⟩ := nextRecord_eq_some.mp hnext
      have hhas : HasRecord settings.maxWalRecordBytes ((d.lookup f).getD []) r := ⟨hread.boundary, hrec⟩
      obtain ⟨rs, hrows, hfits⟩ := hread.usable r hhas (Nat.le_refl _)
      have hlt := hrec.start_lt_stop
      have hle := hrec.stop_le
      have hread' : Readable libs settings.maxWalRecordBytes d f r.stop :=
        ⟨hhas.boundary_stop, fun r' hr' hle' => hread.usable r' hr' (by omega)⟩
      have hmeasure : ((d.lookup f).getD []).length - r.stop <
          ((d.lookup f).getD []).length - r.start := by omega
      dsimp only [Except.mapError]
      rw [hrows]
      have hall : ∀ row ∈ (p.batch.add f r rs).rows, row.fitsSchema = true := by
        intro row hrow
        rcases List.mem_append.mp hrow with hrow | hrow
        · exact hw.fits row hrow
        · exact hfits row hrow
      dsimp only
      split_ifs
      · exact .ret ⟨⟨⟨hw.toHeld, hall⟩, hread'⟩, hmeasure⟩
      · apply Reaches.tryThen (flush_reaches (p := { p with batch := p.batch.add f r rs }) hw.toHeld hall)
        intro flushed w' hw'
        obtain ⟨hheld, rfl⟩ := hw'
        exact .ret ⟨⟨⟨hheld, fun row hrow => by cases hrow⟩, hread'⟩, hmeasure⟩

theorem markFullyProcessed_reaches {active : String} {bytes : Bytes} (hw : Fitting t c d p w)
    (hf : d.lookup f = some bytes) (q : Nat) :
    Reaches (patient libs settings) (fun r w' => Fitting t c d p w' ∧ r = .ok ())
      (markFullyProcessed active f q) w := by
  have hstat : World.exec libs settings (.statWal f) w = (.ok bytes.length, w) := by
    simp only [World.exec, hw.walDir, hf]
  unfold markFullyProcessed
  split_ifs
  · exact .ret ⟨hw, rfl⟩
  refine step_reaches id hstat ?_
  split_ifs
  · exact .ret ⟨hw, rfl⟩
  · refine step_reaches id hstat (.perform ⟨id, rfl⟩ ⟨?_, rfl⟩)
    exact ⟨⟨hw.exclusive, hw.rlock, hw.walDir⟩, hw.fits⟩

theorem tryWalFile_reaches {active : String} {q : Nat} (hw : Fitting t c d p w) (hf : f ∈ d)
    (hread : Readable libs settings.maxWalRecordBytes d f q) :
    Reaches (patient libs settings) (fun r w' => ∃ left, r = .ok left ∧ Fitting t c d left.1 w' ∧
      ∀ e, left.2 = .error e → e.isValueError = true) (tryWalFile libs settings active f q p) w := by
  obtain ⟨bytes, hbytes⟩ := Option.isSome_iff_exists.mp (AList.lookup_isSome.mpr hf)
  have hopen : World.exec libs settings (.openWal f) w = (.ok (), w) := by
    simp only [World.exec, hw.walDir, if_pos hf]
  unfold tryWalFile
  refine try_reaches id hopen ?_
  apply Reaches.bind (J := fun r w' => ∃ left, r = .ok left ∧ Fitting t c d left.1 w' ∧
      ∀ e, left.2 = .error e → e.isValueError = true)
  · apply Reaches.repeatUntil (I := fun s w' => Fitting t c d s.1 w' ∧
      Readable libs settings.maxWalRecordBytes d f s.2) fun s => ((d.lookup f).getD []).length - s.2
    · exact ⟨hw, hread⟩
    · intro s w' hs
      apply (recordRound_reaches hs.1 hs.2).post
      intro r w'' hr
      rcases r with e | (s' | left)
      · exact hr.elim
      · exact hr
      · exact ⟨left, rfl, hr⟩
  · intro left w' hleft
    obtain ⟨left', heq, hw', herror⟩ := hleft
    obtain rfl := Except.ok.inj heq
    obtain ⟨p', result⟩ := left
    cases result with
    | error e => exact .ret ⟨_, rfl, hw', herror⟩
    | ok u =>
      apply Reaches.tryThen (markFullyProcessed_reaches hw' hbytes _)
      intro marked w'' hmarked
      obtain ⟨hw'', rfl⟩ := hmarked
      exact .ret ⟨_, rfl, hw'', fun e he => by cases he⟩
  · intro e w' he
    obtain ⟨left, heq, -⟩ := he
    cases heq

theorem quarantine_reaches {size start : Nat} {error : PyError} (hw : Fitting t c d p w) :
    Reaches (patient libs settings) (fun r w' => ∃ p', r = .ok p' ∧ Fitting t c d p' w')
      (quarantine libs f size start p error) w := by
  unfold quarantine
  apply Reaches.bind (J := fun r w' => ∃ p', r = .ok p' ∧ Fitting t c d p' w')
  · split_ifs
    · exact .ret ⟨p, rfl, hw⟩
    · apply (flush_reaches hw.toHeld hw.fits).post
      intro r w' hr
      exact ⟨_, hr.2, hr.1, fun row hrow => by cases hrow⟩
  · intro p' w' hp
    obtain ⟨p'', heq, hw'⟩ := hp
    obtain rfl := Except.ok.inj heq
    refine step_reaches id rfl (.ret ⟨p', rfl, ?_⟩)
    exact ⟨⟨hw'.exclusive, hw'.rlock, hw'.walDir⟩, hw'.fits⟩
  · intro e w' he
    obtain ⟨p', heq, -⟩ := he
    cases heq

theorem materializeFile_reaches {loaded : Loaded} (hw : Fitting t c d p w) (hf : f ∈ d)
    (hread : f ∉ loaded.quarantined →
      Readable libs settings.maxWalRecordBytes d f (loaded.startOffset f)) :
    Reaches (patient libs settings) (fun r w' => ∃ p', r = .ok p' ∧ Fitting t c d p' w')
      (materializeFile libs settings loaded p f) w := by
  obtain ⟨bytes, hbytes⟩ := Option.isSome_iff_exists.mp (AList.lookup_isSome.mpr hf)
  have hstat : World.exec libs settings (.statWal f) w = (.ok bytes.length, w) := by
    simp only [World.exec, hw.walDir, hbytes]
  unfold materializeFile
  split_ifs with hq
  · exact .ret ⟨p, rfl, hw⟩
  refine step_reaches id hstat ?_
  dsimp only
  split_ifs
  · exact .ret ⟨p, rfl, hw⟩
  · exact .ret ⟨p, rfl, hw⟩
  apply Reaches.bind (tryWalFile_reaches hw hf (hread hq))
  · intro left w' hleft
    obtain ⟨left', heq, hw', herror⟩ := hleft
    obtain rfl := Except.ok.inj heq
    obtain ⟨p', result⟩ := left
    cases result with
    | ok u => exact .ret ⟨p', rfl, hw'⟩
    | error e =>
      dsimp only
      rw [if_pos (herror e rfl)]
      exact quarantine_reaches hw'
  · intro e w' he
    obtain ⟨left, heq, -⟩ := he
    cases heq

/-- What `materialize` is still to read is usable, segment by segment. -/
def PendingReadable (libs : Libs) (M : Nat) (w : World) : Prop :=
  ∀ f ∈ w.walDir, hasSuffix ".wal" f = true → f ∉ w.quarantined →
    Readable libs M w.walDir f (w.maxOffset f)

/-- Under the lock `materialize` gets to its end, and without a segment it does nothing. -/
theorem materializeSegments_reaches (hw : Held t c w.walDir w)
    (hread : PendingReadable libs settings.maxWalRecordBytes w) :
    Reaches (patient libs settings) (fun r w' => ∃ total, r = .ok total ∧ Held t c w.walDir w' ∧
      (total ≠ none → ∃ f ∈ w.walDir, hasSuffix ".wal" f = true))
      (materializeSegments libs settings) w := by
  unfold materializeSegments
  refine step_reaches id rfl (step_reaches id rfl ?_)
  apply Reaches.bind (cleanupOrphaned_reaches hw)
  swap
  · intro e w' he
    obtain ⟨-, n, hn⟩ := he
    cases hn
  intro n w' hw'
  obtain ⟨⟨hheld, hcontrol⟩, -⟩ := hw'
  refine step_reaches id rfl ?_
  apply Reaches.bind (J := fun r w'' => r = .ok w'.quarantined ∧ w'' = w')
  · exact try_reaches id rfl (.ret ⟨rfl, rfl⟩)
  swap
  · exact fun e w'' he => by cases he.1
  intro quarantined w'' hq
  obtain ⟨hquarantined, rfl⟩ := hq
  obtain rfl := Except.ok.inj hquarantined
  refine step_reaches id rfl ?_
  dsimp only
  cases hactive : (sortSegments (w''.walDir.keys.filter (hasSuffix ".wal"))).getLast? with
  | none => exact .ret ⟨none, rfl, hheld, fun h => absurd rfl h⟩
  | some active =>
    have hsegment : ∀ f ∈ sortSegments (w''.walDir.keys.filter (hasSuffix ".wal")),
        f ∈ w.walDir ∧ hasSuffix ".wal" f = true := by
      intro f hf
      rw [mem_sortSegments, List.mem_filter, hheld.walDir] at hf
      exact hf
    have hmax : ∀ f, w''.maxOffset f = w.maxOffset f := by
      intro f
      rw [World.maxOffset, hcontrol, World.maxOffset]
    have hquar : w''.quarantined = w.quarantined := by
      rw [World.quarantined, hcontrol, World.quarantined]
    dsimp only
    apply Reaches.bind (J := fun r w' => ∃ p, r = .ok p ∧ Fitting t c w.walDir p w')
    · apply Reaches.forEach (I := fun p w' => Fitting t c w.walDir p w')
      · exact ⟨hheld, fun row hrow => by cases hrow⟩
      · intro f p w₁ hf hw₁
        obtain ⟨hmem, hwal⟩ := hsegment f hf
        apply (materializeFile_reaches hw₁ hmem fun hnot => ?_).post
        · intro r w₂ hr
          obtain ⟨p', rfl, hp'⟩ := hr
          exact hp'
        · have h := hread f hmem hwal (hquar ▸ hnot)
          rw [← hmax] at h
          exact h
      · exact fun p w₁ hw₁ => ⟨p, rfl, hw₁⟩
    swap
    · intro e w₁ he
      obtain ⟨p, heq, -⟩ := he
      cases heq
    intro p w₁ hp
    obtain ⟨p', heq, hw₁⟩ := hp
    obtain rfl := Except.ok.inj heq
    obtain ⟨hmem, hwal⟩ := hsegment active (List.mem_of_getLast? hactive)
    apply Reaches.bind (J := fun r w' => (∃ p, r = .ok p) ∧ Held t c w.walDir w')
    · split_ifs
      · exact .ret ⟨⟨p, rfl⟩, hw₁.toHeld⟩
      · apply (flush_reaches hw₁.toHeld hw₁.fits).post
        exact fun r w₂ hr => ⟨⟨_, hr.2⟩, hr.1⟩
    · exact fun p' w₂ hw₂ => .ret ⟨_, rfl, hw₂.2, fun _ => ⟨active, hmem, hwal⟩⟩
    · intro e w₂ he
      obtain ⟨⟨p', heq⟩, -⟩ := he
      cases heq

/-- Without automatic cleanup of segments there is no second lock to wait for. -/
theorem materializeAll_reaches (hw : Held t c w.walDir w)
    (hread : PendingReadable libs settings.maxWalRecordBytes w)
    (hcleanup : settings.autoCleanupWal = true → ∀ f ∈ w.walDir, hasSuffix ".wal" f = false) :
    Reaches (patient libs settings) (fun r w' => (∃ total, r = .ok total) ∧ Held t c w.walDir w')
      (materializeAll libs settings t) w := by
  unfold materializeAll
  apply Reaches.bind (materializeSegments_reaches hw hread)
  · intro total w' htotal
    obtain ⟨total', heq, hw', hsegment⟩ := htotal
    obtain rfl := Except.ok.inj heq
    cases total with
    | none => exact .ret ⟨⟨0, rfl⟩, hw'⟩
    | some total =>
      have hoff : ¬settings.autoCleanupWal = true := by
        intro hon
        obtain ⟨f, hf, hwal⟩ := hsegment (by simp)
        rw [hcleanup hon f hf] at hwal
        cases hwal
      dsimp only
      rw [if_neg hoff]
      exact .ret ⟨⟨total, rfl⟩, hw'⟩
  · intro e w' he
    obtain ⟨total, heq, -⟩ := he
    cases heq

/-- The lock is free for the thread. -/
structure Unlocked (t : Thread) (w : World) : Prop where
  exclusive : w.exclusive = none
  rlock : w.rlock t.process = none

/-- Nobody is in the way of the connection. -/
theorem enter_reaches {body : Call α} (hex : w.exclusive = none)
    (h : Reaches (patient libs settings) Q body { w with exclusive := some c }) :
    Reaches (patient libs settings) Q (do
      Prog.perform (.busyTimeout c)
      Prog.perform (.createLockTable c)
      Prog.perform (.beginExclusive c)
      body) w := by
  have hout : ¬w.lockedOut c = true := by
    rw [World.lockedOut, hex]
    simp
  have hpatient : ¬∃ c', w.exclusive = some c' ∧ c' ≠ c ∧ c'.owner = c.owner := by
    intro hc
    obtain ⟨c', hc', -⟩ := hc
    rw [hex] at hc'
    cases hc'
  have hcreate : World.exec libs settings (.createLockTable c) w = (.ok (), w) := by
    simp only [World.exec, if_neg hout]
  have hbegin : World.exec libs settings (.beginExclusive c) w =
      (.ok (), { w with exclusive := some c }) := by
    simp only [World.exec, if_neg hout]
  exact step_reaches id rfl (step_reaches hpatient hcreate (step_reaches hpatient hbegin h))

theorem leave_reaches (hex : w.exclusive = some c) :
    Reaches (patient libs settings) (fun r w' => r = .ok () ∧ w' = w.release c) (do
      Prog.suppress (Prog.perform (.rollback c))
      Prog.suppress (Prog.perform (.close c))) w := by
  have hrollback : World.exec libs settings (.rollback c) w = (.ok (), w.release c) := by
    simp only [World.exec, if_pos hex]
  have hclosed : (w.release c).release c = w.release c := by
    have hnone : (w.release c).exclusive ≠ some c := by
      rw [World.release, if_pos hex]
      simp
    conv_lhs => rw [World.release, if_neg hnone]
  apply Reaches.bind (J := fun r w' => r = .ok () ∧ w' = w.release c)
  · apply Reaches.suppress (J := fun _ w' => w' = w.release c)
    · exact .perform ⟨id, hrollback⟩ rfl
    · exact fun r w' h => ⟨rfl, h⟩
  · intro u w' hw'
    rw [hw'.2]
    apply Reaches.suppress (J := fun _ w' => w' = w.release c)
    · exact .perform ⟨id, rfl⟩ hclosed
    · exact fun r w' h => ⟨rfl, h⟩
  · intro e w' he
    cases he.1

/-- A call under a free lock ends as its body does. -/
theorem lock_reaches {body : Call α} {J : Except PyError α → World → Prop} (hw : Unlocked t w)
    (hbody : ∀ c w₁, Relocked w w₁ → Held t c w₁.walDir w₁ → Reaches (patient libs settings)
      (fun r w' => J r w' ∧ Held t c w₁.walDir w') body w₁) :
    Reaches (patient libs settings) (fun r w' => Unlocked t w' ∧ ∃ w₂, J r w₂ ∧ Relocked w₂ w')
      (storageLifecycleLock t body) w := by
  have hacquire : World.exec libs settings (.lockAcquire t) w =
      (.ok true, w.setRlock t.process (some (t.thread, 1))) := by
    simp only [World.exec, hw.rlock]
  have hex : (w.setRlock t.process (some (t.thread, 1))).exclusive = none := hw.exclusive
  have hrlock : (w.setRlock t.process (some (t.thread, 1))).rlock t.process = some (t.thread, 1) := by
    simp [World.setRlock]
  have hrelocked := relocked_setRlock w t.process (some (t.thread, 1))
  unfold storageLifecycleLock
  refine step_reaches id hacquire ?_
  generalize w.setRlock t.process (some (t.thread, 1)) = w₁ at hex hrlock hrelocked
  rw [if_neg (by decide)]
  refine step_reaches id rfl ?_
  apply Reaches.finallyDo (J := fun r w' => (w'.exclusive = none ∧
      w'.rlock t.process = some (t.thread, 1)) ∧ ∃ w₂, J r w₂ ∧ Relocked w₂ w')
    (F := fun r u w' => u = .ok () ∧ Unlocked t w' ∧ ∃ w₂, J r w₂ ∧ Relocked w₂ w')
  · refine step_reaches id rfl ?_
    apply Reaches.finallyDo (J := fun r w' => J r w' ∧ Held t ⟨t, w₁.connections⟩ w₁.walDir w')
    · refine enter_reaches (by exact hex) ?_
      exact hbody _ _ (hrelocked.trans ⟨_, w₁.connections + 1, w₁.rlock, w₁.history.renamed, rfl⟩)
        ⟨rfl, hrlock, rfl⟩
    · intro r w' hr
      obtain ⟨hJ, hheld⟩ := hr
      apply (leave_reaches hheld.exclusive).post (Q := fun u w'' => u = .ok () ∧
        (w''.exclusive = none ∧ w''.rlock t.process = some (t.thread, 1)) ∧
          ∃ w₂, J r w₂ ∧ Relocked w₂ w'')
      intro u w'' hu
      obtain ⟨rfl, rfl⟩ := hu
      refine ⟨rfl, ⟨?_, ?_⟩, w', hJ, relocked_release ..⟩
      · rw [World.release, if_pos hheld.exclusive]
      · rw [World.release, if_pos hheld.exclusive]
        exact hheld.rlock
    · exact fun r u w' h => h.2
    · intro r e w' h
      cases h.1
  · intro r w' hr
    obtain ⟨⟨hex, hrlock⟩, w₂, hJ, hw₂⟩ := hr
    have hrelease : World.exec libs settings (.lockRelease t) w' = (.ok (), w'.setRlock t.process none) := by
      simp [World.exec, hrlock]
    apply Reaches.perform (And.intro id hrelease)
    refine ⟨rfl, ⟨hex, ?_⟩, w₂, hJ, hw₂.trans (relocked_setRlock ..)⟩
    simp [World.setRlock]
  · exact fun r u w' h => h.2
  · intro r e w' h
    cases h.1

/-- `materialize` returns when the lock is free, every record still to be read is
usable, and segments are not deleted in the same call. -/
theorem materialize_reaches (hw : Unlocked t w)
    (hread : PendingReadable libs settings.maxWalRecordBytes w)
    (hcleanup : settings.autoCleanupWal = true → ∀ f ∈ w.walDir, hasSuffix ".wal" f = false) :
    ∃ total w', Prog.Runs (patient libs settings) (materialize libs settings t, w) (.ret total, w') ∧
      Unlocked t w' ∧ w'.walDir = w.walDir := by
  have hbody : ∀ c w₁, Relocked w w₁ → Held t c w₁.walDir w₁ → Reaches (patient libs settings)
      (fun r w' => ((∃ total, r = .ok total) ∧ w'.walDir = w.walDir) ∧ Held t c w₁.walDir w')
      (materializeAll libs settings t) w₁ := by
    intro c w₁ hrelocked hheld
    obtain ⟨e, n, l, renamed, rfl⟩ := hrelocked
    exact (materializeAll_reaches hheld hread hcleanup).post fun r w' hr => ⟨⟨hr.1, hr.2.walDir⟩, hr.2⟩
  obtain ⟨r, w', hr, hunlocked, w₂, ⟨⟨total, rfl⟩, hdir⟩, hw₂⟩ := lock_reaches hw hbody
  obtain ⟨e, n, l, renamed, rfl⟩ := hw₂
  exact ⟨total, _, hr, hunlocked, hdir⟩

end Completion

end Lrcp.Store
