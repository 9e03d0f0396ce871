import Lrcp.Gateway.WalWriter

namespace Lrcp.Gateway

open Lrcp.Framework Lrcp.Wal

/-- The disk with the file behind `handle_`. `stray` is set by a write that does not go to
that file; no operation reads it. -/
structure Host where
  disk : Disk
  handle : Option String
  stray : Bool

/-- The file behind the handle after an operation. `open_new_segment` has closed the old one
before it opens another. -/
def handleAfter : {α : Type} → Op α → Except String α → Option String → Option String
  | _, .openSegment path, .ok _, _ => some path
  | _, .openSegment _, .error _, _ => none
  | _, _, _, handle => handle

def strays : {α : Type} → Op α → Option String → Bool
  | _, .write path _, handle => handle ≠ some path
  | _, _, _ => false

/-- Nothing happens to a segment behind the back of the size counter of an append that began
on the disk `base`: the segment it opens is empty, a write that fails has left nothing
of the record in the file, nor does `fsync` fail. -/
def Harmless (base : Disk) : {α : Type} → Op α → Disk → Except String α → Disk → Prop
  | _, .openSegment path, d, r, _ => r = .ok () → d.content path = []
  | _, .write path _, _, r, d' => ∀ e, r = .error e → d'.content path = base.content path
  | _, .fsync _, _, r, _ => r = .ok ()
  | _, _, _, _, _ => True

/-- Every `open`, `write` and `fsync` may fail, and a segment may be opened under any name,
as far as that is harmless. -/
def hostMachine (harmless : Prop) (base : Disk) : Machine Op String Host where
  step o s r s' := Effect True (fun _ _ => True) o s.disk r s'.disk ∧
    (harmless → Harmless base o s.disk r s'.disk) ∧
    s'.handle = handleAfter o r s.handle ∧ s'.stray = (s.stray || strays o s.handle)

/-- `handle_` is open on the current segment, or closed. -/
def WalWriter.Tracks (writer : WalWriter) (s : Host) : Prop :=
  s.handle = if writer.handle then some writer.currentPath else none

/-- With an open handle the counter is the size of the current segment. -/
def WalWriter.Sized (writer : WalWriter) (d : Disk) : Prop :=
  writer.handle = true → writer.currentFileSize = (d.content writer.currentPath).length

/-- A segment is not too long, or it holds a single record. -/
def Within (maxFileBytes : Nat) (data : Bytes) : Prop :=
  data.length ≤ maxFileBytes ∨ ∃ payload, data = encodeRecord payload

/-- The states between the calls of one writer: the constructor has returned, and any
appends after it, with whatever result. -/
inductive Written (harmless : Prop) (maxFileBytes : Nat) (d : Disk) : WalWriter × Host → Prop
  | construct {writer s} (h : Prog.Runs (hostMachine harmless d)
      (WalWriter.construct maxFileBytes, ⟨d, none, false⟩) (.ret writer, s)) :
      Written harmless maxFileBytes d (writer, s)
  | append {writer s writer' s' payload result} (h : Written harmless maxFileBytes d (writer, s))
      (hrun : Prog.Runs (hostMachine harmless s.disk) (writer.append payload, s)
        (.ret (writer', result), s')) : Written harmless maxFileBytes d (writer', s')

section Rules

variable {harmless : Prop} {base : Disk}

/-- While a record is written: the handle is open on the segment and no other is touched. -/
structure Appending (base : Disk) (path : String) (c : Bytes) (s : Host) : Prop where
  handle : s.handle = some path
  stray : s.stray = false
  others : base.OnlyTouched path s.disk
  content : s.disk.content path = c

theorem Appending.append {path : String} {c data : Bytes} {s s' : Host} (h : Appending base path c s)
    (hdisk : s'.disk = s.disk.append path data) (hhandle : s'.handle = s.handle)
    (hstray : s'.stray = (s.stray || strays (.write path data) s.handle)) :
    Appending base path (c ++ data) s' where
  handle := hhandle.trans h.handle
  stray := by rw [hstray, h.stray, h.handle]; simp [strays]
  others := by rw [hdisk]; exact h.others.append data
  content := by rw [hdisk, Disk.content_append_self, h.content]

theorem writeAll_appending {path : String} {data c : Bytes} :
    Triple (hostMachine harmless base) Eq (fun _ s' => s'.stray = false) (Appending base path c)
      (writeAll path data) fun r s => match r with
        | .ok _ => Appending base path (c ++ data) s
        | .error _ => ∃ part, Appending base path (c ++ part) s ∧
            (harmless → s.disk.content path = base.content path) := by
  unfold writeAll
  apply Triple.pre (H := fun s => ∃ part, data = part ++ data ∧ Appending base path (c ++ part) s)
  · exact fun s hs => ⟨[], rfl, by rwa [List.append_nil]⟩
  apply Triple.repeatUntil
    (I := fun remaining s => ∃ part, data = part ++ remaining ∧ Appending base path (c ++ part) s)
  intro remaining
  apply Triple.cond
  · intro hnil
    rw [hnil]
    apply Triple.ret
    intro s ⟨part, hpart, hs⟩
    rw [List.append_nil] at hpart
    rwa [hpart]
  intro _
  apply Triple.bind (J := fun r s => match r with
    | .ok n => ∃ part, data = part ++ remaining.drop n ∧ Appending base path (c ++ part) s
    | .error _ => ∃ part, Appending base path (c ++ part) s ∧
        (harmless → s.disk.content path = base.content path))
  · apply Triple.perform stable_eq
    intro s r s' ⟨part, hpart, hs⟩ ⟨heffect, hharmless, hhandle, hstray⟩
    have hwritten : ∀ n, s'.disk = s.disk.append path (remaining.take n) →
        Appending base path (c ++ (part ++ remaining.take n)) s' := by
      intro n hdisk
      rw [← List.append_assoc]
      exact hs.append hdisk hhandle hstray
    rcases heffect with ⟨n, -, -, rfl, hdisk⟩ | ⟨-, error, n, rfl, hdisk⟩
    · refine ⟨(hwritten n hdisk).stray, part ++ remaining.take n, ?_, hwritten n hdisk⟩
      rw [List.append_assoc, List.take_append_drop]
      exact hpart
    · exact ⟨(hwritten n hdisk).stray, _, hwritten n hdisk, fun h => hharmless h error rfl⟩
  · exact fun n => Triple.ret fun s hs => hs
  · exact fun e s hs => hs

/-- A record is written in full, or the bytes of the segment are those from before the append. -/
theorem writeRecord_appending {path : String} {payload c : Bytes} :
    Triple (hostMachine harmless base) Eq (fun _ s' => s'.stray = false) (Appending base path c)
      (WalWriter.writeRecord path payload) fun r s => match r with
        | .ok _ => Appending base path (c ++ encodeRecord payload) s
        | .error _ => ∃ part, Appending base path (c ++ part) s ∧
            (harmless → s.disk.content path = base.content path) := by
  unfold WalWriter.writeRecord
  apply Triple.bind writeAll_appending
  swap
  · exact fun e s hs => hs
  intro _
  apply Triple.bind writeAll_appending
  · intro _
    apply Triple.perform stable_eq
    intro s r s' hs ⟨⟨hr, hdisk⟩, hharmless, hhandle, hstray⟩
    rw [List.append_assoc] at hs
    have hs' : Appending base path (c ++ encodeRecord payload) s' :=
      { handle := hhandle.trans hs.handle
        stray := by rw [hstray, hs.stray]; rfl
        others := by rw [hdisk]; exact hs.others
        content := by rw [hdisk]; exact hs.content }
    refine ⟨hs'.stray, ?_⟩
    rcases hr with rfl | ⟨-, error, rfl⟩
    · exact hs'
    · exact ⟨_, hs', fun h => by cases hharmless h⟩
  · intro e s ⟨part, hs, hcontent⟩
    exact ⟨_, by rwa [← List.append_assoc], hcontent⟩

/-- A new segment is opened, which is empty then, or the handle is closed. -/
theorem openNewSegment_host {writer : WalWriter} {s₀ : Host} (hstray : s₀.stray = false)
    (hbase : s₀.disk = base) :
    Triple (hostMachine harmless base) Eq (fun _ s' => s'.stray = false) (fun s => s = s₀)
      writer.openNewSegment fun r s => ∃ writer' opened, r = .ok (writer', opened) ∧
        s.stray = false ∧ writer'.maxFileBytes = writer.maxFileBytes ∧
        (∀ f, s.disk.content f = base.content f) ∧ match opened with
          | .ok () => writer'.handle = true ∧ writer'.currentFileSize = 0 ∧
              Appending base writer'.currentPath (base.content writer'.currentPath) s ∧
              (harmless → base.content writer'.currentPath = [])
          | .error _ => writer'.handle = false ∧ s.handle = none := by
  unfold WalWriter.openNewSegment
  apply Triple.bind (J := fun r s => (∃ t, r = .ok t) ∧ s.disk.walDir = base.walDir ∧ s.stray = false)
  · apply Triple.perform stable_eq
    intro s r s' hs hstep
    obtain ⟨⟨t, hr, hdisk⟩, -, -, hstray'⟩ := hstep
    rw [hs] at hdisk hstray'
    have hquiet : s'.stray = false := by rw [hstray', hstray]; rfl
    exact ⟨hquiet, ⟨t, hr⟩, by rw [hdisk, hbase], hquiet⟩
  swap
  · intro e s hs
    obtain ⟨⟨t, h⟩, -⟩ := hs
    cases h
  intro now
  apply Triple.bind (J := fun r s => (∃ n, r = .ok n) ∧ s.disk.walDir = base.walDir ∧ s.stray = false)
  · apply Triple.perform stable_eq
    intro s r s' hs hstep
    obtain ⟨-, hdir, hquiet⟩ := hs
    obtain ⟨⟨hr, hdisk⟩, -, -, hstray'⟩ := hstep
    have hquiet' : s'.stray = false := by rw [hstray', hquiet]; rfl
    exact ⟨hquiet', ⟨_, hr⟩, by rw [hdisk]; exact hdir, hquiet'⟩
  swap
  · intro e s hs
    obtain ⟨⟨t, h⟩, -⟩ := hs
    cases h
  intro sequence
  apply Triple.bind (J := fun r s => ∃ opened, r = .ok opened ∧ s.stray = false ∧
    (∀ f, s.disk.content f = base.content f) ∧ match opened with
      | .ok () => Appending base (segmentName now sequence) (base.content (segmentName now sequence)) s ∧
          (harmless → base.content (segmentName now sequence) = [])
      | .error _ => s.handle = none)
  · apply Triple.attempt (J := fun opened s => s.stray = false ∧
      (∀ f, s.disk.content f = base.content f) ∧ match opened with
        | .ok () => Appending base (segmentName now sequence) (base.content (segmentName now sequence)) s ∧
            (harmless → base.content (segmentName now sequence) = [])
        | .error _ => s.handle = none) _ fun opened s hs => ⟨opened, rfl, hs⟩
    apply Triple.perform stable_eq
    intro s r s' hs hstep
    obtain ⟨-, hdir, hquiet⟩ := hs
    obtain ⟨heffect, hharmless, hhandle, hstray'⟩ := hstep
    have hsame : ∀ f, s.disk.content f = base.content f := fun f => by
      rw [Disk.content, hdir, Disk.content]
    have hquiet' : s'.stray = false := by rw [hstray', hquiet]; rfl
    rcases heffect with ⟨-, rfl, hdisk⟩ | ⟨-, ⟨error, rfl⟩, hdisk⟩
    · have hsame' : ∀ f, s'.disk.content f = base.content f := fun f => by
        rw [hdisk, Disk.content_create, hsame]
      refine ⟨hquiet', hquiet', hsame', ⟨hhandle, hquiet', ?_, hsame' _⟩, fun h => ?_⟩
      · rw [hdisk]
        exact Disk.OnlyTouched.create _ hdir
      · rw [← hsame]
        exact hharmless h rfl
    · exact ⟨hquiet', hquiet', fun f => by rw [hdisk, hsame], hhandle⟩
  swap
  · intro e s hs
    obtain ⟨opened, h, -⟩ := hs
    cases h
  intro opened
  cases opened with
  | error error =>
    apply Triple.ret
    intro s hopened
    obtain ⟨opened, h, hquiet, hsame, hs⟩ := hopened
    rw [← Except.ok.inj h] at hs
    exact ⟨_, _, rfl, hquiet, rfl, hsame, rfl, hs⟩
  | ok u =>
    apply Triple.ret
    intro s hopened
    obtain ⟨opened, h, hquiet, hsame, hs⟩ := hopened
    rw [← Except.ok.inj h] at hs
    exact ⟨_, _, rfl, hquiet, rfl, hsame, rfl, rfl, hs⟩

/-- What is known of the writer and its host between two calls, when the writer was
constructed on the disk `d`. -/
structure Consistent (harmless : Prop) (maxFileBytes : Nat) (d : Disk) (writer : WalWriter)
    (s : Host) : Prop where
  limit : writer.maxFileBytes = maxFileBytes
  tracks : writer.Tracks s
  stray : s.stray = false
  sized : harmless → writer.Sized s.disk
  within : harmless → ∀ f, s.disk.content f = d.content f ∨ Within maxFileBytes (s.disk.content f)

variable {maxFileBytes : Nat} {d : Disk} {writer : WalWriter} {s₀ : Host}

/-- The segment that a record goes to, with room for it: it is empty, or the record fits. -/
structure Ready (harmless : Prop) (base : Disk) (maxFileBytes recordSize : Nat) (writer : WalWriter)
    (s : Host) : Prop where
  limit : writer.maxFileBytes = maxFileBytes
  handle : writer.handle = true
  writing : Appending base writer.currentPath (base.content writer.currentPath) s
  sized : harmless → writer.currentFileSize = (base.content writer.currentPath).length
  room : harmless → base.content writer.currentPath = [] ∨
    writer.currentFileSize + recordSize ≤ maxFileBytes

theorem Consistent.same {writer' : WalWriter} {s : Host}
    (h : Consistent harmless maxFileBytes d writer s₀) (hlimit : writer'.maxFileBytes = maxFileBytes)
    (htracks : writer'.Tracks s) (hstray : s.stray = false)
    (hsame : ∀ f, harmless → s.disk.content f = s₀.disk.content f)
    (hsized : harmless → writer'.Sized s.disk) : Consistent harmless maxFileBytes d writer' s where
  limit := hlimit
  tracks := htracks
  stray := hstray
  sized := hsized
  within hh f := by
    rw [hsame f hh]
    exact h.within hh f

/-- An append that does not open a segment has one with room. -/
theorem Consistent.ready {recordSize : Nat} (h : Consistent harmless maxFileBytes d writer s₀)
    (hrot : writer.rotates recordSize = false) :
    Ready harmless s₀.disk maxFileBytes recordSize writer s₀ := by
  simp only [WalWriter.rotates, Bool.or_eq_false_iff, Bool.not_eq_false', Bool.and_eq_false_iff,
    decide_eq_false_iff_not, Nat.not_lt] at hrot
  obtain ⟨hhandle, hroom⟩ := hrot
  have htracks := h.tracks
  unfold WalWriter.Tracks at htracks
  rw [if_pos hhandle] at htracks
  refine ⟨h.limit, hhandle, ⟨htracks, h.stray, ⟨fun _ _ => rfl, fun _ hf => hf⟩, rfl⟩,
    fun hh => h.sized hh hhandle, fun hh => ?_⟩
  have hsize := h.sized hh hhandle
  rcases hroom with hzero | hfits
  · left
    apply List.eq_nil_of_length_eq_zero
    omega
  · rw [h.limit] at hfits
    exact .inr hfits

/-- The record is written: the counter grows by as much as the segment. -/
theorem Ready.written {payload : Bytes} {s s' : Host}
    (h : Consistent harmless maxFileBytes d writer s₀) {writer' : WalWriter}
    (hr : Ready harmless s₀.disk maxFileBytes (8 + payload.length) writer' s)
    (hs : Appending s₀.disk writer'.currentPath
      (s₀.disk.content writer'.currentPath ++ encodeRecord payload) s') :
    Consistent harmless maxFileBytes d
      { writer' with currentFileSize := writer'.currentFileSize + (8 + payload.length) } s' where
  limit := hr.limit
  tracks := by
    unfold WalWriter.Tracks
    rw [hs.handle, if_pos hr.handle]
  stray := hs.stray
  sized hh _ := by
    rw [hs.content, List.length_append, encodeRecord_length, hr.sized hh]
    rfl
  within hh f := by
    by_cases hf : f = writer'.currentPath
    · right
      rw [hf, hs.content]
      rcases hr.room hh with hnil | hfits
      · exact .inr ⟨payload, by rw [hnil, List.nil_append]⟩
      · left
        rw [List.length_append, encodeRecord_length, ← hr.sized hh]
        exact hfits
    · rw [hs.others.content f hf]
      exact h.within hh f

/-- The record is not written: without harm the segment is as it was. -/
theorem Ready.failed {recordSize : Nat} {c : Bytes} {s s' : Host}
    (h : Consistent harmless maxFileBytes d writer s₀) {writer' : WalWriter}
    (hr : Ready harmless s₀.disk maxFileBytes recordSize writer' s)
    (hs : Appending s₀.disk writer'.currentPath c s')
    (hcontent : harmless → s'.disk.content writer'.currentPath = s₀.disk.content writer'.currentPath) :
    Consistent harmless maxFileBytes d writer' s' := by
  apply h.same hr.limit _ hs.stray
  · intro f hh
    by_cases hf : f = writer'.currentPath
    · rw [hf, hcontent hh]
    · exact hs.others.content f hf
  · intro hh _
    rw [hcontent hh, hr.sized hh]
  · unfold WalWriter.Tracks
    rw [hs.handle, if_pos hr.handle]

/-- What one append leaves to the next. -/
theorem append_consistent {payload : Bytes} (h : Consistent harmless maxFileBytes d writer s₀) :
    Triple (hostMachine harmless s₀.disk) Eq (fun _ s' => s'.stray = false) (fun s => s = s₀)
      (writer.append payload) fun r s => ∃ writer' result, r = .ok (writer', result) ∧
        Consistent harmless maxFileBytes d writer' s := by
  unfold WalWriter.append
  apply Triple.cond
  · intro _
    apply Triple.ret
    intro s hs
    rw [hs]
    exact ⟨_, _, rfl, h⟩
  intro _
  dsimp only
  apply Triple.bind (J := fun r s => ∃ writer' opened, r = .ok (writer', opened) ∧ match opened with
    | .ok () => Ready harmless s₀.disk maxFileBytes (8 + payload.length) writer' s
    | .error _ => Consistent harmless maxFileBytes d writer' s)
  · apply Triple.cond
    · intro _
      apply (openNewSegment_host h.stray rfl).post
      intro r s ⟨writer', opened, hr, hstray, hlimit, hsame, hs⟩
      refine ⟨writer', opened, hr, ?_⟩
      cases opened with
      | error error =>
        obtain ⟨hclosed, hhandle⟩ := hs
        apply h.same (hlimit.trans h.limit) _ hstray fun f _ => hsame f
        · intro _ hopen
          rw [hclosed] at hopen
          cases hopen
        · unfold WalWriter.Tracks
          rw [hhandle, hclosed]
          rfl
      | ok u =>
        obtain ⟨hhandle, hzero, hwriting, hempty⟩ := hs
        refine ⟨hlimit.trans h.limit, hhandle, hwriting, fun hh => ?_, fun hh => .inl (hempty hh)⟩
        rw [hzero, hempty hh]
        rfl
    · intro hrot
      apply Triple.ret
      intro s hs
      rw [hs]
      exact ⟨_, _, rfl, h.ready (by simpa using hrot)⟩
  swap
  · intro e s ⟨_, _, he, _⟩
    cases he
  intro ⟨writer', opened⟩
  cases opened with
  | error error =>
    apply Triple.ret
    intro s ⟨_, _, he, hs⟩
    obtain ⟨rfl, rfl⟩ := Prod.mk.inj (Except.ok.inj he)
    exact ⟨_, _, rfl, hs⟩
  | ok u =>
    apply Triple.pre (H := fun s => (∃ s₁, Ready harmless s₀.disk maxFileBytes (8 + payload.length) writer' s₁) ∧
      Appending s₀.disk writer'.currentPath (s₀.disk.content writer'.currentPath) s)
    · intro s ⟨_, _, he, hs⟩
      obtain ⟨rfl, rfl⟩ := Prod.mk.inj (Except.ok.inj he)
      exact ⟨⟨s, hs⟩, hs.writing⟩
    apply Triple.assume
    intro ⟨s₁, hready⟩
    apply Triple.tryThen writeRecord_appending
    intro result
    cases result with
    | error error =>
      apply Triple.ret
      intro s ⟨part, hs, hcontent⟩
      exact ⟨_, _, rfl, hready.failed h hs hcontent⟩
    | ok u =>
      apply Triple.ret
      intro s hs
      exact ⟨_, _, rfl, hready.written h hs⟩

theorem construct_consistent :
    Triple (hostMachine harmless d) Eq (fun _ s' => s'.stray = false) (fun s => s = ⟨d, none, false⟩)
      (WalWriter.construct maxFileBytes) fun r s => ∀ writer, r = .ok writer →
        Consistent harmless maxFileBytes d writer s := by
  unfold WalWriter.construct
  apply Triple.bind (openNewSegment_host rfl rfl)
  swap
  · intro e s _ writer h
    cases h
  intro ⟨writer, opened⟩
  cases opened with
  | error error =>
    apply Triple.raise
    intro s _ writer h
    cases h
  | ok u =>
    apply Triple.ret
    intro s ⟨_, _, he, hstray, hlimit, hsame, hs⟩ writer' hw
    obtain ⟨rfl, rfl⟩ := Prod.mk.inj (Except.ok.inj he)
    rw [← Except.ok.inj hw]
    obtain ⟨hhandle, hzero, hwriting, hempty⟩ := hs
    refine ⟨hlimit, ?_, hstray, fun hh _ => ?_, fun _ f => .inl (hsame f)⟩
    · unfold WalWriter.Tracks
      rw [hwriting.handle, if_pos hhandle]
    · rw [hzero, hsame, hempty hh]
      rfl

/-- A run of one append, finished or not. -/
theorem Consistent.append_runs {payload : Bytes} {p : Call (WalWriter × Except String Unit)} {s : Host}
    (h : Consistent harmless maxFileBytes d writer s₀)
    (hrun : Prog.Runs (hostMachine harmless s₀.disk) (writer.append payload, s₀) (p, s)) :
    s.stray = false ∧ ∀ writer' result, p = .ret (writer', result) →
      Consistent harmless maxFileBytes d writer' s := by
  obtain ⟨hstray, hend⟩ := (append_consistent h).runs (P := fun s => s = s₀)
    (I := fun s => s.stray = false) rfl h.stray hrun
  refine ⟨hstray, fun writer' result hp => ?_⟩
  obtain ⟨_, _, he, hs⟩ := hend (.ok (writer', result)) hp
  obtain ⟨rfl, rfl⟩ := Prod.mk.inj (Except.ok.inj he)
  exact hs

theorem Written.consistent {g : WalWriter × Host} (hg : Written harmless maxFileBytes d g) :
    Consistent harmless maxFileBytes d g.1 g.2 := by
  induction hg with
  | @construct writer s h =>
    obtain ⟨-, hend⟩ := construct_consistent.runs (P := fun s => s = ⟨d, none, false⟩)
      (I := fun s => s.stray = false) rfl rfl h
    exact hend (.ok writer) rfl writer rfl
  | append _ hrun ih => exact (ih.append_runs hrun).2 _ _ rfl

/-- No append ever writes to a handle that is not open. While nothing happens behind the back
of the size counter, the counter is the size of the current segment, and a segment that the
writer has written to is not too long, or it holds a single record. -/
theorem fileSize_exact (maxFileBytes : Nat) (d : Disk) :
    (∀ writer s payload p s', Written False maxFileBytes d (writer, s) →
      Prog.Runs (hostMachine False s.disk) (writer.append payload, s) (p, s') → s'.stray = false) ∧
    ∀ writer s, Written True maxFileBytes d (writer, s) → writer.Sized s.disk ∧
      ∀ f, s.disk.content f = d.content f ∨ Within maxFileBytes (s.disk.content f) := by
  refine ⟨fun writer s payload p s' hg hrun => ?_, fun writer s hg => ?_⟩
  · exact (hg.consistent.append_runs hrun).1
  · exact ⟨hg.consistent.sized trivial, hg.consistent.within trivial⟩

end Rules

section Examples

/-- The operations go as `exec` says. -/
def hostExec (torn : Option Nat) {α : Type} (o : Op α) (s : Host) : Option (Except String α × Host) :=
  (exec torn o s.disk).map fun (r, d') =>
    (r, ⟨d', handleAfter o r s.handle, s.stray || strays o s.handle⟩)

theorem hostExec_step {torn : Option Nat} {harmless : Prop} {base : Disk}
    (h : harmless → torn = none) {α : Type} (o : Op α) (s : Host) (r : Except String α) (s' : Host)
    (hexec : hostExec torn o s = some (r, s')) : (hostMachine harmless base).step o s r s' := by
  obtain ⟨⟨r', d'⟩, hd, he⟩ := Option.map_eq_some_iff.mp hexec
  obtain ⟨rfl, rfl⟩ := Prod.mk.inj he
  have heffect : Effect True Unused o s.disk r' d' := exec_effect (.inr trivial) o r' hd
  refine ⟨?_, fun hh => ?_, rfl, rfl⟩
  · cases o with
    | openSegment path =>
      rcases heffect with ⟨-, h⟩ | h
      · exact .inl ⟨trivial, h⟩
      · exact .inr h
    | _ => exact heffect
  · rw [h hh] at hd
    cases o with
    | openSegment path =>
      intro hr
      by_cases hpath : path ∈ s.disk.walDir
      · simp [exec, hpath] at hd
      · exact Disk.content_of_unused hpath
    | write path data =>
      intro e he
      by_cases hdata : data = []
      · simp [exec, hdata] at hd
      · simp [exec, hdata, he] at hd
    | fsync path => exact (Prod.mk.inj (Option.some.inj hd)).1.symm
    | _ => trivial

theorem hostExec_runs {torn : Option Nat} {harmless : Prop} {base : Disk}
    (h : harmless → torn = none) (n : Nat) {α : Type} (c : Call α × Host) :
    Prog.Runs (hostMachine harmless base) c (Prog.follow (hostExec torn) n c) :=
  Prog.follow_runs (hostExec_step h) n c

def firstSegment : Host :=
  ⟨⟨AList.insert "wal-1-0.wal" [] ∅, 1⟩, some "wal-1-0.wal", false⟩

def firstWriter : WalWriter := ⟨20, "wal-1-0.wal", 0, true⟩

theorem written_firstSegment {harmless : Prop} :
    Written harmless 20 ⟨∅, 0⟩ (firstWriter, firstSegment) :=
  .construct (hostExec_runs (fun _ => rfl) 10 _)

theorem fileSize_exact_one :
    (Prog.follow (hostExec none) 30 (firstWriter.append [4], firstSegment)).2.stray = false ∧
    WalWriter.Sized ⟨20, "wal-1-0.wal", 9, true⟩
      (firstSegment.disk.append "wal-1-0.wal" (encodeRecord [4])) := by
  have happend : Written True 20 ⟨∅, 0⟩ (⟨20, "wal-1-0.wal", 9, true⟩,
      ⟨firstSegment.disk.append "wal-1-0.wal" (encodeRecord [4]), some "wal-1-0.wal", false⟩) :=
    .append written_firstSegment (hostExec_runs (fun _ => rfl) 30 (firstWriter.append [4], firstSegment))
  exact ⟨(fileSize_exact 20 ⟨∅, 0⟩).1 _ _ _ _ _ written_firstSegment
      (hostExec_runs (fun h => h.elim) 30 _),
    ((fileSize_exact 20 ⟨∅, 0⟩).2 _ _ happend).1⟩

/-- The headers of failed appends, one behind the other. -/
def tornSegment (n : Nat) : Host :=
  { firstSegment with
    disk := ⟨AList.insert "wal-1-0.wal" (List.replicate n ((encodeRecord [4]).take 8)).flatten ∅, 1⟩ }

theorem written_tornSegment : Written False 20 ⟨∅, 0⟩ (firstWriter, tornSegment 3) := by
  have hone : Written False 20 ⟨∅, 0⟩ (firstWriter, tornSegment 1) := .append written_firstSegment
    (@hostExec_runs (some 8) _ _ (fun h => h.elim) 30 _ (firstWriter.append [4], firstSegment))
  have htwo : Written False 20 ⟨∅, 0⟩ (firstWriter, tornSegment 2) := .append hone
    (@hostExec_runs (some 8) _ _ (fun h => h.elim) 30 _ (firstWriter.append [4], tornSegment 1))
  exact .append htwo
    (@hostExec_runs (some 8) _ _ (fun h => h.elim) 30 _ (firstWriter.append [4], tornSegment 2))

/-- Three appends that fail after their headers have been written: the counter stays at zero,
and the segment grows past its limit. -/
theorem not_fileSize_exact : ∃ writer s, Written False 20 ⟨∅, 0⟩ (writer, s) ∧
    ¬writer.Sized s.disk ∧ ∃ f, s.disk.content f ≠ [] ∧ ¬Within 20 (s.disk.content f) := by
  have hcontent : (tornSegment 3).disk.content "wal-1-0.wal" =
      (List.replicate 3 ((encodeRecord [4]).take 8)).flatten := by decide +kernel
  refine ⟨firstWriter, tornSegment 3, written_tornSegment, fun h => ?_, "wal-1-0.wal", ?_, fun h => ?_⟩
  · have hsize := h rfl
    rw [show firstWriter.currentPath = "wal-1-0.wal" from rfl, hcontent] at hsize
    revert hsize
    decide +kernel
  · rw [hcontent]
    decide +kernel
  · rw [hcontent] at h
    rcases h with h | ⟨payload, h⟩
    · revert h
      decide +kernel
    · -- the first header announces one byte, and sixteen follow
      have hlength := congrArg List.length h
      have hheader : unpackHeader ((List.replicate 3 ((encodeRecord [4]).take 8)).flatten.take headerSize) =
          (payload.length % 2 ^ 32, (crc32 payload).toNat) := by
        rw [h, encodeRecord, List.take_left' (writeLittleEndian_length _ _), unpackHeader_write,
          BitVec.toNat_ofNat]
      rw [encodeRecord_length] at hlength
      have hlen : payload.length = 16 := by
        have h24 : (List.replicate 3 ((encodeRecord [4]).take 8)).flatten.length = 24 := by decide +kernel
        rw [h24] at hlength
        simp only [headerSize] at hlength
        omega
      have hone : (unpackHeader
          ((List.replicate 3 ((encodeRecord [4]).take 8)).flatten.take headerSize)).1 = 1 := by decide +kernel
      rw [hheader, hlen] at hone
      cases hone

end Examples

end Lrcp.Gateway
