import Lrcp.Gateway.WalWriter

namespace Lrcp.Gateway

open Lrcp.Framework Lrcp.Wal

/-- The gateway over its restarts: its disk, the writer of the process that runs,
if one does, and the payloads for which `append` has returned true, each with the
segment it was written to. -/
structure Service where
  disk : Disk
  writer : Option WalWriter
  acknowledged : List (String × Bytes)

/-- The reader yields a record with this payload when it reads the segment from its start. -/
def Disk.Yields (d : Disk) (limit : Nat) (path : String) (payload : Bytes) : Prop :=
  ∃ r ∈ (walRecordsFrom path (d.content path) 0 limit).1, r.payload = payload

/-- The reader gets to the end of the segment without an error. -/
def Disk.ReadsToEnd (d : Disk) (limit : Nat) (path : String) : Prop :=
  (walRecordsFrom path (d.content path) 0 limit).2 = none

/-- One event in the life of the gateway. `Allowed` restricts the successful
appends by the disk, the writer and the payload they start from. -/
inductive Service.Step (maxFileBytes : Nat) (Allowed : Disk → WalWriter → Bytes → Prop) :
    Service → Service → Prop
  /-- a new process with its first segment -/
  | restart {d d' acks writer} (hrun : Prog.Runs (machine True Unused)
      (WalWriter.construct maxFileBytes, { d with sequence := 0 }) (.ret writer, d')) :
      Step maxFileBytes Allowed ⟨d, none, acks⟩ ⟨d', some writer, acks⟩
  /-- a new process that ends before it has its first segment -/
  | restartStopped {d d' acks p} (hrun : Prog.Runs (machine True Unused)
      (WalWriter.construct maxFileBytes, { d with sequence := 0 }) (p, d')) :
      Step maxFileBytes Allowed ⟨d, none, acks⟩ ⟨d', none, acks⟩
  /-- an append that returns true -/
  | append {d d' acks writer writer' payload} (hallowed : Allowed d writer payload)
      (hrun : Prog.Runs (machine True Unused) (writer.append payload, d) (.ret (writer', .ok ()), d')) :
      Step maxFileBytes Allowed ⟨d, some writer, acks⟩
        ⟨d', some writer', acks ++ [(writer'.currentPath, payload)]⟩
  /-- an append that returns false -/
  | appendFailed {d d' acks writer writer' payload error} (hrun : Prog.Runs (machine True Unused)
      (writer.append payload, d) (.ret (writer', .error error), d')) :
      Step maxFileBytes Allowed ⟨d, some writer, acks⟩ ⟨d', some writer', acks⟩
  /-- the process stops at some point of an append -/
  | stopped {d d' acks writer payload p} (hrun : Prog.Runs (machine True Unused)
      (writer.append payload, d) (p, d')) :
      Step maxFileBytes Allowed ⟨d, some writer, acks⟩ ⟨d', none, acks⟩

/-- A run of the gateway from a directory in which it has not written yet. -/
def Service.Reach (maxFileBytes : Nat) (Allowed : Disk → WalWriter → Bytes → Prop) (d : Disk)
    (g : Service) : Prop :=
  Relation.ReflTransGen (Service.Step maxFileBytes Allowed) ⟨d, none, []⟩ g

/-- An append of an admissible payload that does not open a new segment finds the
current one free of torn, empty and oversized records. -/
def AppendsCleanly (limit : Nat) (d : Disk) (writer : WalWriter) (payload : Bytes) : Prop :=
  payload ≠ [] → payload.length ≤ limit → writer.rotates (8 + payload.length) = false →
    d.ReadsToEnd limit writer.currentPath

theorem Disk.yields_iff {d : Disk} {limit : Nat} {path : String} {payload : Bytes} :
    d.Yields limit path payload ↔ ∃ r, HasRecord limit (d.content path) r ∧ r.payload = payload := by
  simp only [Disk.Yields, mem_walRecordsFrom]

theorem Disk.Yields.grow {d d' : Disk} {limit : Nat} {path : String} {payload : Bytes}
    (h : d.Yields limit path payload) (hd : d.Grows d') : d'.Yields limit path payload := by
  obtain ⟨r, hr, hp⟩ := Disk.yields_iff.mp h
  exact Disk.yields_iff.mpr ⟨r, hr.grow (hd path), hp⟩

/-- A record appended at the clean end of a segment is one the reader yields. -/
theorem hasRecord_append {limit : Nat} {data payload : Bytes} (hne : payload ≠ [])
    (hlimit : payload.length ≤ limit) (h32 : payload.length < 2 ^ 32)
    (hclean : Boundary limit data data.length) :
    HasRecord limit (data ++ encodeRecord payload)
      ⟨data.length, data.length + headerSize + payload.length, payload⟩ := by
  refine ⟨hclean.grow (List.prefix_append _ _), hne, hlimit, h32, rfl, ?_⟩
  rw [List.drop_append_of_le_length (Nat.le_refl _), List.drop_length, List.nil_append]

/-- As long as no append goes behind a record that the reader rejects, every
acknowledged payload is yielded, whatever fails and wherever the process stops. -/
theorem acknowledged_yielded (maxFileBytes limit : Nat) (d : Disk) (g : Service)
    (hg : Service.Reach maxFileBytes (AppendsCleanly limit) d g) :
    ∀ entry ∈ g.acknowledged, entry.2 ≠ [] → entry.2.length ≤ limit →
      g.disk.Yields limit entry.1 entry.2 := by
  induction hg with
  | refl => simp
  | tail _ hstep ih =>
    cases hstep with
    | @restart d d' acks writer hrun =>
      intro entry he hne hl
      have hgrow : Disk.Grows { d with sequence := 0 } d' := grows_of_runs hrun
      exact (ih entry he hne hl).grow hgrow
    | @restartStopped d d' acks p hrun =>
      intro entry he hne hl
      have hgrow : Disk.Grows { d with sequence := 0 } d' := grows_of_runs hrun
      exact (ih entry he hne hl).grow hgrow
    | @append d d' acks writer writer' payload hallowed hrun =>
      intro entry he hne hl
      rcases List.mem_append.mp he with he | he
      · exact (ih entry he hne hl).grow (grows_of_runs hrun)
      obtain rfl := List.mem_singleton.mp he
      obtain ⟨h32, -, hpath, hcontent⟩ := (append_runs hrun).2 rfl
      have hclean : Boundary limit (d.content writer'.currentPath)
          (d.content writer'.currentPath).length := by
        rcases hpath with ⟨hrot, hpath⟩ | hnew
        · rw [hpath]
          exact walRecordsFrom_clean.mp (hallowed hne hl hrot)
        · rw [Disk.content_of_unused hnew]
          exact Boundary.zero
      have hrecord := hasRecord_append hne hl h32 hclean
      rw [← hcontent] at hrecord
      exact Disk.yields_iff.mpr ⟨_, hrecord, rfl⟩
    | appendFailed hrun =>
      intro entry he hne hl
      exact (ih entry he hne hl).grow (grows_of_runs hrun)
    | stopped hrun =>
      intro entry he hne hl
      exact (ih entry he hne hl).grow (grows_of_runs hrun)

/-- The disk is full when a first payload is to be written, and not when a second one is. -/
theorem acknowledged_yielded_retried :
    (Disk.append ⟨AList.insert "wal-1-0.wal" [] ∅, 1⟩ "wal-1-0.wal" (encodeRecord [4])).Yields 64
      "wal-1-0.wal" [4] := by
  let writer : WalWriter := ⟨100, "wal-1-0.wal", 0, true⟩
  let opened : Disk := ⟨AList.insert "wal-1-0.wal" [] ∅, 1⟩
  let full : Disk := opened.append "wal-1-0.wal" (encodeRecord [4])
  have hstart : Service.Step 100 (AppendsCleanly 64) ⟨⟨∅, 0⟩, none, []⟩ ⟨opened, some writer, []⟩ :=
    .restart (exec_runs none (.inl rfl) 10 _)
  have hfail : Service.Step 100 (AppendsCleanly 64) ⟨opened, some writer, []⟩ ⟨opened, some writer, []⟩ :=
    .appendFailed (exec_runs (some 0) (.inr trivial) 20 (writer.append [1, 2, 3], opened))
  have happend : Service.Step 100 (AppendsCleanly 64) ⟨opened, some writer, []⟩
      ⟨full, some { writer with currentFileSize := 9 }, [("wal-1-0.wal", [4])]⟩ :=
    .append (fun _ _ _ => by unfold Disk.ReadsToEnd; decide)
      (exec_runs none (.inl rfl) 20 (writer.append [4], opened))
  exact acknowledged_yielded 100 64 ⟨∅, 0⟩ _ (.tail (.tail (.single hstart) hfail) happend)
    ("wal-1-0.wal", [4]) (by simp) (by decide) (by decide)

/-- Five bytes of a header reach the segment, then the disk is full; the next
append goes behind them, returns true, and the reader never gets to it. -/
theorem acknowledged_not_yielded :
    ¬ ∀ (maxFileBytes limit : Nat) (d : Disk) (g : Service),
      Service.Reach maxFileBytes (fun _ _ _ => True) d g →
      ∀ entry ∈ g.acknowledged, entry.2 ≠ [] → entry.2.length ≤ limit →
        g.disk.Yields limit entry.1 entry.2 := by
  intro h
  let writer : WalWriter := ⟨100, "wal-1-0.wal", 0, true⟩
  let opened : Disk := ⟨AList.insert "wal-1-0.wal" [] ∅, 1⟩
  let torn : Disk := opened.append "wal-1-0.wal" [3, 0, 0, 0, 0x1d]
  let full : Disk := torn.append "wal-1-0.wal" (encodeRecord [4])
  have hstart : Service.Step 100 (fun _ _ _ => True) ⟨⟨∅, 0⟩, none, []⟩ ⟨opened, some writer, []⟩ :=
    .restart (exec_runs none (.inl rfl) 10 _)
  have hfail : Service.Step 100 (fun _ _ _ => True) ⟨opened, some writer, []⟩
      ⟨torn, some writer, []⟩ := .appendFailed (exec_runs (some 5) (.inr trivial) 20 (writer.append [1, 2, 3], opened))
  have happend : Service.Step 100 (fun _ _ _ => True) ⟨torn, some writer, []⟩
      ⟨full, some { writer with currentFileSize := 9 }, [("wal-1-0.wal", [4])]⟩ :=
    .append trivial (exec_runs none (.inl rfl) 20 (writer.append [4], torn))
  have hrun : Service.Reach 100 (fun _ _ _ => True) ⟨∅, 0⟩ _ :=
    .tail (.tail (.single hstart) hfail) happend
  obtain ⟨r, hr, -⟩ := h 100 64 _ _ hrun ("wal-1-0.wal", [4]) (by simp) (by decide) (by decide)
  have hnone : (walRecordsFrom "wal-1-0.wal" (full.content "wal-1-0.wal") 0 64).1 = [] := by decide
  rw [hnone] at hr
  cases hr

end Lrcp.Gateway
