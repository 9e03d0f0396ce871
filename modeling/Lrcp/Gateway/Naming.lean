import Lrcp.Gateway.WalWriter

namespace Lrcp.Gateway

open Lrcp.Framework Lrcp.Wal

/-- The gateway over its restarts, with others who delete segments it no longer writes. -/
structure Writing where
  disk : Disk
  writer : Option WalWriter

/-- The writer has the segment open, and no segment that a gateway has named has a
larger key. -/
def Newest (path : String) (d : Disk) : Prop :=
  path ∈ d.walDir ∧ ∀ now sequence, segmentName now sequence ∈ d.walDir →
    parseWalKey (segmentName now sequence) ≤ parseWalKey path

/-- A segment is named after a clock reading that is neither negative nor below
that of a segment in the directory; among equal readings the counter decides. -/
def InOrder (walDir : Table Bytes) (path : String) : Prop :=
  ∃ (now : Int) (sequence : Nat), path = segmentName now sequence ∧ 0 ≤ now ∧
    ∀ now' sequence', segmentName now' sequence' ∈ walDir →
      0 ≤ now' ∧ (now' < now ∨ now' = now ∧ sequence' ≤ sequence)

/-- One event: a process starts, appends, or stops at any point of either, and
segments are deleted. `New` restricts the names under which segments are opened. -/
inductive Writing.Step (maxFileBytes : Nat) (New : Table Bytes → String → Prop) :
    Writing → Writing → Prop
  | restart {d d' writer} (hrun : Prog.Runs (machine True New)
      (WalWriter.construct maxFileBytes, { d with sequence := 0 }) (.ret writer, d')) :
      Step maxFileBytes New ⟨d, none⟩ ⟨d', some writer⟩
  | restartStopped {d d' p} (hrun : Prog.Runs (machine True New)
      (WalWriter.construct maxFileBytes, { d with sequence := 0 }) (p, d')) :
      Step maxFileBytes New ⟨d, none⟩ ⟨d', none⟩
  | append {d d' writer writer' payload result} (hrun : Prog.Runs (machine True New)
      (writer.append payload, d) (.ret (writer', result), d')) :
      Step maxFileBytes New ⟨d, some writer⟩ ⟨d', some writer'⟩
  | stopped {d d' writer payload p} (hrun : Prog.Runs (machine True New)
      (writer.append payload, d) (p, d')) :
      Step maxFileBytes New ⟨d, some writer⟩ ⟨d', none⟩
  | delete {d writer f} (hf : ∀ w, writer = some w → f ≠ w.currentPath) :
      Step maxFileBytes New ⟨d, writer⟩ ⟨{ d with walDir := d.walDir.erase f }, writer⟩

/-- The segment being written is the last one in the order in which the reader sorts them. -/
def Writing.WritesLast (g : Writing) : Prop :=
  ∀ writer, g.writer = some writer → writer.handle = true → Newest writer.currentPath g.disk

section Newest

variable {d d' : Disk} {path : String}

theorem Newest.of_keys (h : Newest path d) (hkeys : ∀ f, f ∈ d'.walDir ↔ f ∈ d.walDir) :
    Newest path d' :=
  ⟨(hkeys path).mpr h.1, fun now sequence hf => h.2 now sequence ((hkeys _).mp hf)⟩

theorem Newest.append (h : Newest path d) (data : Bytes) : Newest path (d.append path data) := by
  apply h.of_keys
  intro f
  rw [Disk.append, AList.mem_insert]
  constructor
  · rintro (rfl | hf)
    · exact h.1
    · exact hf
  · exact fun hf => .inr hf

/-- A segment opened in order is the last one. -/
theorem InOrder.newest (h : InOrder d.walDir path) : Newest path (d.create path) := by
  obtain ⟨now, sequence, rfl, hnow, hall⟩ := h
  obtain ⟨n, rfl⟩ := Int.eq_ofNat_of_zero_le hnow
  refine ⟨(AList.mem_insert _).mpr (.inl rfl), fun now' sequence' hf => ?_⟩
  rcases (AList.mem_insert _).mp hf with heq | hf
  · rw [heq]
  · obtain ⟨hnow', horder⟩ := hall now' sequence' hf
    obtain ⟨n', rfl⟩ := Int.eq_ofNat_of_zero_le hnow'
    rw [parseWalKey_segmentName, parseWalKey_segmentName, Prod.Lex.toLex_le_toLex]
    rcases horder with hlt | ⟨heq, hle⟩
    · exact .inl (by exact_mod_cast hlt)
    · obtain rfl : n' = n := by exact_mod_cast heq
      refine .inr ⟨rfl, ?_⟩
      rw [Prod.Lex.toLex_le_toLex]
      rcases Nat.lt_or_eq_of_le hle with hlt | rfl
      · exact .inl hlt
      · exact .inr ⟨rfl, le_rfl⟩

theorem construct_newest {maxFileBytes : Nat} {writer : WalWriter}
    (h : Prog.Runs (machine True InOrder) (WalWriter.construct maxFileBytes, d) (.ret writer, d')) :
    Newest writer.currentPath d' := by
  have htriple : Triple (machine True InOrder) Eq (fun _ _ => True) (fun x => x = d)
      (WalWriter.construct maxFileBytes) fun r x => ∀ writer, r = .ok writer →
        Newest writer.currentPath x := by
    unfold WalWriter.construct
    apply Triple.bind (openNewSegment_triple (K := Newest) (fun _ => trivial) (fun _ => trivial)
      (fun _ _ _ _ => trivial) fun x path _ hnew => hnew.newest)
    · intro result
      obtain ⟨writer, opened⟩ := result
      cases opened with
      | error error =>
        apply Triple.raise
        intro x _ w hw
        cases hw
      | ok _ =>
        apply Triple.ret
        intro x hx w hw
        obtain ⟨_, _, e, -, -, hx⟩ := hx
        obtain ⟨rfl, rfl⟩ := Prod.mk.inj (Except.ok.inj e)
        obtain rfl := Except.ok.inj hw
        exact hx.2.1
    · intro e x _ w hw
      cases hw
  obtain ⟨-, hpost⟩ := htriple.runs (I := fun _ => True) rfl trivial h
  exact hpost (.ok writer) rfl writer rfl

/-- Whatever an append answers: if it leaves a handle open, that segment is the last one. -/
theorem append_newest {writer writer' : WalWriter} {payload : Bytes} {result : Except String Unit}
    (hK : writer.handle = true → Newest writer.currentPath d)
    (h : Prog.Runs (machine True InOrder) (writer.append payload, d) (.ret (writer', result), d')) :
    writer'.handle = true → Newest writer'.currentPath d' := by
  have htriple := @append_triple True InOrder (fun _ _ => True) Newest writer payload d
    (fun _ => trivial) (fun _ => trivial) (fun _ _ _ _ => trivial) (fun x path _ hnew => hnew.newest)
    (fun path x data hx => hx.append data) (fun _ _ _ _ _ _ _ _ => trivial)
  obtain ⟨-, hpost⟩ := htriple.runs (I := fun _ => True) ⟨rfl, hK⟩ trivial h
  obtain ⟨_, _, e, -, hnewest, -⟩ := hpost (.ok (writer', result)) rfl
  obtain ⟨rfl, rfl⟩ := Prod.mk.inj (Except.ok.inj e)
  exact hnewest

end Newest

theorem Writing.Step.keepsLast {maxFileBytes : Nat} {g g' : Writing}
    (h : Writing.Step maxFileBytes InOrder g g') (hg : g.WritesLast) : g'.WritesLast := by
  intro w hw hhandle
  cases h with
  | restart hrun =>
    obtain rfl := Option.some.inj hw
    exact construct_newest hrun
  | restartStopped hrun => cases hw
  | @append d d' writer writer' payload result hrun =>
    obtain rfl := Option.some.inj hw
    exact append_newest (hg writer rfl) hrun hhandle
  | stopped hrun => cases hw
  | @delete d writer f hf =>
    have hnewest := hg w hw hhandle
    refine ⟨(AList.mem_erase).mpr ⟨(hf w hw).symm, hnewest.1⟩, fun now sequence hmem => ?_⟩
    exact hnewest.2 now sequence (AList.mem_erase.mp hmem).2

/-- In every run whose segments are opened in the order of clock readings, the
segment being written is the last one. -/
theorem writesLast (maxFileBytes : Nat) (d : Disk) (g : Writing)
    (h : Relation.ReflTransGen (Writing.Step maxFileBytes InOrder) ⟨d, none⟩ g) : g.WritesLast := by
  induction h with
  | refl => exact fun w hw => by cases hw
  | tail _ hstep ih => exact hstep.keepsLast ih

/-- The writer of a new process whose clock reads `now`, and the segment it opens. -/
theorem construct_at {New : Table Bytes → String → Prop} {d : Disk} (now : Int) (maxFileBytes : Nat)
    (h : New d.walDir (segmentName now d.sequence)) :
    Prog.Runs (machine True New) (WalWriter.construct maxFileBytes, d)
      (.ret ⟨maxFileBytes, segmentName now d.sequence, 0, true⟩,
        Disk.create { d with sequence := d.sequence + 1 } (segmentName now d.sequence)) := by
  have hnow : (machine True New).step .now d (.ok now) d := ⟨now, rfl, rfl⟩
  have hsequence : (machine True New).step .fetchAdd d (.ok d.sequence) { d with sequence := d.sequence + 1 } :=
    ⟨rfl, rfl⟩
  have hopen : (machine True New).step (.openSegment (segmentName now d.sequence))
      { d with sequence := d.sequence + 1 } (.ok ())
      (Disk.create { d with sequence := d.sequence + 1 } (segmentName now d.sequence)) :=
    .inl ⟨h, rfl, rfl⟩
  exact .head (.call hnow) (.head (.call hsequence)
    (.single (.call hopen)))

/-- The clock reads 1 when the first process starts and 2 when the second one does. -/
theorem writesLast_restarted : Writing.WritesLast
    ⟨Disk.create ⟨(Disk.create ⟨∅, 1⟩ "wal-1-0.wal").walDir, 1⟩ "wal-2-0.wal",
      some ⟨100, "wal-2-0.wal", 0, true⟩⟩ := by
  apply writesLast 100 ⟨∅, 0⟩
  have hfirst := @construct_at InOrder ⟨∅, 0⟩ 1 100
    ⟨1, 0, rfl, by decide, fun _ _ h => absurd h (AList.notMem_empty _)⟩
  have hsecond := @construct_at InOrder ⟨(Disk.create ⟨∅, 1⟩ "wal-1-0.wal").walDir, 0⟩ 2 100 (by
    refine ⟨2, 0, rfl, by decide, fun now sequence h => ?_⟩
    rcases (AList.mem_insert _).mp h with heq | h
    · have hname : segmentName (1 : Nat) 0 = "wal-1-0.wal" := rfl
      obtain ⟨rfl, rfl⟩ := segmentName_inj (heq.trans hname.symm)
      exact ⟨by decide, .inl (by decide)⟩
    · exact absurd h (AList.notMem_empty _))
  refine .tail (.tail (.single (.restart hfirst)) ?_) (.restart hsecond)
  exact @Writing.Step.stopped 100 InOrder _ _ _ [] _ .refl

/-- The clock reads 2 when the first process starts and 1 when the second one
does: the segment being written sorts before the other. -/
theorem not_writesLast : ∃ g, Relation.ReflTransGen (Writing.Step 100 Unused) ⟨⟨∅, 0⟩, none⟩ g ∧
    g.disk.walDir.keys = ["wal-1-0.wal", "wal-2-0.wal"] ∧ ¬g.WritesLast := by
  refine ⟨⟨Disk.create ⟨(Disk.create ⟨∅, 1⟩ "wal-2-0.wal").walDir, 1⟩ "wal-1-0.wal",
    some ⟨100, "wal-1-0.wal", 0, true⟩⟩, ?_, by decide, fun h => ?_⟩
  · have hfirst := @construct_at Unused ⟨∅, 0⟩ 2 100 (AList.notMem_empty _)
    have hsecond := @construct_at Unused
      ⟨(Disk.create ⟨∅, 1⟩ "wal-2-0.wal").walDir, 0⟩ 1 100 (by unfold Unused; decide)
    refine .tail (.tail (.single (.restart hfirst)) ?_) (.restart hsecond)
    exact @Writing.Step.stopped 100 Unused _ _ _ [] _ .refl
  · have hlast := (h _ rfl rfl).2 2 0 (by decide)
    revert hlast
    decide

end Lrcp.Gateway
