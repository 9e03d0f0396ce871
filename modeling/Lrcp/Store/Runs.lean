import Lrcp.Store.Growth
import Lrcp.Store.Sequential

namespace Lrcp.Store

open Lrcp.Wal Lrcp.Otlp Lrcp.Framework

/-- The calls under the lifecycle lock, with the thread that makes them. -/
inductive IsCall (libs : Libs) : Thread → Settings → {α : Type} → Call α → Prop
  | materialize {t settings} (hsize : 0 < settings.materializeBatchSize) :
      IsCall libs t settings (materialize libs settings t)
  | compact {t settings} (maxFilesToMerge : Nat) :
      IsCall libs t settings (compactParquetFiles t maxFilesToMerge)
  | cleanup {t settings} : IsCall libs t settings (cleanupMaterializedWalFiles t)
  | orphans {t settings} :
      IsCall libs t settings (storageLifecycleLock t cleanupOrphanedParquetFiles)

section Calls

variable {libs : Libs} {settings : Settings} {Allowed : Guard} {t : Thread}
  {R G : World → World → Prop} {I : World → Progress → Prop} {α : Type}
  {Bad : String → WalCorruptionError → Bytes → Prop}

/-- Every call is a body under the lock. The body keeps what the discipline asserts, and
leaves nothing in the batch. -/
theorem IsCall.body {p : Call α} (hp : IsCall libs t settings p) (hlibs : FreshNames libs) :
    ∃ body : Call α, p = storageLifecycleLock t body ∧ ∀ c, c.owner = t →
      Discipline libs settings Allowed c R G I Bad →
        Triple (guarded libs settings Allowed) R G (At libs c I {} fun _ => True) body
          fun r w => ∃ p, At libs c I p (fun _ => ∀ a, r = .ok a → p.batch.rows = []) w := by
  have hidle : ∀ {c : Conn} {r : Except PyError α} w, At libs c I {} (fun _ => True) w →
      ∃ p, At libs c I p (fun _ => ∀ a, r = .ok a → p.batch.rows = []) w :=
    fun w hw => ⟨{}, hw.1, hw.2.1, fun _ _ => rfl⟩
  cases hp with
  | materialize hsize =>
    refine ⟨_, rfl, fun c hc D => ?_⟩
    have hbody := D.materializeAll_triple hlibs hsize (fun _ => 0) fun _ => False
    rw [hc] at hbody
    apply hbody.conseq
    · exact fun w hw => ⟨hw.1, hw.2.1, fun _ => Nat.zero_le _, fun _ h => h.elim⟩
    · intro r w hw
      cases r with
      | error e =>
        obtain ⟨p, hin, hI, -⟩ := hw
        exact ⟨p, hin, hI, fun a h => by cases h⟩
      | ok total =>
        obtain ⟨p, hnil, -, hin, hI, -⟩ := hw
        exact ⟨p, hin, hI, fun _ _ => hnil⟩
  | compact n => exact ⟨_, rfl, fun c _ D => (D.compactCommitted_triple hlibs n).post fun _ => hidle⟩
  | cleanup => exact ⟨_, rfl, fun c _ D => (D.cleanupSealed_triple rfl).post fun _ => hidle⟩
  | orphans =>
    exact ⟨_, rfl, fun c _ D => (D.cleanupOrphaned_triple (fun _ _ _ _ => trivial)
      fun _ _ _ _ => trivial).post fun _ => hidle⟩

/-- Every call keeps what the discipline asserts, and leaves nothing in the batch. -/
theorem Encloses.call_triple (L : Encloses libs t R G I)
    (D : ∀ c, c.owner = t → Discipline libs settings Allowed c R G I Bad) (hlibs : FreshNames libs)
    {p : Call α} (hp : IsCall libs t settings p) :
    Triple (guarded libs settings Allowed) R G (Ready libs I fun _ => True) p
      (Finished libs I fun _ _ p => p.batch.rows = []) := by
  obtain ⟨body, rfl, hbody⟩ := hp.body hlibs
  apply L.lock_triple (fun _ _ _ h => h) (fun _ _ _ h => h) (fun _ _ _ _ _ h => h)
    fun _ _ _ _ _ h => h
  exact fun c hc => hbody c hc (D c hc)

end Calls

/-- A directory with any bytes in its segments and with new databases. -/
structure Initial (libs : Libs) (w : World) : Prop where
  fresh : Fresh libs w
  control : w.control = .empty
  exclusive : w.exclusive = none
  rlock : ∀ process, w.rlock process = none
  history : w.history = ⟨∅, [], false⟩

/-- A new store whose segments are those of `walDir`. -/
def World.ofSegments (walDir : Table Bytes) : World where
  walDir := walDir
  parquetDir := ∅
  control := .empty
  exclusive := none
  connections := 0
  rlock _ := none
  stamps := 0
  history := ⟨∅, [], false⟩

theorem initial_ofSegments (libs : Libs) (walDir : Table Bytes) : Initial libs (.ofSegments walDir) where
  fresh :=
    { unused := fun _ _ f _ => ⟨AList.notMem_empty f, AList.notMem_empty f⟩
      manifest := fun f hf => absurd hf (AList.notMem_empty f) }
  control := rfl
  exclusive := rfl
  rlock _ := rfl
  history := rfl

/-- The states between the calls of a run: one call at a time, with the gateway at
work in between. A call returns, or it stops at any operation, by an exception or
because its process is killed, in a state that `Stop` admits. -/
inductive Reachable (libs : Libs) (M : Nat) (Stop : World → Prop) : World → Prop
  | start {w} (h : Initial libs w) : Reachable libs M Stop w
  | gateway {w w'} (h : Reachable libs M Stop w) (hs : GatewayStep w w') : Reachable libs M Stop w'
  | returned {w w' t settings} {α : Type} {p : Call α} {a : α} (h : Reachable libs M Stop w)
      (hp : IsCall libs t settings p) (hM : settings.maxWalRecordBytes = M)
      (hr : Prog.Runs (faulty libs settings) (p, w) (.ret a, w')) : Reachable libs M Stop w'
  | stopped {w w' t settings} {α : Type} {p q : Call α} (h : Reachable libs M Stop w)
      (hp : IsCall libs t settings p) (hM : settings.maxWalRecordBytes = M)
      (hr : Prog.Runs (faulty libs settings) (p, w) (q, w')) (hs : Stop w') :
      Reachable libs M Stop (w'.crash t)

/-- The states of a run, in the middle of a call too. -/
inductive Observed (libs : Libs) (M : Nat) (Stop : World → Prop) : World → Prop
  | rest {w} (h : Reachable libs M Stop w) : Observed libs M Stop w
  | during {w w' t settings} {α : Type} {p q : Call α} (h : Reachable libs M Stop w)
      (hp : IsCall libs t settings p) (hM : settings.maxWalRecordBytes = M)
      (hr : Prog.Runs (faulty libs settings) (p, w) (q, w')) : Observed libs M Stop w'

section Calls

variable {libs : Libs} {settings : Settings} {complete tracked : Prop} {o : Origin} {t : Thread}
  {C : List Entry} {w w' : World} {α : Type} {d : Table Bytes}

theorem Ended.mono {M : Nat} {E E' : α → World → Progress → Prop} {r : Except PyError α}
    (h : Ended libs M complete tracked o E r w) (hE : ∀ a w p, E a w p → E' a w p) :
    Ended libs M complete tracked o E' r w := by
  obtain ⟨hfresh, hnone, p, hI, hres⟩ := h
  exact ⟨hfresh, hnone, p, hI, fun a ha => hE a w p (hres a ha)⟩

/-- What `materialize` has achieved when it returns: nothing is left in the batch,
the number returned is that of the rows committed, and every segment is
quarantined or has been read to its end. -/
structure Materialized (d : Table Bytes) (total : Nat) (w : World) (p : Progress) : Prop where
  empty : p.batch.rows = []
  total_eq : total = p.total
  finished : ∀ f, hasSuffix ".wal" f = true →
    f ∈ w.quarantined ∨ ((d.lookup f).getD []).length ≤ w.position p.batch f

theorem Relocked.materialized {total : Nat} {p : Progress} (h : Relocked w w')
    (hm : Materialized d total w p) : Materialized d total w' p := by
  obtain ⟨e, n, l, renamed, rfl⟩ := h
  exact ⟨hm.empty, hm.total_eq, hm.finished⟩

/-- `materialize` keeps what the discipline asserts, and gets done with every segment. -/
theorem Encloses.materialize_triple {Allowed : Guard} {G : World → World → Prop}
    {I : World → Progress → Prop} {Bad : String → WalCorruptionError → Bytes → Prop}
    (L : Encloses libs t Eq G I)
    (D : ∀ c, c.owner = t → Discipline libs settings Allowed c Eq G I Bad) (hlibs : FreshNames libs)
    (hsize : 0 < settings.materializeBatchSize) :
    Triple (guarded libs settings Allowed) Eq G (Ready libs I fun w => w.walDir = d)
      (materialize libs settings t) (Finished libs I (Materialized d)) := by
  unfold materialize
  apply L.lock_triple (E := Materialized d)
  · intro w w' hR hd
    rw [← hR]
    exact hd
  · intro w w' hr hd
    obtain ⟨e, n, l, renamed, rfl⟩ := hr
    exact hd
  · intro a p w w' hR h
    rw [← hR]
    exact h
  · exact fun a p w w' h hm => h.materialized hm
  · intro c hc
    have hbody := (D c hc).materializeAll_triple hlibs hsize (fun f => ((d.lookup f).getD []).length) (· ∈ d)
    rw [hc] at hbody
    apply hbody.conseq
    · intro w hw
      obtain ⟨hin, hI, rfl⟩ := hw
      exact ⟨hin, hI, fun _ => Nat.le_refl _, fun _ h => h⟩
    · intro r w hw
      cases r with
      | error e =>
        obtain ⟨p, hin, hI, -⟩ := hw
        exact ⟨p, hin, hI, fun a h => by cases h⟩
      | ok total =>
        obtain ⟨p, hnil, htotal, hin, hI, hcaught⟩ := hw
        refine ⟨p, hin, hI, fun a h => ?_⟩
        obtain rfl := Except.ok.inj h
        refine ⟨hnil, htotal, fun f hf => ?_⟩
        by_cases hd : f ∈ d
        · exact hcaught.finished f hf hd
        · rw [AList.lookup_eq_none.mpr hd]
          exact .inr (Nat.zero_le _)

theorem materialize_triple (hlibs : FreshNames libs) (hsize : 0 < settings.materializeBatchSize) :
    Triple (guarded libs settings Unguarded) Eq
      (fun _ w' => Midway libs settings.maxWalRecordBytes complete tracked o t w')
      (Before libs settings.maxWalRecordBytes complete tracked o d) (materialize libs settings t)
      (Ended libs settings.maxWalRecordBytes complete tracked o (Materialized d)) :=
  kept_encloses.materialize_triple (fun _ hc => hc ▸ kept_discipline) hlibs hsize

/-- A call that starts outside the lock: what can be said when it has got to `w'`, and
when it has ended. -/
theorem Amid.runs {Allowed : Guard} {I : World → Progress → Prop} {F : World → Prop}
    {Q : Except PyError α → World → Prop} {p q : Call α}
    (hp : Triple (guarded libs settings Allowed) Eq (fun _ w' => Amid libs t I w') (Ready libs I F) p Q)
    (hw : Ready libs I F w) (hr : Prog.Runs (guarded libs settings Allowed) (p, w) (q, w')) :
    Amid libs t I w' ∧ ∀ r, q = .done r → Q r w' := by
  have hown : Own t w := by
    intro c hc
    rw [hw.2.1] at hc
    cases hc
  exact hp.runs (I := Amid libs t I) hw ⟨hw.1, hown, {}, hw.2.2.2⟩ hr

/-- A call that starts at rest: what can be said when it has got to `w'`, and when it has ended. -/
theorem Rest.runs {E : α → World → Progress → Prop} {p q : Call α}
    (h : Rest libs settings.maxWalRecordBytes complete tracked C w)
    (hp : Triple (guarded libs settings Unguarded) Eq
      (fun _ w' => Midway libs settings.maxWalRecordBytes complete tracked ⟨w.written, C⟩ t w')
      (Before libs settings.maxWalRecordBytes complete tracked ⟨w.written, C⟩ w.walDir) p
      (Ended libs settings.maxWalRecordBytes complete tracked ⟨w.written, C⟩ E))
    (hr : Prog.Runs (faulty libs settings) (p, w) (q, w')) :
    Midway libs settings.maxWalRecordBytes complete tracked ⟨w.written, C⟩ t w' ∧
      ∀ r, q = .done r →
        Ended libs settings.maxWalRecordBytes complete tracked ⟨w.written, C⟩ E r w' := by
  have hr' : Prog.Runs (guarded libs settings Unguarded) (p, w) (q, w') :=
    hr.mono (N := guarded libs settings Unguarded) fun _ _ _ _ hm => ⟨trivial, hm⟩
  exact Amid.runs hp ⟨h.fresh, h.unlocked, rfl, h.kept⟩ hr'

/-- The transaction of a killed call is rolled back. -/
theorem crash_exclusive (h : Own t w) : (w.crash t).exclusive = none := by
  obtain ⟨w', hw', hcrash⟩ := w.crash_cases t
  have hreleased : w'.exclusive = none := by
    rcases hw' with ⟨rfl, hothers⟩ | ⟨c, hex, -, rfl⟩
    · cases hex : w'.exclusive with
      | none => rfl
      | some c => exact absurd (h c hex).1 (hothers c hex)
    · rw [World.release, if_pos hex]
  rcases hcrash with ⟨heq, -⟩ | ⟨depth, -, heq⟩
  · rw [heq]
    exact hreleased
  · rw [heq]
    exact hreleased

end Calls

/-- An account of the records that every run keeps. When a call stops, what it has in
its batch is dropped. -/
structure Account (libs : Libs) (M : Nat) (Stop : World → Prop)
    (X : List Entry → List Entry → World → Progress → Prop) : Prop where
  bookkeeping : ∀ {settings o}, settings.maxWalRecordBytes = M → Bookkeeping libs settings Unguarded o X
  relocked : ∀ {C P w w' p}, Relocked w w' → X C P w p → X C P w' p
  initial : ∀ {w}, Initial libs w → X [] [] w {}
  gateway : ∀ {C w w'}, Ledger libs M C [] w {} → X C [] w {} → GatewayStep w w' → X C [] w' {}
  drop : ∀ {C P w p}, Ledger libs M C P w p → X C P w p →
    (∀ e ∈ P, rowsOf libs e = []) ∨ Stop w → X C [] w {}

/-- The store between two calls, with the account. -/
structure Accounted (libs : Libs) (M : Nat) (X : List Entry → List Entry → World → Progress → Prop)
    (C : List Entry) (w : World) : Prop where
  fresh : Fresh libs w
  unlocked : w.exclusive = none
  ledger : Ledger libs M C [] w {}
  account : X C [] w {}

section Initial

variable {libs : Libs} {M : Nat} {tracked : Prop} {w : World}

theorem Initial.maxOffset (h : Initial libs w) (f : String) : w.maxOffset f = 0 := by
  rw [World.maxOffset, h.control]
  rfl

theorem Initial.isFullyProcessed (h : Initial libs w) (f : String) : w.isFullyProcessed f = false := by
  rw [World.isFullyProcessed, h.control]
  rfl

theorem Initial.isCommitted (h : Initial libs w) (f : String) : w.isCommitted f = false := by
  rw [World.isCommitted, h.control]
  rfl

theorem Initial.quarantined (h : Initial libs w) : w.quarantined = [] := by
  rw [World.quarantined, h.control]
  rfl

theorem Initial.ledger (h : Initial libs w) : Ledger libs M [] [] w {} where
  stored f hf := by
    rw [h.isCommitted] at hf
    cases hf
  visible := by
    rw [World.visible, World.committedNames, h.control]
    exact List.Perm.refl []
  batch := rfl
  distinct := List.nodup_nil
  record e he := by cases he
  parsed e he := by cases he
  fits e he := by cases he
  settled e he := by cases he
  passed e he := by cases he
  ahead f q hl := by cases hl
  watermark f := by
    rw [h.maxOffset]
    exact .zero
  reached f := by
    change Boundary M _ (w.maxOffset f)
    rw [h.maxOffset]
    exact .zero
  dirty f hf := by
    rw [h.quarantined] at hf
    cases hf

theorem Initial.coverage (h : Initial libs w) : Coverage libs M tracked [] [] w {} := by
  refine ⟨fun f r hr => .inr (.inr ⟨?_, by rw [h.quarantined]; simp, fun _ => ?_⟩),
    fun _ e he => ?_, fun _ f hf => ?_, fun _ f hf => ?_⟩
  · change w.maxOffset f ≤ r.start
    rw [h.maxOffset]
    exact Nat.zero_le _
  · by_contra hnot
    have hlt := hr.2.start_lt_stop
    have hle := hr.2.stop_le
    rw [World.written, AList.lookup_eq_none.mpr hnot, h.history] at hle
    simp at hle
    omega
  · cases he
  · rw [h.isFullyProcessed] at hf
    cases hf
  · rw [h.isFullyProcessed] at hf
    cases hf

theorem Initial.rest {complete : Prop} (h : Initial libs w) : Rest libs M complete tracked [] w :=
  ⟨h.fresh, h.exclusive, h.ledger, fun _ => h.coverage⟩

end Initial

section Reachable

variable {libs : Libs} {settings : Settings} {M : Nat} {Stop : World → Prop} {complete tracked : Prop}
  {X : List Entry → List Entry → World → Progress → Prop} {C : List Entry} {t : Thread} {w w' : World}
  {α : Type} {p q : Call α}

theorem Accounted.gateway (h : Accounted libs M X C w) (K : Account libs M Stop X) (hs : GatewayStep w w') :
    Accounted libs M X C w' := by
  have haccount := K.gateway h.ledger h.account hs
  obtain ⟨f, bytes, hf, rfl⟩ := hs.extends
  exact ⟨h.fresh.of_eq (Nat.le_refl _) (fun _ h => h) rfl, h.unlocked, h.ledger.extend hf, haccount⟩

/-- Every call keeps the account, wherever it stops. -/
theorem Accounted.runs (h : Accounted libs M X C w) (K : Account libs M Stop X) (hlibs : FreshNames libs)
    (hp : IsCall libs t settings p) (hM : settings.maxWalRecordBytes = M)
    (hr : Prog.Runs (faulty libs settings) (p, w) (q, w')) :
    Amid libs t (Booked libs M ⟨w.written, C⟩ X) w' ∧ ∀ r, q = .done r →
      Finished libs (Booked libs M ⟨w.written, C⟩ X) (fun _ _ p => p.batch.rows = []) r w' := by
  subst hM
  have hrelocked : ∀ w₁ w₂ p, Relocked w₁ w₂ →
      Booked libs settings.maxWalRecordBytes ⟨w.written, C⟩ X w₁ p →
      Booked libs settings.maxWalRecordBytes ⟨w.written, C⟩ X w₂ p :=
    fun _ _ _ hlocks hI => hlocks.booked (fun _ _ hX => K.relocked hlocks hX) hI
  have htriple := (amid_encloses (t := t) hrelocked).call_triple
    (fun _ hc => hc ▸ booked_discipline (K.bookkeeping rfl)) hlibs hp
  have hr' : Prog.Runs (guarded libs settings Unguarded) (p, w) (q, w') :=
    hr.mono (N := guarded libs settings Unguarded) fun _ _ _ _ hm => ⟨trivial, hm⟩
  exact Amid.runs htriple ⟨h.fresh, h.unlocked, trivial, fun _ => rfl, C, [], List.prefix_rfl, rfl,
    h.ledger, h.account⟩ hr'

/-- The account is kept in every run. -/
theorem Reachable.accounted (h : Reachable libs M Stop w) (K : Account libs M Stop X)
    (hlibs : FreshNames libs) : ∃ C, Accounted libs M X C w := by
  induction h with
  | start h => exact ⟨[], h.fresh, h.exclusive, h.ledger, K.initial h⟩
  | gateway _ hs ih =>
    obtain ⟨C, hC⟩ := ih
    exact ⟨C, hC.gateway K hs⟩
  | returned _ hp hM hr ih =>
    obtain ⟨C, hC⟩ := ih
    obtain ⟨hfresh, hnone, p, ⟨-, C', P, -, -, L, hX⟩, hres⟩ := (hC.runs K hlibs hp hM hr).2 (.ok _) rfl
    have hnil : p.batch.rows = [] := hres _ rfl
    rw [L.batch, List.flatMap_eq_nil_iff] at hnil
    exact ⟨C', hfresh, hnone, L.drop, K.drop L hX (.inl hnil)⟩
  | @stopped w w' t _ _ _ _ _ hp hM hr hs ih =>
    obtain ⟨C, hC⟩ := ih
    obtain ⟨hfresh, hlock, p, -, C', P, -, -, L, hX⟩ := (hC.runs K hlibs hp hM hr).1
    have hlocks := relocked_crash w' t
    exact ⟨C', hlocks.fresh hfresh, crash_exclusive hlock, hlocks.ledger L.drop,
      K.relocked hlocks (K.drop L hX (.inr hs))⟩

theorem Observed.accounted (h : Observed libs M Stop w) (K : Account libs M Stop X)
    (hlibs : FreshNames libs) : ∃ C P p, Ledger libs M C P w p ∧ X C P w p := by
  cases h with
  | rest h =>
    obtain ⟨C, hC⟩ := h.accounted K hlibs
    exact ⟨C, [], {}, hC.ledger, hC.account⟩
  | during h hp hM hr =>
    obtain ⟨C, hC⟩ := h.accounted K hlibs
    obtain ⟨-, -, p, -, C', P, -, -, L, hX⟩ := (hC.runs K hlibs hp hM hr).1
    exact ⟨C', P, p, L, hX⟩

/-- The coverage of the records needs that no call stops while rows of a marked
segment wait in its batch. -/
theorem coverage_account (hstop : complete → tracked ∧ ∀ w, Stop w → w.history.unflushed = false) :
    Account libs M Stop fun C P w p => complete → Coverage libs M tracked C P w p where
  bookkeeping hM := by
    subst hM
    exact coverage_bookkeeping
  relocked hlocks hX hc := hlocks.coverage (hX hc)
  initial h _ := h.coverage
  gateway L hX hs hc := by
    obtain ⟨f, bytes, hf, rfl⟩ := hs.extends
    exact (hX hc).extend L hf
  drop L hX hlost hc := by
    apply (hX hc).drop L
    rcases hlost with hnil | hs
    · exact .inl hnil
    · exact .inr ⟨(hstop hc).1, (hstop hc).2 _ hs⟩

theorem Reachable.rest (hlibs : FreshNames libs)
    (hstop : complete → tracked ∧ ∀ w, Stop w → w.history.unflushed = false)
    (h : Reachable libs M Stop w) : ∃ C, Rest libs M complete tracked C w := by
  obtain ⟨C, hC⟩ := h.accounted (coverage_account hstop) hlibs
  exact ⟨C, hC.fresh, hC.unlocked, hC.ledger, hC.account⟩

theorem Observed.ledger (hlibs : FreshNames libs) (h : Observed libs M Stop w) :
    ∃ C P p, Ledger libs M C P w p := by
  have hstop : False → True ∧ ∀ w, Stop w → w.history.unflushed = false := False.elim
  obtain ⟨C, P, p, L, -⟩ := h.accounted (coverage_account hstop) hlibs
  exact ⟨C, P, p, L⟩

end Reachable

/-- A call followed from a state on, with the regular effect of every operation. -/
def World.follow (libs : Libs) (settings : Settings) {α : Type} (n : Nat) (p : Call α) (w : World) :
    Call α × World :=
  Prog.follow (fun o w => some (World.exec libs settings o w)) n (p, w)

theorem World.follow_runs {libs : Libs} {settings : Settings} {α : Type} (n : Nat) (p : Call α)
    (w : World) : Prog.Runs (regular libs settings) (p, w)
      ((w.follow libs settings n p).1, (w.follow libs settings n p).2) :=
  Prog.follow_runs (fun _ _ _ _ h => Option.some.inj h) n (p, w)

theorem World.follow_outcome {libs : Libs} {settings : Settings} {α : Type} {n : Nat} {p : Call α}
    {w : World} {r : Except PyError α} (h : (w.follow libs settings n p).1.outcome? = some r) :
    Prog.Runs (regular libs settings) (p, w) (.done r, (w.follow libs settings n p).2) :=
  Prog.follow_outcome (fun _ _ _ _ h => Option.some.inj h) h

theorem World.follow_step {libs : Libs} {settings : Settings} {α : Type} {n : Nat} {p : Call α}
    {w : World} (h : (w.follow libs settings n p).1.outcome? = none) :
    Prog.Step (regular libs settings) (w.follow libs settings n p) (w.follow libs settings (n + 1) p) :=
  Prog.follow_step (fun _ _ _ _ h => Option.some.inj h) (fun _ _ => rfl) h

theorem regular_faulty {libs : Libs} {settings : Settings} {α : Type} {c d : Call α × World}
    (h : Prog.Runs (regular libs settings) c d) : Prog.Runs (faulty libs settings) c d :=
  h.mono (N := faulty libs settings) fun _ _ _ _ hm => Or.inl hm

/-- A sealed segment with one span, and an empty one behind it. -/
def sealedSegment : World :=
  .ofSegments ((AList.insert "wal-0.wal" (encodeRecord spanPayload) ∅).insert "wal-1.wal" [])

theorem sealedSegment_materialized : Prog.Runs (regular sampleLibs {})
    (materialize sampleLibs {} ⟨0, 0⟩, sealedSegment)
    (.ret 1, (sealedSegment.follow sampleLibs {} 60 (materialize sampleLibs {} ⟨0, 0⟩)).2) :=
  World.follow_outcome (r := .ok 1) (by decide +kernel)

/-- A store with two files of one span each. -/
def twoFiles : World :=
  ((World.ofSegments (AList.insert "wal-0.wal"
    (encodeRecord spanPayload ++ encodeRecord spanPayload) ∅)).follow sampleLibs
      { materializeBatchSize := 1 } 70 (materialize sampleLibs { materializeBatchSize := 1 } ⟨0, 0⟩)).2

theorem twoFiles_materialized : Prog.Runs (regular sampleLibs { materializeBatchSize := 1 })
    (materialize sampleLibs { materializeBatchSize := 1 } ⟨0, 0⟩, World.ofSegments
      (AList.insert "wal-0.wal" (encodeRecord spanPayload ++ encodeRecord spanPayload) ∅))
    (.ret 2, twoFiles) :=
  World.follow_outcome (r := .ok 2) (by decide +kernel)

theorem twoFiles_reachable : Reachable sampleLibs (64 * 1024 * 1024) (fun _ => True) twoFiles :=
  .returned (.start (initial_ofSegments _ _)) (.materialize (by decide)) rfl
    (regular_faulty twoFiles_materialized)

end Lrcp.Store
