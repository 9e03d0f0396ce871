import Lrcp.Store.Enclosed
import Lrcp.Store.Ledger

namespace Lrcp.Store

open Lrcp.Wal Lrcp.Otlp Lrcp.Framework

/-- What is the same throughout a call: the bytes written to the segments. -/
structure Origin where
  written : String → Bytes
  committed : List Entry

/-- Where the reader has raised an error, as far as it does not depend on the moment. -/
def Unreadable (M : Nat) (o : Origin) (f : String) (e : WalCorruptionError) : Prop :=
  Boundary M (o.written f) e.offset ∧ nextRecord f (o.written f) M e.offset = .error e

theorem Unreadable.not_record {M : Nat} {o : Origin} {f : String} {e : WalCorruptionError}
    (h : Unreadable M o f e) {r : WalRecord} (hstart : r.start = e.offset) :
    ¬IsRecord M (o.written f) r := by
  intro hrec
  have hsome := (@nextRecord_eq_some f _ _ _ _).mpr ⟨hstart, hrec⟩
  rw [h.2] at hsome
  cases hsome

/-- The ledger of a call that started with the records `o.committed` committed, with
an account `X` of the records committed and of those in the batch. -/
def Booked (libs : Libs) (M : Nat) (o : Origin)
    (X : List Entry → List Entry → World → Progress → Prop) (w : World) (p : Progress) : Prop :=
  (∀ f, w.written f = o.written f) ∧ ∃ C P, o.committed <+: C ∧
    (C.flatMap (rowsOf libs)).length = (o.committed.flatMap (rowsOf libs)).length + p.total ∧
    Ledger libs M C P w p ∧ X C P w p

/-- What it takes to keep an account beside the ledger. -/
structure Bookkeeping (libs : Libs) (settings : Settings) (Allowed : Guard) (o : Origin)
    (X : List Entry → List Entry → World → Progress → Prop) : Prop where
  quiet : ∀ {C P w w' p}, X C P w p → Quiet w w' → X C P w' p
  read : ∀ {C P w p f r rs}, X C P w p → Ledger libs settings.maxWalRecordBytes C P w p →
    f ∈ w.walDir → Turn (Booked libs settings.maxWalRecordBytes o X) w p f →
    p.batch.rows.length < settings.materializeBatchSize → r.start = w.position p.batch f →
    IsRecord settings.maxWalRecordBytes (w.content f) r → rows libs r.payload f r.start = .ok rs →
    X C (P ++ [(f, r)]) w { p with batch := p.batch.add f r rs }
  flush : ∀ {C P w p name}, X C P w p → Ledger libs settings.maxWalRecordBytes C P w p →
    p.batch.rows ≠ [] → (∃ n, name ∈ generated libs n) → name ∉ w.control.parquetFiles →
    w.parquetDir.lookup name = some ⟨p.batch.rows, true⟩ →
    X (C ++ P) [] (w.exec libs settings (.commitBatch name p.batch.rows.length
      (p.batch.entries.map fun (f, off, _) => (f, off, "")) p.batch.offsets)).2
      ⟨{}, p.total + p.batch.rows.length⟩
  mark : ∀ {C P w p f}, X C P w p → Ledger libs settings.maxWalRecordBytes C P w p → w.Sealed f →
    w.position p.batch f = (w.content f).length →
    X C P (w.exec libs settings (.commitMark f (w.content f).length)).2 p
  quarantine : ∀ {C P w p f e} size, X C P w p → Ledger libs settings.maxWalRecordBytes C P w p →
    p.batch.rows = [] → (∀ f, w.written f = o.written f) → Unreadable settings.maxWalRecordBytes o f e →
    e.offset = w.position p.batch f →
    X C P (w.exec libs settings (.commitQuarantine f e.offset e.message size)).2 p
  compact : ∀ {C P w p name merged} n, X C P w p → (∃ n, name ∈ generated libs n) →
    name ∉ w.control.parquetFiles →
    Allowed (.commitCompaction name n merged) w →
    X C P (w.exec libs settings (.commitCompaction name n merged)).2 p
  delete : ∀ {C P w p f}, X C P w p → Ledger libs settings.maxWalRecordBytes C P w p →
    p.batch.rows = [] → w.Sealed f → w.isFullyProcessed f = true →
    X C P (w.exec libs settings (.unlinkWal f)).2 p

/-- What can be said in the middle of a call of the thread `t`. -/
def Amid (libs : Libs) (t : Thread) (I : World → Progress → Prop) (w : World) : Prop :=
  Fresh libs w ∧ Own t w ∧ ∃ p, I w p

section Discipline

variable {libs : Libs} {settings : Settings} {Allowed : Guard} {o : Origin} {c : Conn}
  {X : List Entry → List Entry → World → Progress → Prop} {I : World → Progress → Prop} {w : World}
  {p : Progress}

theorem Amid.inside (hin : Inside libs c w) (hI : I w p) : Amid libs c.owner I w := by
  refine ⟨hin.fresh, fun c' hc' => ?_, p, hI⟩
  obtain rfl : c = c' := Option.some.inj (hin.held.symm.trans hc')
  exact ⟨rfl, hin.serial⟩

theorem Booked.unreadable {M : Nat} {f : String} {e : WalCorruptionError} (hI : Booked libs M o X w p)
    (hf : f ∈ w.walDir) (hnext : nextRecord f (w.content f) M (w.position p.batch f) = .error e)
    (hoffset : e.offset = w.position p.batch f) : Unreadable M o f e := by
  obtain ⟨hwritten, C, P, -, -, L, -⟩ := hI
  have hreached := L.reached f
  rw [written_of_mem hf] at hreached
  have hcontent : o.written f = w.content f := by rw [← hwritten, written_of_mem hf]
  unfold Unreadable
  rw [hcontent, hoffset]
  exact ⟨hreached, hnext⟩

/-- One call at a time: the ledger satisfies the laws, with every account that can be kept. -/
theorem booked_discipline (K : Bookkeeping libs settings Allowed o X) :
    Discipline libs settings Allowed c Eq
      (fun _ w' => Amid libs c.owner (Booked libs settings.maxWalRecordBytes o X) w')
      (Booked libs settings.maxWalRecordBytes o X)
      (fun f e _ => Unreadable settings.maxWalRecordBytes o f e) where
  lasting _ _ _ _ h _ := h
  rely w w' hheld hR := by
    subst hR
    exact ⟨hheld, Frame.refl w⟩
  stable w w' p _ hI hR := by
    subst hR
    exact hI
  neutral w w' p _ hin' hI hq := by
    obtain ⟨hwritten, C, P, hpre, htotal, L, hX⟩ := hI
    have hI' : Booked libs settings.maxWalRecordBytes o X w' p :=
      ⟨fun f => by rw [hq.written]; exact hwritten f, C, P, hpre, htotal, L.quiet hq, K.quiet hX hq⟩
    exact ⟨.inside hin' hI', hI'⟩
  read w p f r rs _ hI hf hturn hroom hstart hrec hrows := by
    obtain ⟨hwritten, C, P, hpre, htotal, L, hX⟩ := hI
    exact ⟨hwritten, C, P ++ [(f, r)], hpre, htotal, L.read hf hstart hrec hrows,
      K.read hX L hf hturn hroom hstart hrec hrows⟩
  flush w w' p name _ hin' hI hne hfits hgenerated hname hl _ hw' := by
    obtain ⟨hwritten, C, P, hpre, htotal, L, hX⟩ := hI
    have hI' : Booked libs settings.maxWalRecordBytes o X w' ⟨{}, p.total + p.batch.rows.length⟩ := by
      refine ⟨fun f => ?_, C ++ P, [], hpre.trans (List.prefix_append _ _), ?_, ?_, ?_⟩
      · rw [hw']
        exact hwritten f
      · rw [List.flatMap_append, List.length_append, htotal, L.batch, Nat.add_assoc]
      · rw [hw']
        exact L.flush hname hne hfits hl _ _ _
      · rw [hw']
        exact K.flush hX L hne hgenerated hname hl
    exact ⟨.inside hin' hI', hI'⟩
  mark w w' p f _ hin' hI hsealed hpos hw' := by
    obtain ⟨hwritten, C, P, hpre, htotal, L, hX⟩ := hI
    have hI' : Booked libs settings.maxWalRecordBytes o X w' p := by
      refine ⟨fun g => ?_, C, P, hpre, htotal, ?_, ?_⟩
      · rw [hw']
        exact hwritten g
      · rw [hw']
        exact L.mark hpos
      · rw [hw']
        exact K.mark hX L hsealed hpos
    exact ⟨.inside hin' hI', hI'⟩
  badHeader w p f e _ hI hf _ hne hcheck := by
    apply hI.unreadable hf
    · unfold nextRecord
      rw [if_neg hne, hcheck]
    · exact (checkHeader_error hcheck).2
  badPayload w p f length expectedCrc e _ hI hf _ hhead hcheck := by
    apply hI.unreadable hf
    · have hne : ((w.content f).drop (w.position p.batch f)).take headerSize ≠ [] := by
        apply List.ne_nil_of_length_pos
        rw [(checkHeader_ok.mp hhead).1]
        decide
      unfold nextRecord
      rw [if_neg hne, hhead]
      dsimp only
      rw [hcheck]
    · exact (checkPayload_error hcheck).2
  quarantine w w' p f e size _ hin' hI hnil hf hbad _ hoffset hw' := by
    obtain ⟨hwritten, C, P, hpre, htotal, L, hX⟩ := hI
    have hI' : Booked libs settings.maxWalRecordBytes o X w' p := by
      refine ⟨fun g => ?_, C, P, hpre, htotal, ?_, ?_⟩
      · rw [hw']
        exact hwritten g
      · rw [hw']
        apply L.quarantine
        rw [hwritten]
        exact hbad.1.dirty hbad.2
      · rw [hw']
        exact K.quarantine size hX L hnil hwritten hbad hoffset
    exact ⟨.inside hin' hI', hI'⟩
  compact w w' p name merged files _ hin' hI hnodup hmerged hfiles _ hne hgenerated hname hl hallowed hw' := by
    obtain ⟨hwritten, C, P, hpre, htotal, L, hX⟩ := hI
    have hI' : Booked libs settings.maxWalRecordBytes o X w' p := by
      refine ⟨fun g => ?_, C, P, hpre, htotal, ?_, ?_⟩
      · rw [hw', ← hwritten]
        simp only [World.exec, if_neg hname]
        rfl
      · rw [hw']
        exact L.compact hname hnodup hmerged hfiles hne hl _
      · rw [hw']
        exact K.compact _ hX hgenerated hname hallowed
    exact ⟨.inside hin' hI', hI'⟩
  delete w w' p f _ hin' hI hnil hsealed hmark hw' := by
    obtain ⟨hwritten, C, P, hpre, htotal, L, hX⟩ := hI
    have hI' : Booked libs settings.maxWalRecordBytes o X w' p := by
      refine ⟨fun g => ?_, C, P, hpre, htotal, ?_, ?_⟩
      · rw [hw', written_unlinkWal]
        exact hwritten g
      · rw [hw']
        exact L.delete
      · rw [hw']
        exact K.delete hX L hnil hsealed hmark
    exact ⟨.inside hin' hI', hI'⟩

end Discipline

/-- One call at a time: what does not depend on the locks is kept by everything that
happens to them. -/
theorem amid_encloses {libs : Libs} {t : Thread} {I : World → Progress → Prop}
    (hI : ∀ w w' p, Relocked w w' → I w p → I w' p) :
    Encloses libs t Eq (fun _ w' => Amid libs t I w') I where
  others w w' hR := by
    subst hR
    exact ⟨rfl, Frame.refl w⟩
  stable w w' p h hR := by
    subst hR
    exact h
  relocked w w' p h hr := hI w w' p hr h
  admits w w' p hfresh hown h _ := ⟨hfresh, hown, p, h⟩

section Relocked

variable {libs : Libs} {w w' : World}

theorem Relocked.ledger {M : Nat} {C P : List Entry} {p : Progress} (h : Relocked w w')
    (L : Ledger libs M C P w p) : Ledger libs M C P w' p := by
  obtain ⟨e, n, l, renamed, rfl⟩ := h
  exact ⟨L.stored, L.visible, L.batch, L.distinct, L.record, L.parsed, L.fits, L.settled, L.passed,
    L.ahead, L.watermark, L.reached, L.dirty⟩

theorem Relocked.booked {M : Nat} {o : Origin} {X : List Entry → List Entry → World → Progress → Prop}
    {p : Progress} (h : Relocked w w') (hX : ∀ C P, X C P w p → X C P w' p)
    (hI : Booked libs M o X w p) : Booked libs M o X w' p := by
  obtain ⟨hwritten, C, P, hpre, htotal, L, hXw⟩ := hI
  refine ⟨fun f => ?_, C, P, hpre, htotal, h.ledger L, hX C P hXw⟩
  obtain ⟨e, n, l, renamed, rfl⟩ := h
  exact hwritten f

end Relocked

end Lrcp.Store
