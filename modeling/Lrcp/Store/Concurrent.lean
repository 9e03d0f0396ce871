import Lrcp.Store.ExactlyOnce
import Lrcp.Store.Snapshot

namespace Lrcp.Store

open Lrcp.Wal Lrcp.Otlp Lrcp.Framework

/-- The ledger of the call that holds the lock. A segment that is not made of finished
records is as it was at first. -/
structure Recorded (libs : Libs) (M : Nat) (o : String → Bytes) (w : World) (p : Progress) : Prop where
  origin : ∀ f, w.written f = o f ∨ (Whole (o f) ∧ Whole (w.written f))
  ledger : ∃ C P, Ledger libs M C P w p

section Concurrent

variable {libs : Libs} {settings : Settings} {Allowed : Guard} {Stop : World → Prop} {M : Nat} {o : String → Bytes} {w w' : World}
  {p : Progress} {f : String} {r : WalRecord} {c : Conn}

theorem Recorded.extend {bytes : Bytes} (h : Recorded libs M o w p) (hf : Extends w f bytes) :
    Recorded libs M o { w with walDir := w.walDir.insert f bytes } p where
  origin g := by
    rw [written_insert]
    split_ifs with hg
    · subst hg
      refine .inr ⟨?_, hf.wholeAfter⟩
      rcases h.origin g with heq | hwhole
      · rw [← heq]
        exact hf.whole
      · exact hwhole.1
    · exact h.origin g
  ledger := by
    obtain ⟨C, P, L⟩ := h.ledger
    exact ⟨C, P, L.extend hf⟩

theorem Recorded.quiet (h : Recorded libs M o w p) (hq : Quiet w w') : Recorded libs M o w' p where
  origin f := by
    rw [hq.written]
    exact h.origin f
  ledger := by
    obtain ⟨C, P, L⟩ := h.ledger
    exact ⟨C, P, L.quiet hq⟩

theorem recorded_durable : Durable Stop (Recorded libs M o) where
  quiet h hq := h.quiet hq
  relocked h hr := by
    obtain ⟨horigin, C, P, L⟩ := h
    have L' := hr.ledger L
    obtain ⟨e, n, l, renamed, rfl⟩ := hr
    exact ⟨horigin, C, P, L'⟩
  gateway h hg := by
    obtain ⟨f, bytes, hf, rfl⟩ := hg
    exact h.extend hf
  drop h _ := by
    obtain ⟨C, P, L⟩ := h.ledger
    exact ⟨h.origin, C, [], L.drop⟩

/-- What the reader refuses in a segment of finished records it refuses for good, and the
segment does not change otherwise. -/
theorem Recorded.lasting {e : WalCorruptionError} (h : Recorded libs M o w p) (hf : f ∈ w.walDir)
    (hnext : nextRecord f (w.content f) M (w.position p.batch f) = .error e)
    (hoffset : e.offset = w.position p.batch f) : Lasting M o f e (w.content f) := by
  obtain ⟨C, P, L⟩ := h.ledger
  have hreached := L.reached f
  rw [written_of_mem hf] at hreached
  by_cases hwhole : Whole (w.content f)
  · refine .inl ?_
    rw [hoffset]
    exact hwhole.refused hreached hnext
  · have horigin := h.origin f
    rw [written_of_mem hf] at horigin
    rcases horigin with heq | ⟨-, hwhole'⟩
    · refine .inr ⟨by rw [← heq]; exact hwhole, ?_⟩
      rw [← heq, hoffset]
      exact hnext
    · exact absurd hwhole' hwhole

/-- The ledger is kept under the lock, whatever the gateway has done since. -/
theorem recorded_discipline : Discipline libs settings Allowed c Eq (fun _ _ => True)
    (Recorded libs settings.maxWalRecordBytes o) (Lasting settings.maxWalRecordBytes o) where
  lasting f e data data' h hd := h.imp_left fun h => h.grow hd
  rely w w' hheld hR := ⟨hR ▸ hheld, hR ▸ .refl w⟩
  stable w w' p _ hI hR := hR ▸ hI
  neutral w w' p _ _ hI hq := ⟨trivial, hI.quiet hq⟩
  read w p f r rs _ hI hf _ _ hstart hrec hrows := by
    obtain ⟨C, P, L⟩ := hI.ledger
    exact ⟨hI.origin, C, P ++ [(f, r)], L.read hf hstart hrec hrows⟩
  flush w w' p name _ _ hI hne hfits _ hname hl _ hw' := by
    subst hw'
    obtain ⟨C, P, L⟩ := hI.ledger
    exact ⟨trivial, hI.origin, C ++ P, [], L.flush hname hne hfits hl _ _ _⟩
  mark w w' p f _ _ hI hsealed hpos hw' := by
    subst hw'
    obtain ⟨C, P, L⟩ := hI.ledger
    exact ⟨trivial, hI.origin, C, P, L.mark hpos⟩
  badHeader w p f e _ hI hf _ hne hcheck := by
    apply hI.lasting hf
    · unfold nextRecord
      rw [if_neg hne, hcheck]
    · exact (checkHeader_error hcheck).2
  badPayload w p f length expectedCrc e _ hI hf _ hhead hcheck := by
    apply hI.lasting hf
    · have hne : ((w.content f).drop (w.position p.batch f)).take headerSize ≠ [] := by
        apply List.ne_nil_of_length_pos
        rw [(checkHeader_ok.mp hhead).1]
        decide
      unfold nextRecord
      rw [if_neg hne, hhead]
      dsimp only
      rw [hcheck]
    · exact (checkPayload_error hcheck).2
  quarantine w w' p f e size _ _ hI hnil hf hbad _ hoffset hw' := by
    subst hw'
    obtain ⟨C, P, L⟩ := hI.ledger
    have herror : ∃ e', nextRecord f (w.written f) settings.maxWalRecordBytes e.offset = .error e' := by
      rcases hbad with hrefused | ⟨hnot, he⟩
      · rw [written_of_mem hf]
        exact hrefused _ List.prefix_rfl
      · rcases hI.origin f with heq | hwhole
        · rw [heq]
          exact ⟨e, he⟩
        · exact absurd hwhole.1 hnot
    obtain ⟨e', he'⟩ := herror
    have hreached := L.reached f
    rw [← hoffset] at hreached
    exact ⟨trivial, hI.origin, C, P, L.quarantine (hreached.dirty he') _ _ _⟩
  compact w w' p name merged files _ _ hI hnodup hmerged hfiles _ hne _ hname hl _ hw' := by
    subst hw'
    obtain ⟨C, P, L⟩ := hI.ledger
    have L' : Ledger libs settings.maxWalRecordBytes C P (w.exec libs settings
        (.commitCompaction name (files.flatMap ParquetFile.rows).length merged)).2 p :=
      L.compact hname hnodup hmerged hfiles hne hl _
    simp only [World.exec, if_neg hname] at L' ⊢
    exact ⟨trivial, hI.origin, C, P, L'⟩
  delete w w' p f _ _ hI _ _ _ hw' := by
    subst hw'
    obtain ⟨C, P, L⟩ := hI.ledger
    refine ⟨trivial, fun g => ?_, C, P, L.delete⟩
    rw [written_unlinkWal]
    exact hI.origin g

theorem Initial.recorded (h : Initial libs w) : Recorded libs M w.written w {} :=
  ⟨fun _ => .inl rfl, [], [], h.ledger⟩

/-- The rows of one moment, seen from a later one: those of a record are there all, each once,
or not at all. -/
theorem Recorded.rowsFrom_advances (h : Recorded libs M o w p) (hadvances : Advances w w')
    (hr : IsRecord M (w'.written f) r) :
    rowsFrom f r.start w.visible = [] ∨ ∃ rs, rows libs r.payload f r.start = .ok rs ∧
      (rowsFrom f r.start w.visible).Perm rs := by
  obtain ⟨C, P, L⟩ := h.ledger
  have hkeys : (C.map Entry.key).Nodup := by
    have hd := L.distinct
    rw [List.map_append, List.nodup_append] at hd
    exact hd.1
  have hperm : (rowsFrom f r.start w.visible).Perm (rowsFrom f r.start (C.flatMap (rowsOf libs))) :=
    L.visible.filter _
  rcases rowsFrom_flatMap hkeys fun e he => L.parsed e (List.mem_append_left P he) with
    hnil | ⟨e, he, hkey, hrows⟩
  · rw [hnil] at hperm
    exact .inl hperm.eq_nil
  · obtain ⟨g, r'⟩ := e
    obtain ⟨rfl, hstart⟩ := Prod.mk.inj hkey
    have hrecord := (L.record (g, r') (List.mem_append_left P he)).grow (hadvances.written g)
    obtain rfl : r' = r := hrecord.2.ext hr hstart
    have hparsed := L.parsed (g, r') (List.mem_append_left P he)
    exact .inr ⟨_, hparsed, by rw [hrows] at hperm; exact hperm⟩

end Concurrent

section Served

variable {libs : Libs} {settings : Thread → Settings} {own : Settings} {app M : Nat}
  {Stop : World → Prop} {o : String → Bytes} {w : World} {X Y : Pool Op PyError Unit World Thread}
  {f : String} {r : WalRecord}

theorem recorded_upheld (hM : ∀ t, (settings t).maxWalRecordBytes = M) :
    Upheld libs settings Stop (Recorded libs M o) (Lasting M o) := by
  refine ⟨recorded_durable, fun t c _ => ?_⟩
  rw [← hM t]
  exact recorded_discipline

/-- In every state that the processes get to, the rows of a record are visible all, each once,
or not at all. -/
theorem rowsFrom_service (hlibs : FreshNames libs) (hM : ∀ t, (settings t).maxWalRecordBytes = M)
    (hw : Initial libs w) (hX : (service libs settings app Op.spares Stop).Reach ⟨fun _ => none, w⟩ X)
    (hr : IsRecord M (X.state.written f) r) :
    rowsFrom f r.start X.state.visible = [] ∨ ∃ rs, rows libs r.payload f r.start = .ok rs ∧
      (rowsFrom f r.start X.state.visible).Perm rs := by
  obtain ⟨p, hkept⟩ := (service_sound hlibs (recorded_upheld hM) hw hw.recorded hX).1.kept
  exact hkept.rowsFrom_advances (.refl _) hr

end Served

theorem rowsFrom_service_twoFiles : ∃ rs, rows sampleLibs spanPayload "wal-0.wal" 0 = .ok rs ∧
    (rowsFrom "wal-0.wal" 0 twoFilesServed.state.visible).Perm rs := by
  obtain ⟨w, hw, hX⟩ := twoFilesServed_reach
  have hr : IsRecord (64 * 1024 * 1024) (twoFilesServed.state.written "wal-0.wal") ⟨0, 14, spanPayload⟩ :=
    ((@mem_walRecordsFrom "wal-0.wal" _ _ _).mp (by decide +kernel)).2
  rcases rowsFrom_service sampleLibs_freshNames (fun _ => rfl) hw hX hr with hnil | hrows
  · have hlength : (rowsFrom "wal-0.wal" 0 twoFilesServed.state.visible).length = 1 := by decide +kernel
    rw [hnil] at hlength
    cases hlength
  · exact hrows

end Lrcp.Store
