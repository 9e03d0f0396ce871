import Lrcp.Store.Alongside

namespace Lrcp.Store

open Lrcp.Wal Lrcp.Otlp Lrcp.Framework

/-- The store with the gateway at it: `current` is the segment it has open. -/
structure Plant where
  world : World
  current : Option String

/-- The bytes go to the file that is open. When it has been deleted in the
meantime nothing of them is to be seen in the directory. -/
def World.appendTo (w : World) (f : String) (data : Bytes) : World :=
  if f ∈ w.walDir then { w with walDir := w.walDir.insert f (w.content f ++ data) } else w

/-- The gateway appends whole records to its current segment, it goes on to a
segment with a larger key, or it is restarted. -/
inductive GatewayAct : Plant → Plant → Prop
  | append {s f payload} (hf : s.current = some f) (h : payload.length < 2 ^ 32) :
      GatewayAct s ⟨s.world.appendTo f (encodeRecord payload), some f⟩
  | rotate {s f} (hname : hasSuffix ".wal" f = true)
      (hlast : ∀ g ∈ s.world.walDir, parseWalKey g < parseWalKey f) :
      GatewayAct s ⟨{ s.world with walDir := s.world.walDir.insert f [] }, some f⟩
  | restart {s} : GatewayAct s ⟨s.world, none⟩

/-- One step while a call is in progress: an operation of the call, an act of the
gateway, or what another call does that waits for the lifecycle lock. -/
inductive Interleaved (libs : Libs) (settings : Settings) {α : Type} :
    Call α × Plant → Call α × Plant → Prop
  | call {p q s w'} (h : Prog.Step (faulty libs settings) (p, s.world) (q, w')) :
      Interleaved libs settings (p, s) (q, ⟨w', s.current⟩)
  | gateway {p s s'} (h : GatewayAct s s') : Interleaved libs settings (p, s) (p, s')
  | waiting {p s w'} (h : Housekeeping s.world w') :
      Interleaved libs settings (p, s) (p, ⟨w', s.current⟩)

/-- The states between the calls: one call after the other, none of which crashes
or raises, with the gateway at work all the time. -/
inductive Attainable (libs : Libs) (M : Nat) : Plant → Prop
  | start {w} (h : Initial libs w) : Attainable libs M ⟨w, none⟩
  | gateway {s s'} (h : Attainable libs M s) (hs : GatewayAct s s') : Attainable libs M s'
  | returned {s s' t settings} {α : Type} {p : Call α} {a : α} (h : Attainable libs M s)
      (hp : IsCall libs t settings p) (hM : settings.maxWalRecordBytes = M)
      (hr : Relation.ReflTransGen (Interleaved libs settings) (p, s) (.ret a, s')) :
      Attainable libs M s'

/-- The current segment is there, it is the last one, and it consists of finished
records. A segment that was deleted is older than some segment that is there. -/
structure Plant.InOrder (s : Plant) : Prop where
  current : ∀ f, s.current = some f → f ∈ s.world.walDir ∧
    (∀ g ∈ s.world.walDir, parseWalKey g ≤ parseWalKey f) ∧ Whole (s.world.content f)
  outlived : ∀ f ∈ s.world.history.unlinked, ∃ g ∈ s.world.walDir, parseWalKey f < parseWalKey g

section Plant

variable {libs : Libs} {M : Nat} {s s' : Plant} {w' : World}

/-- Seen from the calls, the gateway takes the steps of `GatewayStep`. -/
theorem Plant.InOrder.gateway (h : s.InOrder) (hs : GatewayAct s s') :
    s'.InOrder ∧ Relation.ReflTransGen Beside s.world s'.world := by
  cases hs with
  | @append f payload hf hlen =>
    obtain ⟨hmem, hlast, hwhole⟩ := h.current f hf
    have hstep : GatewayStep s.world (s.world.appendTo f (encodeRecord payload)) := by
      rw [World.appendTo, if_pos hmem]
      exact .append hmem hlast hwhole hlen
    refine ⟨?_, .single (.gateway hstep)⟩
    have hinsert : ∀ g, g ∈ s.world.walDir.insert f (s.world.content f ++ encodeRecord payload) ↔
        g ∈ s.world.walDir := by
      intro g
      rw [AList.mem_insert]
      refine ⟨fun hg => hg.elim (fun e => e ▸ hmem) id, .inr⟩
    rw [World.appendTo, if_pos hmem]
    refine ⟨fun g hg => ?_, fun g hg => ?_⟩
    · obtain rfl := Option.some.inj hg
      refine ⟨(hinsert f).mpr hmem, fun g hg => hlast g ((hinsert g).mp hg), ?_⟩
      rw [content_insert, if_pos rfl]
      exact hwhole.append hlen
    · obtain ⟨a, ha, hlt⟩ := h.outlived g hg
      exact ⟨a, (hinsert a).mpr ha, hlt⟩
  | @rotate f hname hlast =>
    have hnew : f ∉ s.world.walDir := fun hmem => lt_irrefl _ (hlast f hmem)
    have hunused : f ∉ s.world.history.unlinked := by
      intro hmem
      obtain ⟨a, ha, hlt⟩ := h.outlived f hmem
      exact lt_asymm hlt (hlast a ha)
    refine ⟨⟨fun g hg => ?_, fun g hg => ?_⟩, .single (.gateway (.openSegment hname hnew hunused hlast))⟩
    · obtain rfl := Option.some.inj hg
      refine ⟨(AList.mem_insert _).mpr (.inl rfl), fun g hg => ?_, ?_⟩
      · rcases (AList.mem_insert _).mp hg with rfl | hg
        · exact le_refl _
        · exact le_of_lt (hlast g hg)
      · rw [content_insert, if_pos rfl]
        exact whole_nil
    · obtain ⟨a, ha, hlt⟩ := h.outlived g hg
      exact ⟨a, (AList.mem_insert _).mpr (.inr ha), hlt⟩
  | restart => exact ⟨⟨fun g hg => (by cases hg), h.outlived⟩, .refl⟩

/-- A call does not touch the current segment. -/
theorem Plant.InOrder.spares (h : s.InOrder) (hs : Spares libs M s.world w') :
    Plant.InOrder ⟨w', s.current⟩ where
  current f hf := by
    obtain ⟨hmem, hlast, hwhole⟩ := h.current f hf
    have hmem' : f ∈ w'.walDir := by
      by_contra hdel
      obtain ⟨⟨g, hg, hlt⟩, -⟩ := hs.deleted f hmem hdel
      exact absurd hlt (not_lt_of_ge (hlast g (hs.kept g hg).1))
    refine ⟨hmem', fun g hg => hlast g (hs.kept g hg).1, ?_⟩
    have hsame := (hs.kept f hmem').2
    rw [hsame]
    exact hwhole
  outlived f hf := by
    have hsurvives : ∀ g ∈ s.world.walDir, ∃ a ∈ w'.walDir, parseWalKey g ≤ parseWalKey a := by
      intro g hg
      by_cases hg' : g ∈ w'.walDir
      · exact ⟨g, hg', le_refl _⟩
      · obtain ⟨⟨a, ha, hlt⟩, -⟩ := hs.deleted g hg hg'
        exact ⟨a, ha, le_of_lt hlt⟩
    rcases hs.unlinked f hf with hf | ⟨hf, hdel⟩
    · obtain ⟨g, hg, hlt⟩ := h.outlived f hf
      obtain ⟨a, ha, hle⟩ := hsurvives g hg
      exact ⟨a, ha, lt_of_lt_of_le hlt hle⟩
    · exact (hs.deleted f hf hdel).1

theorem Attended.fresh_start {o : String → Bytes} {w : World} {p : Progress}
    (h : Attended libs M o w p) (hnil : p.batch.rows = []) : Attended libs M w.written w {} where
  origin _ := .inl rfl
  marked := h.marked
  books := by
    obtain ⟨C, P, L, hC⟩ := h.books
    rw [L.batch] at hnil
    exact ⟨C, [], L.drop, hC.drop L (.inl (List.flatMap_eq_nil_iff.mp hnil))⟩

/-- The store between two calls, with the gateway in order. -/
structure Plant.Settled (libs : Libs) (M : Nat) (s : Plant) : Prop where
  inOrder : s.InOrder
  ready : Ready libs (Attended libs M s.world.written) (fun _ => True) s.world

theorem Initial.settled {w : World} (h : Initial libs w) : Plant.Settled libs M ⟨w, none⟩ := by
  have hrest : Rest libs M True True [] w := h.rest
  refine ⟨⟨fun f hf => (by cases hf), fun f hf => ?_⟩, hrest.fresh, hrest.unlocked, trivial,
    fun _ => .inl rfl, fun f _ hmark => ?_, [], [], hrest.ledger, hrest.coverage trivial⟩
  · replace hf : f ∈ w.history.unlinked := hf
    rw [h.history] at hf
    exact absurd hf (AList.notMem_empty f)
  · rw [World.isFullyProcessed, h.control] at hmark
    cases hmark

theorem Plant.Settled.beside {o : String → Bytes} {w : World} {p : Progress}
    (hw : Fresh libs w ∧ w.exclusive = none ∧ Attended libs M o w p) (hnil : p.batch.rows = [])
    (hs : Relation.ReflTransGen Beside w s.world) (h : s.InOrder) : s.Settled libs M := by
  obtain ⟨hfresh, hnone, hI⟩ := hw
  obtain ⟨hex, hframe⟩ := frame_of_beside hs
  exact ⟨h, hframe.fresh hfresh, hex.trans hnone, trivial, (hI.beside hs).fresh_start hnil⟩

theorem Plant.Settled.gateway (h : s.Settled libs M) (hs : GatewayAct s s') : s'.Settled libs M := by
  obtain ⟨hfresh, hnone, -, hI⟩ := h.ready
  obtain ⟨hin, hbeside⟩ := h.inOrder.gateway hs
  exact .beside ⟨hfresh, hnone, hI⟩ rfl hbeside hin

section Call

variable {settings : Settings} {t : Thread} {α : Type} {p q : Call α}

/-- How a call goes on beside the gateway. -/
def Plant.Going (libs : Libs) (settings : Settings) (o : String → Bytes) (c : Call α × Plant) : Prop :=
  c.2.InOrder ∧ Covered (guarded libs settings Unguarded) (Relation.ReflTransGen Beside)
    (Spares libs settings.maxWalRecordBytes)
    (Finished libs (Attended libs settings.maxWalRecordBytes o) fun (_ : α) _ p => p.batch.rows = [])
    c.1 c.2.world

/-- One step: an operation of the call spares what is needed. -/
theorem Plant.Going.step {o : String → Bytes} {c d : Call α × Plant} (h : Plant.Going libs settings o c)
    (hs : Interleaved libs settings c d) :
    Plant.Going libs settings o d ∧ (d.2.world = c.2.world ∨
      (∀ f ∈ c.2.world.walDir, f ∈ d.2.world.walDir) ∨
      Spares libs settings.maxWalRecordBytes c.2.world d.2.world) := by
  obtain ⟨hin, hcovered⟩ := h
  cases hs with
  | @call p q s w' hs =>
    have hs' : Prog.Step (guarded libs settings Unguarded) (p, s.world) (q, w') :=
      hs.mono (N := guarded libs settings Unguarded) fun _ _ _ _ hm => ⟨trivial, hm⟩
    obtain ⟨hsame | hspares, hcovered'⟩ := hcovered.step (fun _ => .refl) hs'
    · refine ⟨⟨?_, hcovered'⟩, .inl hsame⟩
      rw [hsame]
      exact hin
    · exact ⟨⟨hin.spares hspares, hcovered'⟩, .inr (.inr hspares)⟩
  | gateway hs =>
    obtain ⟨hin', hbeside⟩ := hin.gateway hs
    exact ⟨⟨hin', hcovered.rely (fun _ _ _ => .trans) hbeside⟩,
      .inr (.inl fun f hf => ((frame_of_beside hbeside).2.segment f hf).1)⟩
  | @waiting p s w' hs =>
    have hbeside : Relation.ReflTransGen Beside s.world w' := .single (.waiting hs)
    have hspares : Spares libs settings.maxWalRecordBytes s.world w' :=
      .of_same hs.quiet.walDir hs.quiet.unlinked
    exact ⟨⟨hin.spares hspares, hcovered.rely (fun _ _ _ => .trans) hbeside⟩, .inr (.inr hspares)⟩

theorem Plant.Settled.runs (hlibs : FreshNames libs) (h : s.Settled libs settings.maxWalRecordBytes)
    (hp : IsCall libs t settings p)
    (hr : Relation.ReflTransGen (Interleaved libs settings) (p, s) (q, s')) :
    Plant.Going libs settings s.world.written (q, s') := by
  have key : ∀ c, Relation.ReflTransGen (Interleaved libs settings) (p, s) c →
      Plant.Going libs settings s.world.written c := by
    intro c hc
    induction hc with
    | refl =>
      exact ⟨h.inOrder, .of_triple (fun _ => .refl)
        (attended_encloses.call_triple (fun _ _ => attended_discipline) hlibs hp) h.ready⟩
    | tail _ hs ih => exact (ih.step hs).1
  exact key _ hr

theorem Attainable.settled (hlibs : FreshNames libs) (h : Attainable libs M s) :
    s.Settled libs M := by
  induction h with
  | start h => exact h.settled
  | gateway _ hs ih => exact ih.gateway hs
  | @returned s s' t settings α p a _ hp hM hr ih =>
    subst hM
    obtain ⟨hin, hcovered⟩ := ih.runs hlibs hp hr
    obtain ⟨w, hbeside, hfresh, hnone, p', hI, hnil⟩ := Covered.outcome (r := .ok a) hcovered
    exact .beside ⟨hfresh, hnone, hI⟩ (hnil a rfl) hbeside hin

end Call

/-- Whatever the gateway does while the calls are in progress: a segment that is
deleted is not the one being written, it is not quarantined, it can be read to
its end, and the spans of all its records are committed. -/
theorem deleted_committed (hlibs : FreshNames libs) {s s₁ s₂ : Plant} (h : Attainable libs M s)
    {t : Thread} {settings : Settings} {α : Type} {p q q' : Call α} (hp : IsCall libs t settings p)
    (hM : settings.maxWalRecordBytes = M)
    (hr : Relation.ReflTransGen (Interleaved libs settings) (p, s) (q, s₁))
    (hs : Interleaved libs settings (q, s₁) (q', s₂)) {f : String} (hf : f ∈ s₁.world.walDir)
    (hdel : f ∉ s₂.world.walDir) :
    s₁.current ≠ some f ∧ f ∉ s₁.world.quarantined ∧ Clean M (s₁.world.content f) ∧
      ∀ r, HasRecord M (s₁.world.content f) r → Committed libs s₁.world f r := by
  subst hM
  have hgoing := (h.settled hlibs).runs hlibs hp hr
  have hin : s₁.InOrder := hgoing.1
  obtain ⟨-, hsame | hstay | hspares⟩ := hgoing.step hs
  · rw [hsame] at hdel
    exact absurd hf hdel
  · exact absurd (hstay f hf) hdel
  · obtain ⟨⟨g, hg, hlt⟩, hgone⟩ := hspares.deleted f hf hdel
    refine ⟨fun hcurrent => ?_, hgone⟩
    obtain ⟨-, hlast, -⟩ := hin.current f hcurrent
    exact absurd hlt (not_lt_of_ge (hlast g (hspares.kept g hg).1))

theorem interleaved_of_runs {settings : Settings} {α : Type} {p q : Call α} {w w' : World}
    (current : Option String) (h : Prog.Runs (faulty libs settings) (p, w) (q, w')) :
    Relation.ReflTransGen (Interleaved libs settings) (p, ⟨w, current⟩) (q, ⟨w', current⟩) := by
  have key : ∀ c : Call α × World, Prog.Runs (faulty libs settings) (p, w) c →
      Relation.ReflTransGen (Interleaved libs settings) (p, ⟨w, current⟩) (c.1, ⟨c.2, current⟩) := by
    intro c hc
    induction hc with
    | refl => exact .refl
    | tail _ hs ih => exact ih.tail (.call hs)
  exact key _ h

theorem interleaved_of_step {settings : Settings} {α : Type} {c d : Call α × World}
    (current : Option String) (h : Prog.Step (regular libs settings) c d) :
    Interleaved libs settings (c.1, ⟨c.2, current⟩) (d.1, ⟨d.2, current⟩) :=
  .call (h.mono (N := faulty libs settings) fun _ _ _ _ hm => Or.inl hm)

end Plant

/-- The store of `sealedSegment`, the span of which has been materialized. -/
def materializedSegment : World :=
  (sealedSegment.follow sampleLibs {} 60 (materialize sampleLibs {} ⟨0, 0⟩)).2

/-- The first operations of a cleanup, up to the one that deletes a segment. -/
def World.cleaning (w : World) : World :=
  (w.follow sampleLibs {} 8 (cleanupMaterializedWalFiles ⟨0, 0⟩)).2

/-- The gateway has gone on to `wal-1.wal`, and the cleanup deletes `wal-0.wal`. -/
theorem deleted_committed_sealed :
    some "wal-1.wal" ≠ some "wal-0.wal" ∧ "wal-0.wal" ∉ materializedSegment.cleaning.quarantined ∧
      Clean (64 * 1024 * 1024) (materializedSegment.cleaning.content "wal-0.wal") ∧
      ∀ r, HasRecord (64 * 1024 * 1024) (materializedSegment.cleaning.content "wal-0.wal") r →
        Committed sampleLibs materializedSegment.cleaning "wal-0.wal" r := by
  have hstart : Attainable sampleLibs (64 * 1024 * 1024) ⟨sealedSegment, some "wal-1.wal"⟩ :=
    .gateway (.start (initial_ofSegments _ (AList.insert "wal-0.wal" (encodeRecord spanPayload) ∅)))
      (.rotate (by decide +kernel) (by decide +kernel))
  have hattainable : Attainable sampleLibs (64 * 1024 * 1024) ⟨materializedSegment, some "wal-1.wal"⟩ :=
    .returned hstart (.materialize (by decide)) rfl
      (interleaved_of_runs _ (regular_faulty sealedSegment_materialized))
  -- the steps of the cleanup from any such store, so that nothing is computed here
  have key : ∀ w : World, Attainable sampleLibs (64 * 1024 * 1024) ⟨w, some "wal-1.wal"⟩ →
      (w.follow sampleLibs {} 8 (cleanupMaterializedWalFiles ⟨0, 0⟩)).1.outcome? = none →
      "wal-0.wal" ∈ w.cleaning.walDir →
      "wal-0.wal" ∉ (w.follow sampleLibs {} 9 (cleanupMaterializedWalFiles ⟨0, 0⟩)).2.walDir →
      some "wal-1.wal" ≠ some "wal-0.wal" ∧ "wal-0.wal" ∉ w.cleaning.quarantined ∧
        Clean (64 * 1024 * 1024) (w.cleaning.content "wal-0.wal") ∧
        ∀ r, HasRecord (64 * 1024 * 1024) (w.cleaning.content "wal-0.wal") r →
          Committed sampleLibs w.cleaning "wal-0.wal" r :=
    fun w h hgoing hf hdel => deleted_committed sampleLibs_freshNames h .cleanup rfl
      (interleaved_of_runs (some "wal-1.wal") (regular_faulty (World.follow_runs 8 _ w)))
      (interleaved_of_step (some "wal-1.wal") (World.follow_step hgoing)) hf hdel
  exact key materializedSegment hattainable (by decide +kernel) (by decide +kernel) (by decide +kernel)

end Lrcp.Store
