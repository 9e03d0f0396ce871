import Lrcp.Store.NoLoss
import Lrcp.Store.Trial

namespace Lrcp.Store

open Lrcp.Wal Lrcp.Otlp Lrcp.Framework

namespace World

/-- A segment that is not the last one in the order of `_parse_wal_key`. -/
def Behind (w : World) (f : String) : Prop :=
  hasSuffix ".wal" f = true ∧ f ∈ w.walDir ∧
    ∃ g ∈ w.walDir, hasSuffix ".wal" g = true ∧ parseWalKey f < parseWalKey g

/-- A segment that `materialize` passes over for ever: it has been read to its end,
but it has not been marked. -/
structure Stranded (w : World) (f : String) : Prop where
  behind : w.Behind f
  unquarantined : f ∉ w.quarantined
  unmarked : w.isFullyProcessed f = false
  nonempty : 0 < (w.content f).length
  consumed : (w.content f).length ≤ w.maxOffset f

end World

def NoneStranded (w : World) : Prop := ∀ f, ¬w.Stranded f

/-- No batch is committed that ends with the last record of a sealed segment which
is not yet marked. -/
def Timely : {α : Type} → Op α → World → Prop
  | _, .commitBatch _ _ _ fileOffsets, w => ∀ f q, fileOffsets.lookup f = some q → w.Behind f →
      f ∉ w.quarantined → w.isFullyProcessed f = false → q < (w.content f).length
  | _, _, _ => True

/-- The states between the runs of `materialize` and of the cleanup, one after the
other, without crash and without error, with the gateway at work in between. The
runs of `materialize` start where `Start` holds and take steps that `Allowed` admits. -/
inductive Served (libs : Libs) (M : Nat) (Start : World → Prop) (Allowed : Guard) : World → Prop
  | start {w} (h : Initial libs w) : Served libs M Start @Allowed w
  | gateway {w w'} (h : Served libs M Start @Allowed w) (hs : GatewayStep w w') :
      Served libs M Start @Allowed w'
  | materialized {w w' t settings total} (h : Served libs M Start @Allowed w)
      (hsize : 0 < settings.materializeBatchSize) (hM : settings.maxWalRecordBytes = M) (hs : Start w)
      (hr : Prog.Runs ((regular libs settings).guard Allowed) (materialize libs settings t, w)
        (.ret total, w')) : Served libs M Start @Allowed w'
  | cleaned {w w' t settings names} (h : Served libs M Start @Allowed w)
      (hM : settings.maxWalRecordBytes = M)
      (hr : Prog.Runs (regular libs settings) (cleanupMaterializedWalFiles t, w) (.ret names, w')) :
      Served libs M Start @Allowed w'

/-- The segments there are have the bytes that they have in `d`. -/
def Within (d : Table Bytes) (w : World) : Prop := ∀ f ∈ w.walDir, w.walDir.lookup f = d.lookup f

section Stranded

variable {libs : Libs} {settings : Settings} {w w' : World} {f : String} {c : Conn} {t : Thread}
  {d : Table Bytes}

theorem guard_faulty {Allowed : Guard} {α : Type} {p q : Call α}
    (h : Prog.Runs ((regular libs settings).guard Allowed) (p, w) (q, w')) :
    Prog.Runs (guarded libs settings Allowed) (p, w) (q, w') :=
  h.mono (M := (regular libs settings).guard Allowed) (N := guarded libs settings Allowed)
    fun _ _ _ _ hm => ⟨hm.1, .inl hm.2⟩

/-- A segment is stranded in a later state only if it was before, when the segments
are among those before, and the watermarks of those that are not marked as well. -/
theorem World.Stranded.of_step (h : w'.Stranded f)
    (hdir : ∀ g ∈ w'.walDir, w'.walDir.lookup g = w.walDir.lookup g)
    (hq : f ∈ w.quarantined → f ∈ w'.quarantined)
    (hmark : w.isFullyProcessed f = true → w'.isFullyProcessed f = true)
    (hmax : w'.isFullyProcessed f = false → w'.maxOffset f = w.maxOffset f) : w.Stranded f := by
  have hmem : ∀ g ∈ w'.walDir, g ∈ w.walDir := by
    intro g hg
    rw [← AList.lookup_isSome, ← hdir g hg, AList.lookup_isSome]
    exact hg
  obtain ⟨⟨hname, hf, g, hg, hgname, hlt⟩, hnot, hunmarked, hpos, hle⟩ := h
  have hcontent : w'.content f = w.content f := by
    rw [World.content, hdir f hf, World.content]
  rw [hcontent] at hpos hle
  refine ⟨⟨hname, hmem f hf, g, hmem g hg, hgname, hlt⟩, fun h => hnot (hq h), ?_, hpos, ?_⟩
  · cases hm : w.isFullyProcessed f with
    | false => rfl
    | true =>
      rw [hmark hm] at hunmarked
      cases hunmarked
  · rw [← hmax hunmarked]
    exact hle

/-- No step of a call strands a segment, if its commits are timely. -/
theorem stranded_discipline : Discipline libs settings Timely c Eq (fun _ _ => True)
    (fun w _ => NoneStranded w ∧ Within d w) (fun _ _ _ => True) where
  lasting _ _ _ _ h _ := h
  rely w w' hheld hR := by
    subst hR
    exact ⟨hheld, Frame.refl w⟩
  stable w w' p _ hI hR := by
    subst hR
    exact hI
  neutral w w' p _ _ hI hq := by
    refine ⟨trivial, fun f hf => hI.1 f (hf.of_step ?_ ?_ ?_ fun _ => hq.maxOffset f), fun f hf => ?_⟩
    · exact fun g _ => by rw [hq.walDir]
    · exact fun h => by rw [hq.quarantined]; exact h
    · exact fun h => by rw [hq.isFullyProcessed]; exact h
    · rw [hq.walDir] at hf ⊢
      exact hI.2 f hf
  read _ _ _ _ _ _ hI _ _ _ _ _ _ := hI
  flush w w' p name _ _ hI _ _ _ _ _ hallowed hw' := by
    subst hw'
    refine ⟨trivial, fun f hf => ?_, hI.2⟩
    have hbehind : w.Behind f := hf.behind
    have hnot : f ∉ w.quarantined := hf.unquarantined
    have hunmarked := hf.unmarked
    have hnonempty : 0 < (w.content f).length := hf.nonempty
    have hconsumed : (w.content f).length ≤ max (w.maxOffset f)
        ((p.batch.offsets.lookup f).getD 0) := by
      rw [← maxOffset_commitBatch]
      exact hf.consumed
    rw [isFullyProcessed_commitBatch] at hunmarked
    -- the watermark was not at the end, so the batch holds the end
    have hbefore : w.maxOffset f < (w.content f).length := by
      by_contra hle
      exact hI.1 f ⟨hbehind, hnot, hunmarked, hnonempty, by omega⟩
    cases hl : p.batch.offsets.lookup f with
    | none =>
      rw [hl] at hconsumed
      simp only [Option.getD_none] at hconsumed
      omega
    | some q =>
      have hlt := hallowed f q hl hbehind hnot hunmarked
      rw [hl] at hconsumed
      simp only [Option.getD_some] at hconsumed
      omega
  mark w w' p f _ _ hI _ _ hw' := by
    subst hw'
    refine ⟨trivial, fun g hg => hI.1 g (hg.of_step (fun _ _ => rfl) id ?_ ?_), hI.2⟩
    · intro h
      rw [isFullyProcessed_commitMark, h, Bool.or_true]
    · intro h
      rw [isFullyProcessed_commitMark] at h
      rw [maxOffset_commitMark, if_neg]
      intro hh
      simp [hh.1] at h
  badHeader _ _ _ _ _ _ _ _ _ _ := trivial
  badPayload _ _ _ _ _ _ _ _ _ _ _ _ := trivial
  quarantine w w' p f e size _ _ hI _ _ _ _ _ hw' := by
    subst hw'
    refine ⟨trivial, fun g hg => hI.1 g (hg.of_step (fun _ _ => rfl) ?_ id fun _ => rfl), hI.2⟩
    intro h
    have hq : (w.exec libs settings (.commitQuarantine f e.offset e.message size)).2.quarantined =
        w.quarantined ++ [f] := by
      simp [World.exec, World.quarantined, ControlStore.commitQuarantine]
    rw [hq]
    exact List.mem_append_left _ h
  compact w w' p name merged files _ _ hI _ _ _ _ _ _ hname _ _ hw' := by
    subst hw'
    simp only [World.exec, if_neg hname]
    exact ⟨trivial, fun g hg => hI.1 g (hg.of_step (fun _ _ => rfl) id id fun _ => rfl), hI.2⟩
  delete w w' p f _ _ hI _ hsealed _ hw' := by
    subst hw'
    obtain ⟨bytes, hl⟩ := Option.isSome_iff_exists.mp (AList.lookup_isSome.mpr hsealed.1)
    simp only [World.exec, hl]
    have hlookup : ∀ g ∈ w.walDir.erase f, (w.walDir.erase f).lookup g = w.walDir.lookup g :=
      fun g hg => AList.lookup_erase_ne (AList.mem_erase.mp hg).1
    refine ⟨trivial, fun g hg => hI.1 g (hg.of_step hlookup id id fun _ => rfl), fun g hg => ?_⟩
    rw [hlookup g hg]
    exact hI.2 g (AList.mem_erase.mp hg).2

theorem stranded_encloses : Encloses libs t Eq (fun _ _ => True)
    (fun w _ => NoneStranded w ∧ Within d w) where
  others w w' hR := by
    subst hR
    exact ⟨rfl, Frame.refl w⟩
  stable w w' p hI hR := by
    subst hR
    exact hI
  relocked w w' p hI hr := by
    obtain ⟨e, n, l, renamed, rfl⟩ := hr
    exact ⟨fun g hg => hI.1 g (hg.of_step (fun _ _ => rfl) id id fun _ => rfl), hI.2⟩
  admits _ _ _ _ _ _ _ := trivial

theorem materialize_stranded (hlibs : FreshNames libs) (hsize : 0 < settings.materializeBatchSize) :
    Triple (guarded libs settings Timely) Eq (fun _ _ => True)
      (Ready libs (fun w _ => NoneStranded w ∧ Within d w) fun w => w.walDir = d)
      (materialize libs settings t)
      (Finished libs (fun w _ => NoneStranded w ∧ Within d w) fun _ w p =>
        Caught (· ∈ d) (fun f => ((d.lookup f).getD []).length) p w) := by
  unfold materialize
  apply stranded_encloses.lock_triple
  · intro w w' hR hd
    rw [← hR]
    exact hd
  · intro w w' hr hd
    obtain ⟨e, n, l, renamed, rfl⟩ := hr
    exact hd
  · intro a p w w' hR h
    rw [← hR]
    exact h
  · intro a p w w' hr h
    obtain ⟨e, n, l, renamed, rfl⟩ := hr
    exact ⟨h.finished, h.consumed⟩
  intro c hc
  subst hc
  apply ((stranded_discipline (d := d)).materializeAll_triple hlibs hsize
    (fun f => ((d.lookup f).getD []).length) (· ∈ d)).conseq
  · intro w hw
    obtain ⟨hin, hI, hd⟩ := hw
    refine ⟨hin, hI, fun f => ?_, fun f h => ?_⟩
    · rw [World.content, hd]
    · rw [hd]
      exact h
  · intro r w hw
    cases r with
    | error e =>
      obtain ⟨p, hin, hI, -⟩ := hw
      exact ⟨p, hin, hI, fun a h => by cases h⟩
    | ok total =>
      obtain ⟨p, -, -, hin, hI, hcaught⟩ := hw
      exact ⟨p, hin, hI, fun _ _ => hcaught⟩

theorem Served.reachable {M : Nat} {Start Stop : World → Prop} {Allowed : Guard}
    (h : Served libs M Start Allowed w) : Reachable libs M Stop w := by
  induction h with
  | start h => exact .start h
  | gateway _ hs ih => exact .gateway ih hs
  | @materialized w w' t settings total _ hsize hM _ hr ih =>
    have hr' : Prog.Runs (faulty libs settings) (materialize libs settings t, w) (.ret total, w') :=
      (guard_faulty hr).mono (M := guarded libs settings Allowed) (N := faulty libs settings)
        fun _ _ _ _ hm => hm.2
    exact .returned ih (.materialize hsize) hM hr'
  | cleaned _ hM hr ih => exact .returned ih .cleanup hM (regular_faulty hr)

theorem Served.rest (hlibs : FreshNames libs) {M : Nat} {Start : World → Prop} {Allowed : Guard}
    (h : Served libs M Start Allowed w) : ∃ C, Rest libs M True True C w := by
  have hreachable : Reachable libs M Flushed w := h.reachable
  exact hreachable.rest hlibs fun _ => ⟨trivial, fun _ hs => hs⟩

end Stranded

section Cleanup

variable {libs : Libs} {settings : Settings} {w w₀ : World} {f : String} {t : Thread}
  {rest marked : List String}

/-- The segments and the marks are still those of `w₀`. -/
def Untouched (w₀ w : World) : Prop :=
  w.walDir = w₀.walDir ∧ w.control.materializedWalOffsets = w₀.control.materializedWalOffsets

/-- The marked segments that are not the last one are still to come, or deleted. -/
def Deleted (w₀ : World) (marked rest : List String) (w : World) : Prop :=
  (∀ f, w₀.isFullyProcessed f = true → f ∈ marked) ∧
    ∀ f, w₀.Behind f → w₀.isFullyProcessed f = true → f ∈ rest ∨ f ∉ w.walDir

theorem Deleted.next (h : Deleted w₀ marked (f :: rest) w) (hf : f ∉ marked ∨ f ∉ w'.walDir)
    (hdir : ∀ g ∈ w'.walDir, g ∈ w.walDir) : Deleted w₀ marked rest w' := by
  obtain ⟨hmarked, hdeleted⟩ := h
  refine ⟨hmarked, fun g hg hmark => ?_⟩
  rcases hdeleted g hg hmark with hmem | hmem
  · rcases List.mem_cons.mp hmem with heq | hmem
    · rw [heq] at hmark ⊢
      exact .inr (hf.resolve_left fun h => h (hmarked f hmark))
    · exact .inl hmem
  · exact .inr fun h => hmem (hdir g h)

theorem deleteSegment_unraised (deletedFiles : List String) :
    Triple (trial libs settings) Eq (fun _ _ => True) (Unraised (Deleted w₀ marked (f :: rest)))
      (deleteSegment marked deletedFiles f) fun r => Unraised fun w => match r with
        | .ok _ => Deleted w₀ marked rest w
        | .error _ => True := by
  unfold deleteSegment
  apply Triple.cond
  · intro hf
    apply Triple.ret
    exact fun s hs hnone => (hs hnone).next (.inl hf) fun _ h => h
  intro _
  apply Triple.tryThen (J := fun _ => Unraised (Deleted w₀ marked rest))
  · apply unraised_perform (K := fun _ => Deleted w₀ marked rest)
    intro w r w' hw hexec
    cases hl : w.walDir.lookup f with
    | none =>
      simp only [World.exec, hl] at hexec
      obtain ⟨-, hw'⟩ := Prod.mk.inj hexec
      rw [← hw']
      exact hw.next (.inr (AList.lookup_eq_none.mp hl)) fun _ h => h
    | some bytes =>
      simp only [World.exec, hl] at hexec
      obtain ⟨-, hw'⟩ := Prod.mk.inj hexec
      rw [← hw']
      exact hw.next (.inr fun h => (AList.mem_erase.mp h).1 rfl) fun _ h => (AList.mem_erase.mp h).2
  intro unlinked
  split
  · apply Triple.bind (J := fun _ => Unraised (Deleted w₀ marked rest))
    · apply unraised_perform (K := fun _ => Deleted w₀ marked rest)
      intro w r w' hw hexec
      obtain ⟨-, hw'⟩ := Prod.mk.inj hexec
      rw [← hw']
      exact hw
    · exact fun _ => Triple.ret fun s hs => hs
    · exact fun _ s hs _ => trivial
  · exact Triple.ret fun s hs => hs
  · exact Triple.raise fun s hs _ => trivial

/-- A segment that is not the last one is among those that the cleanup goes through. -/
theorem World.Behind.mem_dropLast (h : w.Behind f) :
    f ∈ (sortSegments (w.walDir.keys.filter (hasSuffix ".wal"))).dropLast := by
  obtain ⟨hname, hf, g, hg, hgname, hlt⟩ := h
  have hmem : ∀ a, a ∈ w.walDir → hasSuffix ".wal" a = true →
      a ∈ sortSegments (w.walDir.keys.filter (hasSuffix ".wal")) :=
    fun a ha hname => mem_sortSegments.mpr (List.mem_filter.mpr ⟨ha, hname⟩)
  have hsorted := hmem f hf hname
  cases hlast : (sortSegments (w.walDir.keys.filter (hasSuffix ".wal"))).getLast? with
  | none =>
    rw [List.getLast?_eq_none_iff.mp hlast] at hsorted
    cases hsorted
  | some active =>
    obtain ⟨front, hfront⟩ := List.getLast?_eq_some_iff.mp hlast
    rw [hfront, List.dropLast_concat]
    rw [hfront] at hsorted
    rcases List.mem_append.mp hsorted with hsorted | hsorted
    · exact hsorted
    · obtain rfl := List.mem_singleton.mp hsorted
      have hne : g ≠ f := by
        intro heq
        rw [heq] at hlt
        exact lt_irrefl _ hlt
      have hgt := (lt_getLast_sortSegments (mem_sortSegments.mp (hmem g hg hgname)) hlast hne).2
      exact absurd hlt (lt_asymm hgt)

theorem cleanupSealed_unraised :
    Triple (trial libs settings) Eq (fun _ _ => True) (Unraised (Untouched w₀)) cleanupSealed
      fun r => Unraised fun w => ∀ deleted, r = .ok deleted → ∀ f, w₀.Behind f →
        w₀.isFullyProcessed f = true → f ∉ w.walDir := by
  unfold cleanupSealed
  apply Triple.bind (J := fun r => Unraised fun w => Untouched w₀ w ∧ ∀ names, r = .ok names →
    names = w₀.walDir.keys.filter (hasSuffix ".wal"))
  · apply unraised_perform (K := fun r w => Untouched w₀ w ∧ ∀ names, r = .ok names →
      names = w₀.walDir.keys.filter (hasSuffix ".wal"))
    intro w r w' hw hexec
    obtain ⟨rfl, rfl⟩ := Prod.mk.inj hexec
    refine ⟨hw, fun names h => ?_⟩
    rw [← hw.1]
    exact (Except.ok.inj h).symm
  swap
  · exact fun e s hs _ deleted h => by cases h
  intro names
  apply Triple.cond
  · intro hle
    apply Triple.ret
    intro s hs hnone deleted _ f hf _
    have hmem := hf.mem_dropLast
    rw [← (hs hnone).2 names rfl] at hmem
    have hlen := List.length_pos_of_mem hmem
    rw [List.length_dropLast] at hlen
    omega
  intro _
  apply Triple.bind (J := fun r => Unraised fun w => ∀ marked, r = .ok marked →
    Deleted w₀ marked (sortSegments names).dropLast w)
  · apply (unraised_perform (F := fun w => Untouched w₀ w ∧
      names = w₀.walDir.keys.filter (hasSuffix ".wal")) (K := fun r w => ∀ marked, r = .ok marked →
        Deleted w₀ marked (sortSegments names).dropLast w) ?_).pre
    · exact fun s hs hnone => ⟨(hs hnone).1, (hs hnone).2 names rfl⟩
    · intro w r w' hw hexec marked hr
      obtain ⟨⟨-, hoffsets⟩, hnames⟩ := hw
      obtain ⟨hr', -⟩ := Prod.mk.inj hexec
      rw [hr] at hr'
      refine ⟨fun f hf => ?_, fun f hf _ => .inl ?_⟩
      · rw [← Except.ok.inj hr']
        have hflag : w.isFullyProcessed f = true := by
          rw [World.isFullyProcessed, hoffsets]
          exact hf
        refine List.mem_filter.mpr ⟨?_, hflag⟩
        by_contra hnot
        rw [World.isFullyProcessed, AList.lookup_eq_none.mpr fun h => hnot h] at hflag
        cases hflag
      · rw [hnames]
        exact hf.mem_dropLast
  swap
  · exact fun e s hs _ deleted h => by cases h
  intro marked
  apply (Triple.forEach (I := fun rest _ => Unraised (Deleted w₀ marked rest)) ?_ ?_).pre
  · exact fun s hs hnone => hs hnone marked rfl
  · intro f rest deletedFiles
    apply (deleteSegment_unraised deletedFiles).post
    intro r s hs
    cases r with
    | ok deletedFiles => exact hs
    | error e => exact fun _ deleted h => by cases h
  · intro deletedFiles s hs hnone deleted _ f hf hmark
    exact ((hs hnone).2 f hf hmark).resolve_left List.not_mem_nil

theorem unraised_untouched {K : Except PyError (List String) → World → Prop}
    (hK : ∀ r w w', Relocked w w' → K r w → K r w') (herror : ∀ e w, K (.error e) w) :
    Unaffected (fun _ => True) (Unraised (Untouched w₀)) fun r => Unraised (K r) := by
  apply Unaffected.unraised ?_ hK herror
  intro w w' hr hw
  obtain ⟨e, n, l, renamed, rfl⟩ := hr
  exact hw

/-- A cleanup that returns has deleted every marked segment but the last one. -/
theorem cleanup_deletes {deleted : List String}
    (hr : Prog.Runs (regular libs settings) (cleanupMaterializedWalFiles t, w) (.ret deleted, w'))
    (hf : w.Behind f) (hmark : w.isFullyProcessed f = true) : f ∉ w'.walDir := by
  have htriple : Triple (trial libs settings) Eq (fun _ _ => True) (Unraised (Untouched w))
      (cleanupMaterializedWalFiles t) fun r => Unraised fun w' => ∀ deleted, r = .ok deleted →
        ∀ f, w.Behind f → w.isFullyProcessed f = true → f ∉ w'.walDir := by
    unfold cleanupMaterializedWalFiles
    apply (unraised_untouched (K := fun r w' => ∀ deleted, r = .ok deleted → ∀ f, w.Behind f →
      w.isFullyProcessed f = true → f ∉ w'.walDir) ?_ ?_).lock_triple cleanupSealed_unraised
    · intro r w₁ w₂ hr h deleted hres f hf hmark
      obtain ⟨e, n, l, renamed, rfl⟩ := hr
      exact h deleted hres f hf hmark
    · exact fun e w' deleted hres => by cases hres
  have hdone := (htriple.runs (I := fun _ => True) (fun _ => ⟨rfl, rfl⟩) trivial (regular_trial hr)).2
  exact hdone (.ok deleted) rfl rfl deleted rfl f hf hmark

end Cleanup

section Marked

variable {libs : Libs} {M : Nat} {w w' : World} {f : String}

theorem gateway_behind (h : Relation.ReflTransGen GatewayStep w w') (hf : w.Behind f) :
    w'.Behind f ∧ w'.isFullyProcessed f = w.isFullyProcessed f := by
  induction h with
  | refl => exact ⟨hf, rfl⟩
  | tail _ hs ih =>
    obtain ⟨⟨hname, hf, g, hg, hgname, hlt⟩, hmark⟩ := ih
    have hframe := hs.frame.2
    exact ⟨⟨hname, (hframe.segment f hf).1, g, (hframe.segment g hg).1, hgname, hlt⟩,
      (hframe.isFullyProcessed f).trans hmark⟩

/-- In every run in which no segment is stranded and all commits are timely: when
`materialize` returns, every sealed segment that is not quarantined is marked, and
the next cleanup deletes it, whatever the gateway has done in the meantime. -/
theorem sealed_marked (hlibs : FreshNames libs) (h : Served libs M NoneStranded Timely w)
    {t : Thread} {settings : Settings} {total : Nat} (hsize : 0 < settings.materializeBatchSize)
    (hM : settings.maxWalRecordBytes = M) (hs : NoneStranded w)
    (hr : Prog.Runs ((regular libs settings).guard Timely) (materialize libs settings t, w)
      (.ret total, w')) (hf : w'.Behind f) (hq : f ∉ w'.quarantined) :
    w'.isFullyProcessed f = true ∧ ∀ w₁ w₂ settings' t' deleted,
      Relation.ReflTransGen GatewayStep w' w₁ →
      Prog.Runs (regular libs settings') (cleanupMaterializedWalFiles t', w₁) (.ret deleted, w₂) →
      f ∉ w₂.walDir := by
  have hmarked : w'.isFullyProcessed f = true := by
    obtain ⟨C, hrest⟩ := h.rest hlibs
    obtain ⟨C', hrest'⟩ := (Served.materialized h hsize hM hs hr).rest hlibs
    have hdone := ((materialize_stranded hlibs hsize).runs (I := fun _ => True)
      ⟨hrest.fresh, hrest.unlocked, rfl, hs, fun _ _ => rfl⟩ trivial (guard_faulty hr)).2 (.ok total) rfl
    obtain ⟨-, -, p, ⟨hnone, hwithin⟩, hcaught⟩ := hdone
    obtain ⟨hname, hmem, g, hg, hgname, hlt⟩ := hf
    have hin : ∀ a ∈ w'.walDir, a ∈ w.walDir := by
      intro a ha
      rw [← AList.lookup_isSome, ← hwithin a ha, AList.lookup_isSome]
      exact ha
    have hlen : ((w.walDir.lookup f).getD []).length = (w'.content f).length := by
      rw [World.content, hwithin f hmem]
    rcases (hcaught total rfl).consumed f g hname (hin f hmem) hgname (hin g hg) hlt hlen with
      hmem' | hmark | ⟨hle, hpos⟩
    · exact absurd hmem' hq
    · exact hmark
    · have hwatermark := (hrest'.ledger.watermark f).le_length
      rw [written_of_mem hmem] at hwatermark
      by_contra hunmarked
      exact hnone f ⟨⟨hname, hmem, g, hg, hgname, hlt⟩, hq, Bool.eq_false_iff.mpr hunmarked,
        by omega, by omega⟩
  refine ⟨hmarked, fun w₁ w₂ settings' t' deleted hgateway hclean => ?_⟩
  obtain ⟨hbehind, hsame⟩ := gateway_behind hgateway hf
  exact cleanup_deletes hclean hbehind (hsame.trans hmarked)

theorem served_committed (hlibs : FreshNames libs) {Start : World → Prop} {Allowed : Guard}
    (h : Served libs M Start Allowed w) {r : WalRecord} (hr : HasRecord M (w.written f) r)
    (hle : r.stop ≤ w.maxOffset f) : Committed libs w f r := by
  obtain ⟨C, hrest⟩ := h.rest hlibs
  apply (hrest.not_lost hr).resolve_right
  intro hpending
  have hlt := hr.2.start_lt_stop
  have hunread := hpending.unread
  omega

/-- The operations that `Timely` admits. -/
def timelyCheck : {α : Type} → Op α → World → Bool
  | _, .commitBatch _ _ _ fileOffsets, w => fileOffsets.keys.all fun f =>
      w.isFullyProcessed f || ((fileOffsets.lookup f).getD 0 < (w.content f).length : Bool)
  | _, _, _ => true

theorem timely_of_check {α : Type} {o : Op α} (h : timelyCheck o w = true) : Timely o w := by
  cases o with
  | commitBatch name count entries fileOffsets =>
    intro g q hl _ _ hunmarked
    have hg : g ∈ fileOffsets := by
      rw [← AList.lookup_isSome, hl]
      rfl
    have hcheck := List.all_eq_true.mp h g hg
    rw [hunmarked, hl] at hcheck
    simpa using hcheck
  | _ => trivial

end Marked

/-- A call followed as long as its steps are timely. -/
def World.followTimely (libs : Libs) (settings : Settings) {α : Type} (n : Nat) (p : Call α)
    (w : World) : Call α × World :=
  Prog.follow (fun o w => if timelyCheck o w then some (World.exec libs settings o w) else none) n (p, w)

theorem World.followTimely_outcome {libs : Libs} {settings : Settings} {α : Type} {n : Nat}
    {p : Call α} {w : World} {r : Except PyError α}
    (h : (w.followTimely libs settings n p).1.outcome? = some r) :
    Prog.Runs ((regular libs settings).guard Timely) (p, w)
      (.done r, (w.followTimely libs settings n p).2) := by
  apply Prog.follow_outcome ?_ h
  intro γ o w r w' hexec
  split_ifs at hexec with hcheck
  exact ⟨timely_of_check hcheck, Option.some.inj hexec⟩

/-- The store of `sealedSegment` after a run of `materialize`. -/
def markedSegment : World :=
  (sealedSegment.followTimely sampleLibs {} 60 (materialize sampleLibs {} ⟨0, 0⟩)).2

theorem sealed_marked_sealed :
    markedSegment.isFullyProcessed "wal-0.wal" = true ∧ ∀ w₁ w₂ settings' t' deleted,
      Relation.ReflTransGen GatewayStep markedSegment w₁ →
      Prog.Runs (regular sampleLibs settings') (cleanupMaterializedWalFiles t', w₁)
        (.ret deleted, w₂) → "wal-0.wal" ∉ w₂.walDir := by
  have hinitial : Initial sampleLibs sealedSegment := initial_ofSegments _ _
  have hnone : NoneStranded sealedSegment := by
    intro f hf
    have hzero : sealedSegment.maxOffset f = 0 := by
      rw [World.maxOffset, hinitial.control]
      rfl
    have hpos : 0 < (sealedSegment.content f).length := hf.nonempty
    have hle := hf.consumed
    omega
  have hrun : Prog.Runs ((regular sampleLibs {}).guard Timely)
      (materialize sampleLibs {} ⟨0, 0⟩, sealedSegment) (.ret 1, markedSegment) :=
    World.followTimely_outcome (r := .ok 1) (by decide +kernel)
  -- the last state is a variable, so that nothing is computed here
  have key : ∀ w, Prog.Runs ((regular sampleLibs {}).guard Timely)
      (materialize sampleLibs {} ⟨0, 0⟩, sealedSegment) (.ret 1, w) → "wal-0.wal" ∈ w.walDir →
      "wal-1.wal" ∈ w.walDir → "wal-0.wal" ∉ w.quarantined →
      w.isFullyProcessed "wal-0.wal" = true ∧ ∀ w₁ w₂ settings' t' deleted,
        Relation.ReflTransGen GatewayStep w w₁ →
        Prog.Runs (regular sampleLibs settings') (cleanupMaterializedWalFiles t', w₁)
          (.ret deleted, w₂) → "wal-0.wal" ∉ w₂.walDir :=
    fun w hr hf hg hq => sealed_marked sampleLibs_freshNames (.start hinitial) (by decide) rfl hnone hr
      ⟨by decide +kernel, hf, "wal-1.wal", hg, by decide +kernel, by decide +kernel⟩ hq
  exact key markedSegment hrun (by decide +kernel) (by decide +kernel) (by decide +kernel)

/-- The store of `sealedSegment` after a run with batches of one row. -/
def strandedSegment : World :=
  (sealedSegment.follow sampleLibs { materializeBatchSize := 1 } 60
    (materialize sampleLibs { materializeBatchSize := 1 } ⟨0, 0⟩)).2

/-- The last record of the sealed segment fills the batch: the flush clears the
offset that the test for the end of the segment needs. -/
theorem not_sealed_marked :
    ¬ ∀ (libs : Libs) (M : Nat) (w w' : World) (t : Thread) (settings : Settings) (total : Nat)
      (f : String), FreshNames libs → Served libs M (fun _ => True) Unguarded w →
        0 < settings.materializeBatchSize → settings.maxWalRecordBytes = M →
        Prog.Runs (regular libs settings) (materialize libs settings t, w) (.ret total, w') →
        w'.Behind f → f ∉ w'.quarantined →
        (∀ r, HasRecord M (w'.content f) r → Committed libs w' f r) → w'.isFullyProcessed f = true := by
  intro h
  have hrun : Prog.Runs (regular sampleLibs { materializeBatchSize := 1 })
      (materialize sampleLibs { materializeBatchSize := 1 } ⟨0, 0⟩, sealedSegment)
      (.ret 1, strandedSegment) := World.follow_outcome (r := .ok 1) (by decide +kernel)
  have key : ∀ w, Prog.Runs (regular sampleLibs { materializeBatchSize := 1 })
      (materialize sampleLibs { materializeBatchSize := 1 } ⟨0, 0⟩, sealedSegment) (.ret 1, w) →
      "wal-0.wal" ∈ w.walDir → "wal-1.wal" ∈ w.walDir → "wal-0.wal" ∉ w.quarantined →
      (w.content "wal-0.wal").length ≤ w.maxOffset "wal-0.wal" →
      w.isFullyProcessed "wal-0.wal" = true := by
    intro w hr hf hg hq hle
    have hstart : Served sampleLibs (64 * 1024 * 1024) (fun _ => True) Unguarded sealedSegment :=
      .start (initial_ofSegments _ _)
    have hr' : Prog.Runs ((regular sampleLibs { materializeBatchSize := 1 }).guard Unguarded)
        (materialize sampleLibs { materializeBatchSize := 1 } ⟨0, 0⟩, sealedSegment) (.ret 1, w) :=
      hr.mono (N := (regular sampleLibs { materializeBatchSize := 1 }).guard Unguarded)
        fun _ _ _ _ hm => ⟨trivial, hm⟩
    have hserved : Served sampleLibs (64 * 1024 * 1024) (fun _ => True) Unguarded w :=
      .materialized hstart (by decide) rfl trivial hr'
    apply h sampleLibs (64 * 1024 * 1024) sealedSegment w ⟨0, 0⟩ { materializeBatchSize := 1 } 1
      "wal-0.wal" sampleLibs_freshNames hstart (by decide) rfl hr
      ⟨by decide +kernel, hf, "wal-1.wal", hg, by decide +kernel, by decide +kernel⟩ hq
    intro r hrec
    apply served_committed sampleLibs_freshNames hserved
    · rw [written_of_mem hf]
      exact hrec
    · exact hrec.2.stop_le.trans hle
  have hmarked : strandedSegment.isFullyProcessed "wal-0.wal" = true :=
    key strandedSegment hrun (by decide +kernel) (by decide +kernel) (by decide +kernel) (by decide +kernel)
  exact absurd hmarked (by decide +kernel)

end Lrcp.Store
