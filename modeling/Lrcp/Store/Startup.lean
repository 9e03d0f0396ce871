import Lrcp.Store.Internal
import Lrcp.Store.Parallel

namespace Lrcp.Store

open Lrcp.Wal Lrcp.Otlp Lrcp.Framework

/-- An operation that removes no Parquet file that the manifest calls `COMMITTED`, and none that
has been moved into place and waits for its commit. -/
def Op.spares : {α : Type} → Op α → World → Prop
  | _, .unlinkParquet f, w => w.isCommitted f = false ∧ f ∉ w.history.renamed
  | _, _, _ => True

/-- Processes that share a data directory: `app` starts the application any number of times,
the others make calls under the lifecycle lock, and the gateway is at work. Operations may fail
and threads may be killed. `Allowed` restricts the operations of the starts, and the lock is
given back, or its holder killed, in a state that `Stop` admits. -/
def service (libs : Libs) (settings : Thread → Settings) (app : Nat) (Allowed : Guard)
    (Stop : World → Prop) : System Op PyError Unit World Thread where
  machine t := if t.process = app then guarded libs (settings t) Allowed
    else guarded libs (settings t) (Op.releases Stop)
  start t p _ := if t.process = app then p = lifespan.discard else
    ∃ (α : Type) (q : Call α), IsCall libs t (settings t) q ∧ p = q.discard
  env := Extended
  kill t w w' := (∀ c, w.exclusive = some c → c.owner = t → Stop w) ∧ w' = w.crash t

/-- The same processes, where no operation fails and no thread is killed. -/
def faultless (libs : Libs) (settings : Thread → Settings) (app : Nat) (Allowed : Guard) :
    System Op PyError Unit World Thread :=
  { service libs settings app Allowed fun _ => True with
    machine := fun t => if t.process = app then (regular libs (settings t)).guard Allowed
      else regular libs (settings t)
    kill := fun _ _ _ => False }

/-- Every thread keeps what is asserted of the call inside the lock. -/
structure Upheld (libs : Libs) (settings : Thread → Settings) (Stop : World → Prop)
    (K : World → Progress → Prop) (Bad : String → WalCorruptionError → Bytes → Prop) : Prop where
  durable : Durable Stop K
  discipline : ∀ t c, c.owner = t →
    Discipline libs (settings t) (Op.releases Stop) c Eq (fun _ _ => True) K Bad

/-- Every file that the manifest calls `COMMITTED` is there, with a footer and as many
rows as the manifest says. -/
def Complete (w : World) : Prop :=
  ∀ f recordCount, w.control.parquetFiles.lookup f = some ⟨recordCount, .committed⟩ →
    ∃ file, w.parquetDir.lookup f = some file ∧ file.footer = true ∧ file.rows.length = recordCount

section Startup

variable {libs : Libs} {settings : Thread → Settings} {app : Nat} {Stop : World → Prop}
  {K : World → Progress → Prop} {Bad : String → WalCorruptionError → Bytes → Prop} {t : Thread} {w w' : World}
  {X Y : Pool Op PyError Unit World Thread}

/-- What a start removes was not committed. -/
theorem Op.sweeping.quiet {α : Type} {o : Op α} {settings : Settings} {r : Except PyError α}
    (ho : o.sweeping) (hspares : o.spares w) (h : World.exec libs settings o w = (r, w')) :
    Quiet w w' ∧ Frame w w' := by
  cases o with
  | unlinkParquet f =>
    obtain ⟨-, rfl⟩ := Prod.mk.inj h
    have hother : ∀ g, g ≠ f → (w.parquetDir.erase f).lookup g = w.parquetDir.lookup g :=
      fun g hg => AList.lookup_erase_ne hg
    have hcommitted : ∀ g, w.isCommitted g = true → g ≠ f := by
      intro g hg hgf
      subst hgf
      rw [hspares.1] at hg
      cases hg
    refine ⟨{ Quiet.refl w with committed := fun g hg => hother g (hcommitted g hg), known := fun g _ => ?_ },
      { Frame.refl w with parquet := fun g file hl => ?_, kept := fun g hg => hother g ?_ }⟩
    · by_cases hgf : g = f
      · subst hgf
        exact .inr (AList.lookup_erase g _)
      · exact .inl (hother g hgf)
    · by_cases hgf : g = f
      · subst hgf
        rw [AList.lookup_erase] at hl
        cases hl
      · rw [hother g hgf] at hl
        exact hl
    · rcases hg with hg | hg
      · exact hcommitted g hg
      · exact fun hgf => hspares.2 (hgf ▸ hg)
  | createTables | mkdirWal | mkdirParquet | globTmp | globParquet | selectCommitted =>
    obtain ⟨-, rfl⟩ := Prod.mk.inj h
    exact ⟨.refl w, .refl w⟩
  | _ => exact ho.elim

/-- A start of the application that spares what is committed, beside any calls. -/
theorem lifespan_parallel {settings : Settings} (D : Durable Stop K) :
    Triple (guarded libs settings Op.spares) (Undisturbed libs K t) (Yields libs K t) (Intact libs K)
      lifespan fun _ => Intact libs K := by
  apply sweeping_lifespan.triple
  · exact fun _ _ hw hR => hR.intact hw
  intro β o w r w' ho hw hstep
  have hyields : Yields libs K t w w' := by
    obtain ⟨hspares, hexec | ⟨e, -, -, rfl⟩⟩ := hstep
    · obtain ⟨hquiet, hframe⟩ := ho.quiet hspares hexec
      exact hw.yields D hquiet hframe
    · exact hw.yields D (.refl w') (.refl w')
  exact ⟨hyields, hyields.intact⟩

/-- The starts and the calls get along. -/
theorem service_compatible (hlibs : FreshNames libs) (U : Upheld libs settings Stop K Bad) :
    Compatible (service libs settings app Op.spares Stop) (Intact libs K) (Undisturbed libs K)
      (Yields libs K) where
  refl t w := .refl libs K t w
  trans _ _ _ _ h h' := h.trans h'
  keeps _ _ _ _ h := ⟨h.intact, fun _ hu => h.undisturbed hu⟩
  env w w' hw h := ⟨(h.undisturbed (t := ⟨0, 0⟩) U.durable).intact hw, fun _ => h.undisturbed U.durable⟩
  kill t w w' hw h := by
    obtain ⟨hstop, rfl⟩ := h
    have hyields : Yields libs K t w (w.crash t) := hw.crash U.durable t hstop
    exact ⟨hyields.intact, fun _ hu => hyields.undisturbed hu⟩
  start t p w hw hp := by
    simp only [service] at hp ⊢
    split_ifs at hp ⊢ with happ
    · rw [hp]
      exact .of_triple (Undisturbed.refl libs K t) ((lifespan_parallel U.durable).discard
        (fun _ _ _ => trivial) fun _ _ _ => trivial) hw
    · obtain ⟨α, q, hq, rfl⟩ := hp
      exact .of_triple (Undisturbed.refl libs K t) ((hq.parallel hlibs U.durable (U.discipline t)).discard
        (fun _ _ _ => trivial) fun _ _ _ => trivial) hw

/-- What a step of the processes does to the store. -/
theorem service_trims (hlibs : FreshNames libs) (U : Upheld libs settings Stop K Bad)
    (hX : Framework.Sound (service libs settings app Op.spares Stop) (Intact libs K) (Undisturbed libs K)
      (Yields libs K) X)
    (h : (service libs settings app Op.spares Stop).offline.Step X Y) :
    Advances X.state Y.state ∧ Trims X.state Y.state := by
  rcases (service_compatible hlibs U).step_cases hX h with heq | ⟨t, hG⟩ | ⟨t, hstop, hkill⟩
  · rw [heq]
    exact ⟨.refl _, .refl _⟩
  · exact ⟨hG.advances, hG.trims⟩
  · have hyields : Yields libs K t X.state Y.state := hkill ▸ hX.1.crash U.durable t hstop
    exact ⟨hyields.advances, hyields.trims⟩

/-- Whatever the processes do, the store advances. -/
theorem service_advances (hlibs : FreshNames libs) (U : Upheld libs settings Stop K Bad)
    (hX : Framework.Sound (service libs settings app Op.spares Stop) (Intact libs K) (Undisturbed libs K)
      (Yields libs K) X)
    (h : (service libs settings app Op.spares Stop).Reach X Y) : Advances X.state Y.state := by
  have hcompatible := @service_compatible libs settings app Stop K Bad hlibs U
  induction h with
  | refl => exact .refl _
  | @tail Y Z hY hstep ih =>
    apply ih.trans
    rcases System.step_offline.mp hstep with hoffline | ⟨-, hgateway⟩
    · exact (service_trims hlibs U (hcompatible.sound_reach hX hY) hoffline).1
    · exact hgateway.advances

theorem Initial.intact (h : Initial libs w) (hK : K w {}) : Intact libs K w where
  fresh := h.fresh
  serial c hc := by
    rw [h.exclusive] at hc
    cases hc
  kept := ⟨{}, hK⟩
  free _ := hK

/-- In a run from a new store everybody is covered. -/
theorem service_sound (hlibs : FreshNames libs) (U : Upheld libs settings Stop K Bad)
    (hw : Initial libs w) (hK : K w {})
    (hX : (service libs settings app Op.spares Stop).Reach ⟨fun _ => none, w⟩ X) :
    Framework.Sound (service libs settings app Op.spares Stop) (Intact libs K) (Undisturbed libs K)
      (Yields libs K) X :=
  (service_compatible hlibs U).sound_reach (Compatible.sound_idle (hw.intact hK)) hX

theorem Complete.of_same (h : Complete w) (hfiles : w'.control.parquetFiles = w.control.parquetFiles)
    (hdir : ∀ f, w.isCommitted f = true → w'.parquetDir.lookup f = w.parquetDir.lookup f) :
    Complete w' := by
  intro f recordCount hl
  rw [hfiles] at hl
  rw [hdir f (by rw [World.isCommitted, hl]; rfl)]
  exact h f recordCount hl

theorem complete_durable : Durable Stop fun w _ => Complete w where
  quiet h hq := h.of_same hq.files hq.committed
  relocked h hr := by
    obtain ⟨e, n, l, renamed, rfl⟩ := hr
    exact h
  gateway h hg := by
    obtain ⟨f, bytes, -, rfl⟩ := hg
    exact h
  drop h _ := h

/-- A file is committed once it is there. -/
theorem complete_discipline {settings : Settings} {Allowed : Guard} {c : Conn} :
    Discipline libs settings Allowed c Eq (fun _ _ => True) (fun w _ => Complete w)
      (fun _ _ _ => True) where
  lasting _ _ _ _ _ _ := trivial
  rely w w' hheld hR := ⟨hR ▸ hheld, hR ▸ .refl w⟩
  stable w w' p _ hI hR := hR ▸ hI
  neutral _ _ _ _ _ hI hq := ⟨trivial, hI.of_same hq.files hq.committed⟩
  read _ _ _ _ _ _ hI _ _ _ _ _ _ := hI
  flush w w' p name _ _ hI _ _ _ _ hl _ hw' := by
    subst hw'
    refine ⟨trivial, fun f recordCount hrow => ?_⟩
    simp only [World.exec, ControlStore.commitBatch] at hrow ⊢
    by_cases hf : f = name
    · subst hf
      rw [AList.lookup_insert] at hrow
      cases hrow
      exact ⟨_, hl, rfl, rfl⟩
    · rw [AList.lookup_insert_ne hf] at hrow
      exact hI f recordCount hrow
  mark _ _ _ _ _ _ hI _ _ hw' := ⟨trivial, hw' ▸ hI⟩
  badHeader _ _ _ _ _ _ _ _ _ _ := trivial
  badPayload _ _ _ _ _ _ _ _ _ _ _ _ := trivial
  quarantine _ _ _ _ _ _ _ _ hI _ _ _ _ _ hw' := ⟨trivial, hw' ▸ hI⟩
  compact w w' p name merged files _ _ hI _ _ _ _ _ _ hname hl _ hw' := by
    subst hw'
    refine ⟨trivial, fun f recordCount hrow => ?_⟩
    simp only [World.exec, if_neg hname, ControlStore.commitCompaction] at hrow ⊢
    rw [lookup_foldl_markCompacted] at hrow
    split_ifs at hrow
    · obtain ⟨row, -, hrow⟩ := Option.map_eq_some_iff.mp hrow
      cases hrow
    · by_cases hf : f = name
      · subst hf
        rw [AList.lookup_insert] at hrow
        cases hrow
        exact ⟨_, hl, rfl, rfl⟩
      · rw [AList.lookup_insert_ne hf] at hrow
        exact hI f recordCount hrow
  delete w w' p f _ _ hI _ _ _ hw' := by
    subst hw'
    cases hl : w.walDir.lookup f with
    | none =>
      simp only [World.exec, hl]
      exact ⟨trivial, hI⟩
    | some bytes =>
      simp only [World.exec, hl]
      exact ⟨trivial, hI⟩

theorem complete_upheld : Upheld libs settings Stop (fun w _ => Complete w) fun _ _ _ => True :=
  ⟨complete_durable, fun _ _ _ => complete_discipline⟩

theorem Initial.complete (h : Initial libs w) : Complete w := by
  intro f recordCount hl
  rw [h.control] at hl
  cases hl

/-- A thread makes a call, and the others go on. -/
theorem reach_called {Allowed : Guard} {α : Type} {q : Call α} (ht : t.process ≠ app)
    (hidle : X.thread t = none) (hq : IsCall libs t (settings t) q)
    (hY : (service libs settings app Allowed Stop).During t
      ⟨Function.update X.thread t (some q.discard), X.state⟩ Y) :
    (service libs settings app Allowed Stop).Reach X Y := by
  refine .head (System.Step.start t hidle ?_) (System.reach_during hY)
  simp only [service, if_neg ht]
  exact ⟨α, q, hq, rfl⟩

/-- A thread makes a call while the others stand still, and nothing fails. -/
theorem faultless_call {Allowed : Guard} {threads : Thread → Option (Call Unit)} {α : Type} {q : Call α}
    {p : Call Unit} (ht : t.process ≠ app) (hidle : threads t = none) (hq : IsCall libs t (settings t) q)
    (hr : Prog.Runs (regular libs (settings t)) (q.discard, w) (p, w')) :
    (faultless libs settings app Allowed).Reach ⟨threads, w⟩ ⟨Function.update threads t (some p), w'⟩ := by
  apply System.reach_start hidle (p := q.discard)
  · simp only [faultless, service, if_neg ht]
    exact ⟨α, q, hq, rfl⟩
  · simpa only [faultless, if_neg ht] using hr

/-- What happens without failures is a part of what may happen. -/
theorem faultless_reach {Allowed : Guard} (h : (faultless libs settings app Allowed).Reach X Y) :
    (service libs settings app Allowed fun _ => True).Reach X Y := by
  have hmaps : System.Maps (faultless libs settings app Allowed)
      (service libs settings app Allowed fun _ => True) id := by
    refine ⟨fun t β o w r w' hstep => ?_, fun _ _ _ hstart => hstart, fun _ _ _ hkill => hkill.elim⟩
    simp only [faultless, service] at hstep ⊢
    split_ifs at hstep ⊢ with ht
    · exact ⟨hstep.1, .inl hstep.2⟩
    · refine ⟨?_, .inl hstep⟩
      cases o with
      | rollback c => exact fun _ => trivial
      | _ => trivial
  apply Relation.ReflTransGen.mono _ _ _ h
  intro X Y hstep
  rcases System.step_offline.mp hstep with hoffline | henv
  · exact System.step_offline.mpr (.inl (hmaps.step hoffline))
  · exact System.step_offline.mpr (.inr henv)

end Startup

end Lrcp.Store
