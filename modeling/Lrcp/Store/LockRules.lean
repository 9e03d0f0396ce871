import Lrcp.Store.CompactRules
import Lrcp.Store.MaterializeRules

namespace Lrcp.Store

open Lrcp.Wal Lrcp.Otlp Lrcp.Framework

/-- A change to the locks that nobody else can see: the lock of the process, and
the number of connections. -/
structure Housekeeping (w w' : World) : Prop where
  same : ∃ n rlock, w.connections ≤ n ∧ w' = { w with connections := n, rlock := rlock }

namespace Housekeeping

variable {w w' : World}

theorem refl (w : World) : Housekeeping w w := ⟨w.connections, w.rlock, Nat.le_refl _, rfl⟩

theorem setRlock (w : World) (process : Nat) (held : Option (Nat × Nat)) :
    Housekeeping w (w.setRlock process held) := ⟨w.connections, _, Nat.le_refl _, rfl⟩

theorem connect (w : World) : Housekeeping w { w with connections := w.connections + 1 } :=
  ⟨w.connections + 1, w.rlock, Nat.le_succ _, rfl⟩

theorem quiet (h : Housekeeping w w') : Quiet w w' := by
  obtain ⟨n, rlock, hn, rfl⟩ := h
  exact { Quiet.refl w with connections := hn }

theorem fresh {libs : Libs} (h : Housekeeping w w') (hf : Fresh libs w) : Fresh libs w' := by
  obtain ⟨n, rlock, hn, rfl⟩ := h
  exact hf.of_eq (Nat.le_refl _) (fun _ h => h) rfl

theorem lockAcquire {libs : Libs} {settings : Settings} {t : Thread} {r : Except PyError Bool}
    (h : World.exec libs settings (.lockAcquire t) w = (r, w')) :
    Housekeeping w w' ∧ ∃ acquired, r = .ok acquired := by
  simp only [World.exec] at h
  split at h
  · obtain ⟨rfl, rfl⟩ := Prod.mk.inj h
    exact ⟨setRlock .., true, rfl⟩
  · split_ifs at h
    · obtain ⟨rfl, rfl⟩ := Prod.mk.inj h
      exact ⟨setRlock .., true, rfl⟩
    · obtain ⟨rfl, rfl⟩ := Prod.mk.inj h
      exact ⟨refl _, false, rfl⟩

theorem lockRelease {libs : Libs} {settings : Settings} {t : Thread} {r : Except PyError Unit}
    (h : World.exec libs settings (.lockRelease t) w = (r, w')) : Housekeeping w w' := by
  simp only [World.exec] at h
  split at h
  · obtain ⟨rfl, rfl⟩ := Prod.mk.inj h
    exact refl _
  · split_ifs at h
    · obtain ⟨rfl, rfl⟩ := Prod.mk.inj h
      exact setRlock ..
    · obtain ⟨rfl, rfl⟩ := Prod.mk.inj h
      exact setRlock ..
    · obtain ⟨rfl, rfl⟩ := Prod.mk.inj h
      exact refl _

end Housekeeping

/-- What holds outside the lifecycle lock of a thread, and what the others leave
alone: they never take the lock in its name. -/
structure Outside (t : Thread) (R G : World → World → Prop) (Out : World → Prop) : Prop where
  stable : Stable R Out
  connections : ∀ w w', Out w → R w w' → w.connections ≤ w'.connections
  exclusive : ∀ w w' c, Out w → R w w' → c.owner = t → w'.exclusive = some c → w.exclusive = some c
  serial : ∀ w c, Out w → w.exclusive = some c → c.serial < w.connections
  housekeeping : ∀ w w', Out w → Housekeeping w w' → G w w' ∧ Out w'

/-- What a body reached under the lock leads to after it. -/
structure Leaves (Allowed : Guard) (t : Thread) (R G : World → World → Prop) {α : Type}
    (Out : World → Prop) (Held : Conn → Except PyError α → World → Prop)
    (Done : Except PyError α → World → Prop) : Prop where
  held : ∀ c r, c.owner = t → Stable R (Held c r)
  exclusive : ∀ c r w, Held c r w → w.exclusive = some c
  leave : ∀ c r w, c.owner = t → Held c r w → Allowed (.rollback c) w →
    G w (w.release c) ∧ Done r (w.release c)
  stable : ∀ r, Stable R (Done r)
  others : ∀ r w w' c, Done r w → R w w' → c.owner = t → w'.exclusive = some c →
    w.exclusive = some c
  housekeeping : ∀ r w w', Done r w → Housekeeping w w' → G w w' ∧ Done r w'
  fail : ∀ e w, Out w → Done (.error e) w
  raised : ∀ r e w, Done r w → Done (.error e) w

namespace Outside

variable {libs : Libs} {settings : Settings} {Allowed : Guard} {t : Thread}
  {R G : World → World → Prop} {Out : World → Prop} {α : Type}
  {Held : Conn → Except PyError α → World → Prop} {Done : Except PyError α → World → Prop}
  {H : Conn → World → Prop} {body : Call α}

/-- An operation that only changes the locks behind the scenes. -/
theorem perform_triple {P : World → Prop} (hP : Stable R P)
    (hk : ∀ w w', P w → Housekeeping w w' → G w w' ∧ P w') {β : Type} {o : Op β}
    (ho : ∀ w r w', World.exec libs settings o w = (r, w') → Housekeeping w w') :
    Triple (guarded libs settings Allowed) R G P (Prog.perform o) fun _ => P := by
  apply Triple.perform hP
  intro w r w' hw hstep
  obtain ⟨-, hexec | ⟨e, -, -, rfl⟩⟩ := hstep
  · exact hk w w' hw (ho w r w' hexec)
  · exact hk w' w' hw (.refl w')

/-- The connection `c` is open and holds no transaction. -/
def Waiting (Out : World → Prop) (c : Conn) (w : World) : Prop :=
  Out w ∧ c.serial < w.connections ∧ w.exclusive ≠ some c

theorem waiting_stable (L : Outside t R G Out) {c : Conn} (hc : c.owner = t) :
    Stable R (Waiting Out c) := by
  intro w w' hw hR
  obtain ⟨hout, hserial, hex⟩ := hw
  exact ⟨L.stable w w' hout hR, hserial.trans_le (L.connections w w' hout hR),
    fun h => hex (L.exclusive w w' c hout hR hc h)⟩

theorem waiting_housekeeping (L : Outside t R G Out) {c : Conn} {w w' : World}
    (hw : Waiting Out c w) (h : Housekeeping w w') : G w w' ∧ Waiting Out c w' := by
  obtain ⟨hout, hserial, hex⟩ := hw
  obtain ⟨hG, hout'⟩ := L.housekeeping w w' hout h
  have hq := h.quiet
  exact ⟨hG, hout', hserial.trans_le hq.connections, by rw [hq.exclusive]; exact hex⟩

theorem connect_triple (L : Outside t R G Out) :
    Triple (guarded libs settings Allowed) R G Out (Prog.perform (.connect t))
      fun r w => match r with
        | .ok c => c.owner = t ∧ Waiting Out c w
        | .error _ => Out w := by
  apply Triple.perform L.stable
  intro w r w' hw hstep
  obtain ⟨-, hexec | ⟨e, -, rfl, rfl⟩⟩ := hstep
  · obtain ⟨rfl, rfl⟩ := Prod.mk.inj hexec
    obtain ⟨hG, hout⟩ := L.housekeeping w _ hw (.connect w)
    refine ⟨hG, rfl, hout, Nat.lt_succ_self _, fun h => ?_⟩
    exact absurd (L.serial w _ hw h) (Nat.lt_irrefl _)
  · exact L.housekeeping w' w' hw (.refl w')

/-- The transaction is begun, or somebody else has one. -/
theorem beginExclusive_triple (L : Outside t R G Out) {c : Conn} (hc : c.owner = t)
    (henter : ∀ w, Out w → c.serial < w.connections → w.exclusive = none →
      G w { w with exclusive := some c } ∧ H c { w with exclusive := some c }) :
    Triple (guarded libs settings Allowed) R G (Waiting Out c) (Prog.perform (.beginExclusive c))
      fun r w => match r with
        | .ok _ => H c w
        | .error _ => Waiting Out c w := by
  apply Triple.perform (L.waiting_stable hc)
  intro w r w' hw hstep
  obtain ⟨-, hexec | ⟨e, -, rfl, rfl⟩⟩ := hstep
  · replace hexec : World.exec libs settings (.beginExclusive c) w = (r, w') := hexec
    simp only [World.exec] at hexec
    split_ifs at hexec with hlocked
    · obtain ⟨rfl, rfl⟩ := Prod.mk.inj hexec
      exact L.waiting_housekeeping hw (.refl w)
    · obtain ⟨rfl, rfl⟩ := Prod.mk.inj hexec
      obtain ⟨hout, hserial, hex⟩ := hw
      apply henter w hout hserial
      cases hnone : w.exclusive with
      | none => rfl
      | some c' =>
        by_cases hcc : c' = c
        · subst hcc
          exact absurd hnone hex
        · simp [World.lockedOut, hnone, hcc] at hlocked
  · exact L.waiting_housekeeping hw (.refl w')

/-- `ROLLBACK` and `close` in the `finally` of the lock. -/
theorem unlock_triple (L : Outside t R G Out) (hleaves : Leaves Allowed t R G Out Held Done) {c : Conn}
    (hc : c.owner = t) (r : Except PyError α) :
    Triple (guarded libs settings Allowed) R G
      (fun w => Held c r w ∨ ((∃ e, r = .error e) ∧ Waiting Out c w))
      (do
        Prog.suppress (Prog.perform (.rollback c))
        Prog.suppress (Prog.perform (.close c)))
      fun _ => Done r := by
  have hstable : Stable R fun w => Held c r w ∨ ((∃ e, r = .error e) ∧ Waiting Out c w) := by
    intro w w' hw hR
    rcases hw with hw | ⟨he, hw⟩
    · exact .inl (hleaves.held c r hc w w' hw hR)
    · exact .inr ⟨he, L.waiting_stable hc w w' hw hR⟩
  have hdone : Stable R fun w => Done r w ∧ w.exclusive ≠ some c := by
    intro w w' hw hR
    exact ⟨hleaves.stable r w w' hw.1 hR, fun h => hw.2 (hleaves.others r w w' c hw.1 hR hc h)⟩
  apply Triple.bind (J := fun _ w => Done r w ∧ w.exclusive ≠ some c)
  · refine Triple.suppress (J := fun _ w => Done r w ∧ w.exclusive ≠ some c) ?_ fun _ _ h => h
    apply Triple.perform hstable
    intro w r' w' hw hstep
    obtain ⟨hallowed, hexec | ⟨e, he, -, -⟩⟩ := hstep
    · replace hexec : World.exec libs settings (.rollback c) w = (r', w') := hexec
      rcases hw with hw | ⟨⟨e, rfl⟩, hw⟩
      · have hex := hleaves.exclusive c r w hw
        simp only [World.exec, if_pos hex] at hexec
        obtain ⟨rfl, rfl⟩ := Prod.mk.inj hexec
        obtain ⟨hG, hD⟩ := hleaves.leave c r w hc hw hallowed
        refine ⟨hG, hD, ?_⟩
        simp [World.release, hex]
      · simp only [World.exec, if_neg hw.2.2] at hexec
        obtain ⟨rfl, rfl⟩ := Prod.mk.inj hexec
        exact ⟨(L.waiting_housekeeping hw (.refl w)).1, hleaves.fail e w hw.1, hw.2.2⟩
    · cases he
  swap
  · exact fun _ w hw => hw.1
  intro _
  refine Triple.suppress (J := fun _ w => Done r w) ?_ fun _ _ h => h
  apply Triple.perform hdone
  intro w r' w' hw hstep
  obtain ⟨-, hexec | ⟨e, he, -, -⟩⟩ := hstep
  · replace hexec : World.exec libs settings (.close c) w = (r', w') := hexec
    simp only [World.exec, World.release, if_neg hw.2] at hexec
    obtain ⟨rfl, rfl⟩ := Prod.mk.inj hexec
    exact hleaves.housekeeping r w w hw.1 (.refl w)
  · cases he

/-- The rule for `storage_lifecycle_lock`. -/
theorem lock_triple (L : Outside t R G Out) (hleaves : Leaves Allowed t R G Out Held Done)
    (henter : ∀ c w, c.owner = t → Out w → c.serial < w.connections → w.exclusive = none →
      G w { w with exclusive := some c } ∧ H c { w with exclusive := some c })
    (hbody : ∀ c, c.owner = t →
      Triple (guarded libs settings Allowed) R G (H c) body (Held c)) :
    Triple (guarded libs settings Allowed) R G Out (storageLifecycleLock t body) Done := by
  unfold storageLifecycleLock
  apply Triple.bind (perform_triple L.stable L.housekeeping
    fun w r w' h => (Housekeeping.lockAcquire h).1)
  swap
  · exact fun e w hw => hleaves.fail e w hw
  intro acquired
  apply Triple.cond
  · exact fun _ => Triple.raise fun w hw => hleaves.fail _ w hw
  intro _
  apply Triple.bind (perform_triple L.stable L.housekeeping fun w r w' h => by
    obtain ⟨-, rfl⟩ := Prod.mk.inj h
    exact .refl w)
  swap
  · exact fun e w hw => hleaves.fail e w hw
  intro _
  apply Triple.finallyDo (J := Done) (F := fun r _ => Done r)
  · apply Triple.bind L.connect_triple
    swap
    · exact fun e w hw => hleaves.fail e w hw
    intro c
    apply Triple.assume
    intro hc
    apply Triple.finallyDo (J := fun r w => Held c r w ∨ ((∃ e, r = .error e) ∧ Waiting Out c w))
      (F := fun r _ => Done r)
    · apply Triple.bind (perform_triple (L.waiting_stable hc)
        (fun w w' => L.waiting_housekeeping) fun w r w' h => by
          obtain ⟨-, rfl⟩ := Prod.mk.inj h
          exact .refl w)
      swap
      · exact fun e w hw => .inr ⟨⟨e, rfl⟩, hw⟩
      intro _
      apply Triple.bind (perform_triple (L.waiting_stable hc)
        (fun w w' => L.waiting_housekeeping) fun w r w' h => by
          simp only [World.exec] at h
          split_ifs at h <;> obtain ⟨-, rfl⟩ := Prod.mk.inj h <;> exact .refl w)
      swap
      · exact fun e w hw => .inr ⟨⟨e, rfl⟩, hw⟩
      intro _
      apply Triple.bind (L.beginExclusive_triple hc fun w => henter c w hc)
      swap
      · exact fun e w hw => .inr ⟨⟨e, rfl⟩, hw⟩
      intro _
      exact (hbody c hc).post fun r w hw => .inl hw
    · exact L.unlock_triple hleaves hc
    · exact fun r _ w hw => hw
    · exact fun r e w hw => hleaves.raised r e w hw
  · intro r
    exact perform_triple (hleaves.stable r) (hleaves.housekeeping r)
      fun w r' w' h => Housekeeping.lockRelease h
  · exact fun r _ w hw => hw
  · exact fun r e w hw => hleaves.raised r e w hw

end Outside

namespace Discipline

variable {libs : Libs} {settings : Settings} {Allowed : Guard} {c : Conn}
  {R G : World → World → Prop} {I : World → Progress → Prop}
  {Bad : String → WalCorruptionError → Bytes → Prop} {p : Progress} {α : Type} {F : World → Prop}

/-- The lock taken a second time by the thread that holds it: the new connection
is locked out by the transaction of the first one. -/
theorem nested_triple (D : Discipline libs settings Allowed c R G I Bad) (hF : FrameStable F)
    (hQ : QuietStable F) (body : Call α) :
    Triple (guarded libs settings Allowed) R G (At libs c I p F)
      (storageLifecycleLock c.owner body)
      fun r w => (∃ e, r = .error e) ∧ At libs c I p F w := by
  have hk : ∀ w w', At libs c I p F w → Housekeeping w w' → G w w' ∧ At libs c I p F w' := by
    intro w w' hw h
    obtain ⟨hin, hI, hF⟩ := hw
    have hin' := hin.quiet h.quiet (h.fresh hin.fresh)
    obtain ⟨hG, hI'⟩ := D.neutral w w' p hin hin' hI h.quiet
    exact ⟨hG, hin', hI', hQ w w' h.quiet hF⟩
  have hothers : ∀ w w' c', At libs c I p F w → R w w' → w'.exclusive = some c' →
      w.exclusive = some c' := by
    intro w w' c' hw hR hc'
    rw [(D.rely w w' hw.1.held hR).1] at hc'
    rw [hw.1.held, hc']
  have L : Outside c.owner R G (At libs c I p F) :=
    { stable := D.at_stable hF
      connections := fun w w' hw hR => (D.rely w w' hw.1.held hR).2.connections
      exclusive := fun w w' c' hw hR _ hc' => hothers w w' c' hw hR hc'
      serial := fun w c' hw hc' => by
        obtain rfl : c = c' := Option.some.inj (hw.1.held.symm.trans hc')
        exact hw.1.serial
      housekeeping := hk }
  have hleaves : Leaves Allowed c.owner R G (At libs c I p F)
      (fun _ (_ : Except PyError α) _ => False)
      fun r w => (∃ e, r = .error e) ∧ At libs c I p F w :=
    { held := fun _ _ _ _ _ h => h.elim
      exclusive := fun _ _ _ h => h.elim
      leave := fun _ _ _ _ h => h.elim
      stable := fun r w w' hw hR => ⟨hw.1, D.at_stable hF w w' hw.2 hR⟩
      others := fun r w w' c' hw hR _ hc' => hothers w w' c' hw.2 hR hc'
      housekeeping := fun r w w' hw h => ⟨(hk w w' hw.2 h).1, hw.1, (hk w w' hw.2 h).2⟩
      fail := fun e w hw => ⟨⟨e, rfl⟩, hw⟩
      raised := fun r e w hw => ⟨⟨e, rfl⟩, hw.2⟩ }
  apply L.lock_triple hleaves (H := fun _ _ => False)
  · intro c' w _ hw _ hnone
    rw [hw.1.held] at hnone
    cases hnone
  · exact fun _ _ n w h => h.elim

/-- `materialize` under the lock. The automatic cleanup takes the lock again, so
it ends with an exception. -/
theorem materializeAll_triple (D : Discipline libs settings Allowed c R G I Bad)
    (hlibs : FreshNames libs) (hsize : 0 < settings.materializeBatchSize) (n₀ : String → Nat)
    (S : String → Prop) :
    Triple (guarded libs settings Allowed) R G (At libs c I {} (AtLeast n₀ S))
      (materializeAll libs settings c.owner)
      fun r w => match r with
        | .ok total => ∃ p, p.batch.rows = [] ∧ total = p.total ∧ At libs c I p (Caught S n₀ p) w
        | .error _ => ∃ p, At libs c I p (fun _ => True) w := by
  unfold materializeAll
  apply Triple.bind (D.materializeSegments_triple hlibs hsize)
  swap
  · exact fun _ w hw => hw
  intro total
  cases total with
  | none => exact Triple.ret fun w hw => hw
  | some total =>
    apply Triple.exists_pre
    intro p
    apply Triple.assume
    intro hnil
    apply Triple.assume
    intro htotal
    apply Triple.cond
    · intro _
      apply Triple.bind ((D.nested_triple (F := fun _ => True) (fun _ _ _ _ => trivial)
        (fun _ _ _ _ => trivial) cleanupSealed).pre fun w hw => ⟨hw.1, hw.2.1, trivial⟩)
      · exact fun _ => Triple.ret fun w hw => by
          obtain ⟨⟨e, h⟩, -⟩ := hw
          cases h
      · exact fun e w hw => ⟨p, hw.2⟩
    · exact fun _ => Triple.ret fun w hw => ⟨p, hnil, htotal, hw⟩

end Discipline

end Lrcp.Store
