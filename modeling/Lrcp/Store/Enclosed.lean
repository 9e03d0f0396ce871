import Lrcp.Store.LockRules

namespace Lrcp.Store

open Lrcp.Wal Lrcp.Otlp Lrcp.Framework

/-- Only the locks differ. -/
structure Relocked (w w' : World) : Prop where
  same : ∃ e n l renamed, w' = { w with
    exclusive := e
    connections := n
    rlock := l
    history := { w.history with renamed := renamed } }

section Relocked

variable {libs : Libs} {w w' : World}

theorem Housekeeping.relocked (h : Housekeeping w w') : Relocked w w' := by
  obtain ⟨n, l, -, rfl⟩ := h
  exact ⟨w.exclusive, n, l, w.history.renamed, rfl⟩

theorem relocked_enter (w : World) (c : Conn) : Relocked w { w with exclusive := some c } :=
  ⟨some c, w.connections, w.rlock, w.history.renamed, rfl⟩

theorem relocked_release (w : World) (c : Conn) : Relocked w (w.release c) := by
  unfold World.release
  split_ifs
  · exact ⟨none, w.connections, w.rlock, [], rfl⟩
  · exact ⟨w.exclusive, w.connections, w.rlock, w.history.renamed, rfl⟩

theorem Relocked.trans {w'' : World} (h : Relocked w w') (h' : Relocked w' w'') : Relocked w w'' := by
  obtain ⟨e, n, l, renamed, rfl⟩ := h
  obtain ⟨e', n', l', renamed', rfl⟩ := h'
  exact ⟨e', n', l', renamed', rfl⟩

theorem relocked_setRlock (w : World) (process : Nat) (held : Option (Nat × Nat)) :
    Relocked w (w.setRlock process held) := (Housekeeping.setRlock w process held).relocked

theorem relocked_crash (w : World) (t : Thread) : Relocked w (w.crash t) := by
  obtain ⟨w', hw', hcrash⟩ := w.crash_cases t
  have hreleased : Relocked w w' := by
    rcases hw' with ⟨rfl, -⟩ | ⟨c, -, -, rfl⟩
    · exact (Housekeeping.refl w').relocked
    · exact relocked_release w c
  rcases hcrash with ⟨heq, -⟩ | ⟨depth, -, heq⟩
  · rw [heq]
    exact hreleased
  · rw [heq]
    exact hreleased.trans (relocked_setRlock ..)

theorem Relocked.fresh (h : Relocked w w') (hf : Fresh libs w) : Fresh libs w' := by
  obtain ⟨e, n, l, renamed, rfl⟩ := h
  exact hf.of_eq (Nat.le_refl _) (fun _ h => h) rfl

end Relocked

/-- The lock is free, or the thread holds it itself. -/
def Own (t : Thread) (w : World) : Prop :=
  ∀ c, w.exclusive = some c → c.owner = t ∧ c.serial < w.connections

/-- What is asserted of a call and kept under the lifecycle lock is also kept by
everything that happens to the lock. -/
structure Encloses (libs : Libs) (t : Thread) (R G : World → World → Prop)
    (I : World → Progress → Prop) : Prop where
  others : ∀ w w', R w w' → w'.exclusive = w.exclusive ∧ Frame w w'
  stable : ∀ w w' p, I w p → R w w' → I w' p
  relocked : ∀ w w' p, I w p → Relocked w w' → I w' p
  admits : ∀ w w' p, Fresh libs w' → Own t w' → I w' p → Relocked w w' → G w w'

/-- Before a call takes the lock. -/
def Ready (libs : Libs) (I : World → Progress → Prop) (F : World → Prop) (w : World) : Prop :=
  Fresh libs w ∧ w.exclusive = none ∧ F w ∧ I w {}

/-- How a call leaves the store: outside the lock, with the progress it made, and
with `E` if it returns. -/
def Finished (libs : Libs) (I : World → Progress → Prop) {α : Type}
    (E : α → World → Progress → Prop) (r : Except PyError α) (w : World) : Prop :=
  Fresh libs w ∧ w.exclusive = none ∧ ∃ p, I w p ∧ ∀ a, r = .ok a → E a w p

namespace Encloses

variable {libs : Libs} {settings : Settings} {Allowed : Guard} {t : Thread}
  {R G : World → World → Prop} {I : World → Progress → Prop} {F : World → Prop} {α : Type}
  {E : α → World → Progress → Prop} {w w' : World} {p : Progress} {body : Call α}

theorem unlocked (L : Encloses libs t R G I) (h : Relocked w w') (hfresh : Fresh libs w)
    (hnone : w'.exclusive = none) (hI : I w p) : Fresh libs w' ∧ G w w' ∧ I w' p := by
  have hI' := L.relocked w w' p hI h
  refine ⟨h.fresh hfresh, L.admits w w' p (h.fresh hfresh) (fun c hc => ?_) hI' h, hI'⟩
  rw [hnone] at hc
  cases hc

theorem outside (L : Encloses libs t R G I) (hR : ∀ w w', R w w' → F w → F w')
    (hF : ∀ w w', Relocked w w' → F w → F w') : Outside t R G (Ready libs I F) where
  stable w w' hw hs := by
    obtain ⟨hfresh, hnone, hknown, hI⟩ := hw
    obtain ⟨hex, hframe⟩ := L.others w w' hs
    exact ⟨hframe.fresh hfresh, hex.trans hnone, hR w w' hs hknown, L.stable w w' {} hI hs⟩
  connections w w' _ hs := (L.others w w' hs).2.connections
  exclusive w w' c _ hs _ hc := (L.others w w' hs).1.symm.trans hc
  serial w c hw hc := by
    rw [hw.2.1] at hc
    cases hc
  housekeeping w w' hw h := by
    obtain ⟨hfresh, hnone, hknown, hI⟩ := hw
    have hnone' := h.quiet.exclusive.trans hnone
    obtain ⟨hfresh', hG, hI'⟩ := L.unlocked h.relocked hfresh hnone' hI
    exact ⟨hG, hfresh', hnone', hF w w' h.relocked hknown, hI'⟩

theorem leaves (L : Encloses libs t R G I) (hR : ∀ a p w w', R w w' → E a w p → E a w' p)
    (hE : ∀ a p w w', Relocked w w' → E a w p → E a w' p) :
    Leaves Allowed t R G (Ready libs I F)
      (fun c r w => ∃ p, At libs c I p (fun w => ∀ a, r = .ok a → E a w p) w) (Finished libs I E) where
  held c r _ w w' hw hs := by
    obtain ⟨p, hin, hI, hres⟩ := hw
    obtain ⟨hex, hframe⟩ := L.others w w' hs
    exact ⟨p, hin.frame (hex.trans hin.held) hframe, L.stable w w' p hI hs,
      fun a ha => hR a p w w' hs (hres a ha)⟩
  exclusive c r w hw := by
    obtain ⟨p, hin, -⟩ := hw
    exact hin.held
  leave c r w _ hw _ := by
    obtain ⟨p, hin, hI, hres⟩ := hw
    have hr := relocked_release w c
    have hnone : (w.release c).exclusive = none := by simp [World.release, hin.held]
    obtain ⟨hfresh', hG, hI'⟩ := L.unlocked hr hin.fresh hnone hI
    exact ⟨hG, hfresh', hnone, p, hI', fun a ha => hE a p w _ hr (hres a ha)⟩
  stable r w w' hw hs := by
    obtain ⟨hfresh, hnone, p, hI, hres⟩ := hw
    obtain ⟨hex, hframe⟩ := L.others w w' hs
    exact ⟨hframe.fresh hfresh, hex.trans hnone, p, L.stable w w' p hI hs,
      fun a ha => hR a p w w' hs (hres a ha)⟩
  others r w w' c _ hs _ hc := (L.others w w' hs).1.symm.trans hc
  housekeeping r w w' hw h := by
    obtain ⟨hfresh, hnone, p, hI, hres⟩ := hw
    have hnone' := h.quiet.exclusive.trans hnone
    obtain ⟨hfresh', hG, hI'⟩ := L.unlocked h.relocked hfresh hnone' hI
    exact ⟨hG, hfresh', hnone', p, hI', fun a ha => hE a p w w' h.relocked (hres a ha)⟩
  fail e w hw := ⟨hw.1, hw.2.1, {}, hw.2.2.2, fun a h => by cases h⟩
  raised r e w hw := by
    obtain ⟨hfresh, hnone, p, hI, -⟩ := hw
    exact ⟨hfresh, hnone, p, hI, fun a h => by cases h⟩

/-- A call under the lifecycle lock, from the triple of its body. -/
theorem lock_triple (L : Encloses libs t R G I) (hFR : ∀ w w', R w w' → F w → F w')
    (hF : ∀ w w', Relocked w w' → F w → F w') (hER : ∀ a p w w', R w w' → E a w p → E a w' p)
    (hE : ∀ a p w w', Relocked w w' → E a w p → E a w' p)
    (hbody : ∀ c, c.owner = t → Triple (guarded libs settings Allowed) R G (At libs c I {} F) body
      fun r w => ∃ p, At libs c I p (fun w => ∀ a, r = .ok a → E a w p) w) :
    Triple (guarded libs settings Allowed) R G (Ready libs I F) (storageLifecycleLock t body)
      (Finished libs I E) := by
  apply (L.outside hFR hF).lock_triple (L.leaves hER hE) ?_ hbody
  intro c w hc hw hserial _
  obtain ⟨hfresh, -, hknown, hI⟩ := hw
  have hr := relocked_enter w c
  have hin : Inside libs c { w with exclusive := some c } := ⟨rfl, hserial, hr.fresh hfresh⟩
  have hI' := L.relocked w _ {} hI hr
  refine ⟨L.admits w _ {} hin.fresh (fun c' hc' => ?_) hI' hr, hin, hI', hF w _ hr hknown⟩
  obtain rfl := Option.some.inj hc'
  exact ⟨hc, hserial⟩

end Encloses

end Lrcp.Store
