import Lrcp.Store.Internal
import Lrcp.Store.Runs

namespace Lrcp.Store

open Lrcp.Wal Lrcp.Otlp Lrcp.Framework

/-- An operation that does not touch `_MATERIALIZATION_LOCK`. -/
def Op.unlocking : {α : Type} → Op α → Prop
  | _, .lockAcquire _ => False
  | _, .lockRelease _ => False
  | _, _ => True

/-- The thread has taken the lock of its process `n` times, and no other thread has any. -/
def Level (t : Thread) (n : Nat) (w : World) : Prop :=
  ∀ process, w.rlock process = if process = t.process ∧ 0 < n then some (t.thread, n) else none

section Level

variable {libs : Libs} {settings : Settings} {t : Thread} {n : Nat} {α : Type} {w w' : World}

theorem Op.unlocking.exec {o : Op α} {r : Except PyError α} (ho : o.unlocking)
    (h : World.exec libs settings o w = (r, w')) : w'.rlock = w.rlock := by
  cases o <;> simp only [World.exec] at h <;> first
    | exact ho.elim
    | (obtain ⟨-, rfl⟩ := Prod.mk.inj h; rfl)
    | (unfold World.release at h; split at h <;> (obtain ⟨-, rfl⟩ := Prod.mk.inj h; rfl))
    | (split at h <;> (obtain ⟨-, rfl⟩ := Prod.mk.inj h; rfl))
    | (split at h; · (obtain ⟨-, rfl⟩ := Prod.mk.inj h; rfl)
       split at h <;> (obtain ⟨-, rfl⟩ := Prod.mk.inj h; rfl))

theorem Level.acquire {r : Except PyError Bool} (hw : Level t n w)
    (h : World.exec libs settings (.lockAcquire t) w = (r, w')) : r = .ok true ∧ Level t (n + 1) w' := by
  have hlevel : ∀ process, (w.setRlock t.process (some (t.thread, n + 1))).rlock process =
      if process = t.process ∧ 0 < n + 1 then some (t.thread, n + 1) else none := by
    intro process
    have hprocess := hw process
    by_cases hp : process = t.process
    · simp [World.setRlock, hp]
    · simp [World.setRlock, hp, hprocess]
  have hthread := hw t.process
  by_cases hn : 0 < n
  · rw [if_pos ⟨rfl, hn⟩] at hthread
    simp only [World.exec, hthread, if_true] at h
    obtain ⟨rfl, rfl⟩ := Prod.mk.inj h
    exact ⟨rfl, hlevel⟩
  · obtain rfl : n = 0 := by omega
    rw [if_neg (by simp)] at hthread
    simp only [World.exec, hthread] at h
    obtain ⟨rfl, rfl⟩ := Prod.mk.inj h
    exact ⟨rfl, hlevel⟩

theorem Level.release {r : Except PyError Unit} (hw : Level t (n + 1) w)
    (h : World.exec libs settings (.lockRelease t) w = (r, w')) : Level t n w' := by
  have hthread := hw t.process
  rw [if_pos ⟨rfl, Nat.succ_pos n⟩] at hthread
  simp only [World.exec, hthread, if_true] at h
  obtain ⟨-, rfl⟩ := Prod.mk.inj h
  intro process
  have hprocess := hw process
  by_cases hp : process = t.process
  · rcases Nat.eq_zero_or_pos n with hn | hn
    · simp [World.setRlock, hp, hn]
    · have hn' : ¬n + 1 ≤ 1 := by omega
      simp [World.setRlock, hp, hn, hn']
  · simp [World.setRlock, hp, hprocess]

theorem unlocking_triple {p : Call α} (hp : Only Op.unlocking p) :
    Triple (faulty libs settings) Eq (fun _ w' => ∃ m, Level t m w') (Level t n) p
      fun _ => Level t n := by
  apply hp.triple stable_eq
  intro β o w r w' ho hw hstep
  have hw' : Level t n w' := by
    rcases hstep with hexec | ⟨e, -, -, rfl⟩
    · intro process
      rw [ho.exec hexec]
      exact hw process
    · exact hw
  exact ⟨⟨n, hw'⟩, hw'⟩

/-- What is left of the lock after a call. One that raises may keep it: `mkdir` in
`storage_lifecycle_lock` stands before the `try`. -/
def Balanced (t : Thread) (n : Nat) (r : Except PyError α) (w : World) : Prop :=
  ∃ m, n ≤ m ∧ (∀ a, r = .ok a → m = n) ∧ Level t m w

theorem Level.balanced (hw : Level t n w) (r : Except PyError α) : Balanced t n r w :=
  ⟨n, Nat.le_refl n, fun _ _ => rfl, hw⟩

theorem Balanced.raised {β : Type} {r : Except PyError α} (hw : Balanced t n r w) (e : PyError) :
    Balanced t n (.error e : Except PyError β) w := by
  obtain ⟨m, hm, -, hlevel⟩ := hw
  exact ⟨m, hm, fun a ha => (by cases ha), hlevel⟩

/-- `storage_lifecycle_lock` gives the lock of the process back when it returns. -/
theorem lock_level {body : Call α}
    (hbody : Triple (faulty libs settings) Eq (fun _ w' => ∃ m, Level t m w') (Level t (n + 1)) body
      (Balanced t (n + 1))) :
    Triple (faulty libs settings) Eq (fun _ w' => ∃ m, Level t m w') (Level t n)
      (storageLifecycleLock t body) (Balanced t n) := by
  have herror : ∀ (e : PyError) w, Level t (n + 1) w → Balanced t n (.error e : Except PyError α) w :=
    fun e w hw => ⟨n + 1, Nat.le_succ n, fun a ha => (by cases ha), hw⟩
  have hstep : ∀ {β : Type} (o : Op β), o.unlocking → Triple (faulty libs settings) Eq
      (fun _ w' => ∃ m, Level t m w') (Level t (n + 1)) (Prog.perform o) fun _ => Level t (n + 1) :=
    fun o ho => unlocking_triple (.perform ho)
  unfold storageLifecycleLock
  apply Triple.bind (J := fun r w => r = .ok true ∧ Level t (n + 1) w)
  · apply Triple.perform stable_eq
    intro w r w' hw hstep
    rcases hstep with hexec | ⟨e, he, -, -⟩
    · exact ⟨⟨n + 1, (hw.acquire hexec).2⟩, hw.acquire hexec⟩
    · cases he
  swap
  · exact fun e w hw => by cases hw.1
  intro acquired
  apply Triple.assume
  intro hacquired
  obtain rfl := Except.ok.inj hacquired
  rw [if_neg (by decide)]
  apply Triple.bind (hstep .mkdirData trivial) _ herror
  intro _
  apply Triple.finallyDo (J := Balanced t (n + 1)) (F := fun r _ => Balanced t n r)
  · apply Triple.bind (hstep (.connect t) trivial) _ fun e w hw => hw.balanced _
    intro c
    apply Triple.finallyDo (J := Balanced t (n + 1)) (F := fun r _ => Balanced t (n + 1) r)
    · apply Triple.bind (hstep (.busyTimeout c) trivial) _ fun e w hw => hw.balanced _
      intro _
      apply Triple.bind (hstep (.createLockTable c) trivial) _ fun e w hw => hw.balanced _
      intro _
      apply Triple.bind (hstep (.beginExclusive c) trivial) _ fun e w hw => hw.balanced _
      exact fun _ => hbody
    · intro r
      apply Triple.exists_pre
      intro m
      apply Triple.assume
      intro hm
      apply Triple.assume
      intro hok
      apply (unlocking_triple (n := m) ?_).post fun _ w hw => ⟨m, hm, hok, hw⟩
      apply (Only.suppress (.perform trivial)).bind
      exact fun _ => .suppress (.perform trivial)
    · exact fun r u w hw => hw
    · exact fun r e w hw => hw.raised e
  · intro r
    apply Triple.perform stable_eq
    intro w r' w' hw hstep
    obtain ⟨m, hm, hok, hlevel⟩ := hw
    obtain ⟨m, rfl⟩ : ∃ k, m = k + 1 := ⟨m - 1, by omega⟩
    rcases hstep with hexec | ⟨e, he, -, -⟩
    · have hw' := hlevel.release hexec
      refine ⟨⟨m, hw'⟩, m, by omega, fun a ha => ?_, hw'⟩
      have := hok a ha
      omega
    · cases he
  · exact fun r u w hw => hw
  · exact fun r e w hw => hw.raised e

theorem lockless_unlocking {p : Call α} (hp : Only Op.lockless p) : Only Op.unlocking p := by
  apply hp.mono
  intro β o ho
  cases o <;> first
    | exact ho.elim
    | trivial

theorem internal_unlocking {p : Call α} (hp : Only Op.internal p) : Only Op.unlocking p :=
  lockless_unlocking (internal_lockless hp)

theorem balanced_triple {p : Call α} (hp : Only Op.unlocking p) :
    Triple (faulty libs settings) Eq (fun _ w' => ∃ m, Level t m w') (Level t n) p (Balanced t n) :=
  (unlocking_triple hp).post fun r _ hw => hw.balanced r

/-- A call takes the lock of its process in its own name only, and gives it back
when it returns. -/
theorem call_level {p : Call α} (hp : IsCall libs t settings p) :
    Triple (faulty libs settings) Eq (fun _ w' => ∃ m, Level t m w') (Level t 0) p (Balanced t 0) := by
  cases hp with
  | materialize hsize =>
    apply lock_level
    unfold materializeAll
    apply Triple.bind (balanced_triple (internal_unlocking (segmentwise_internal segmentwise_materializeSegments)))
    swap
    · exact fun e w hw => hw.raised e
    intro total
    apply Triple.pre (H := Level t 1)
    · intro w hw
      obtain ⟨m, hm, hok, hlevel⟩ := hw
      obtain rfl := hok total rfl
      exact hlevel
    cases total with
    | none => exact Triple.ret fun w hw => hw.balanced _
    | some total =>
      apply Triple.cond
      · intro _
        apply Triple.bind (lock_level (balanced_triple (lockless_unlocking lockless_cleanupSealed)))
        swap
        · exact fun e w hw => hw.raised e
        intro names
        apply Triple.ret
        intro w hw
        obtain ⟨m, hm, hok, hlevel⟩ := hw
        obtain rfl := hok names rfl
        exact hlevel.balanced _
      · exact fun _ => Triple.ret fun w hw => hw.balanced _
  | compact n => exact lock_level (balanced_triple (internal_unlocking (internal_compactCommitted n)))
  | cleanup => exact lock_level (balanced_triple (lockless_unlocking lockless_cleanupSealed))
  | orphans => exact lock_level (balanced_triple (internal_unlocking (plain_internal plain_cleanupOrphaned)))

theorem Level.crash {m : Nat} (hw : Level t m w) (process : Nat) : (w.crash t).rlock process = none := by
  obtain ⟨w', hw', hcrash⟩ := w.crash_cases t
  have hrlock : w'.rlock = w.rlock := by
    rcases hw' with ⟨rfl, -⟩ | ⟨c, -, -, rfl⟩
    · rfl
    · unfold World.release
      split_ifs <;> rfl
  have hthread := hw t.process
  have hprocess := hw process
  rw [← hrlock] at hthread hprocess
  rcases hcrash with ⟨heq, hfree⟩ | ⟨depth, -, heq⟩
  · rw [heq, hprocess, if_neg]
    intro h
    rw [if_pos ⟨rfl, h.2⟩] at hthread
    exact hfree m hthread
  · rw [heq]
    by_cases hp : process = t.process
    · simp [World.setRlock, hp]
    · simp [World.setRlock, hp, hprocess]

theorem level_zero (hw : ∀ process, w.rlock process = none) (t : Thread) : Level t 0 w := by
  intro process
  rw [hw]
  simp

theorem IsCall.released {p : Call α} {a : α} (hp : IsCall libs t settings p)
    (hw : ∀ process, w.rlock process = none)
    (hr : Prog.Runs (faulty libs settings) (p, w) (.ret a, w')) (process : Nat) :
    w'.rlock process = none := by
  have hrun := (call_level hp).runs (level_zero hw t) ⟨0, level_zero hw t⟩ hr
  obtain ⟨m, -, hok, hw'⟩ := hrun.2 (.ok a) rfl
  obtain rfl := hok a rfl
  rw [hw']
  simp

/-- Between the calls of a run nobody holds the lock of any process. -/
theorem Reachable.rlock {M : Nat} {Stop : World → Prop} (h : Reachable libs M Stop w) (process : Nat) :
    w.rlock process = none := by
  induction h generalizing process with
  | start h => exact h.rlock process
  | gateway _ hs ih =>
    obtain ⟨f, bytes, -, rfl⟩ := hs.extends
    exact ih process
  | returned _ hp hM hr ih => exact hp.released ih hr process
  | @stopped w w' t settings α p q _ hp hM hr hs ih =>
    obtain ⟨m, hw'⟩ := ((call_level hp).runs (level_zero ih t) ⟨0, level_zero ih t⟩ hr).1
    exact hw'.crash process

end Level

end Lrcp.Store
