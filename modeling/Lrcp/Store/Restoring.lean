import Lrcp.Framework.Pool
import Lrcp.Store.Internal
import Lrcp.Store.Runs

namespace Lrcp.Store

open Lrcp.Wal Lrcp.Otlp Lrcp.Framework

/-- How many times the thread holds `_MATERIALIZATION_LOCK`. -/
def World.held (w : World) (t : Thread) : Nat :=
  match w.rlock t.process with
  | some (owner, depth) => if owner = t.thread then depth else 0
  | none => 0

/-- The programs that touch the locks through `storage_lifecycle_lock` only, in the
name of their thread and nested to any depth. -/
inductive Storage (t : Thread) : {α : Type} → Call α → Prop
  | ret {α : Type} (a : α) : Storage t (.ret a : Call α)
  | raise {α : Type} (e : PyError) : Storage t (.raise e : Call α)
  | call {α β : Type} {o : Op β} {k : Except PyError β → Call α} (ho : o.lockless)
      (hk : ∀ r, Storage t (k r)) : Storage t (.call o k)
  | loop {α β τ : Type} {body : τ → Call (τ ⊕ β)} {s : τ} {k : Except PyError β → Call α}
      (hbody : ∀ s, Storage t (body s)) (hk : ∀ r, Storage t (k r)) : Storage t (.loop body s k)
  | lock {α β : Type} {body : Call β} {k : Except PyError β → Call α} (hbody : Storage t body)
      (hk : ∀ r, Storage t (k r)) : Storage t ((storageLifecycleLock t body).andThen k)

/-- Whether the operation creates the data directory. -/
def Op.createsData : {α : Type} → Op α → Bool
  | _, .mkdirData => true
  | _, _ => false

/-- Any operation may fail, the creation of the data directory only if `mkdirFails`. -/
def failing (libs : Libs) (settings : Settings) (mkdirFails : Bool) : Machine Op PyError World where
  step o w r w' := (faulty libs settings).step o w r w' ∧
    (mkdirFails = false → o.createsData = true → ∀ e, r ≠ .error e)

/-- Threads that run storage operations at the same time, where whether the data
directory can be created may differ from thread to thread. They may be killed, and
whatever is no part of the locks may change at any time. -/
def storage (libs : Libs) (settings : Settings) (α : Type) (mkdirFails : Thread → Bool) :
    System Op PyError α World Thread where
  machine t := failing libs settings (mkdirFails t)
  start t p _ := Storage t p
  env w w' := w'.rlock = w.rlock ∧ w'.exclusive = w.exclusive
  kill t w w' := w' = w.crash t

/-- The locks of a thread are as they were: it holds `_MATERIALIZATION_LOCK` as often as
before, and of its transactions on the lock database none is open that was not. -/
structure Restored (t : Thread) (w w' : World) : Prop where
  level : w'.held t = w.held t
  transaction : ∀ c, c.owner = t → w'.exclusive = some c → w.exclusive = some c

/-- What a thread does to the locks of the others: nothing. -/
def Respects (t : Thread) (w w' : World) : Prop := ∀ u, u ≠ t → Restored u w w'

/-- The thread holds the lock of its process `n` times, unless a failure of `mkdir` has
kept it, and none of the connections in `K` has a transaction. -/
structure Standing (mkdirFails : Bool) (t : Thread) (n : Nat) (K : Conn → Prop) (w : World) : Prop where
  level : mkdirFails = false → w.held t = n
  closed : ∀ c, c.owner = t → K c → w.exclusive ≠ some c

section Locks

variable {libs : Libs} {settings : Settings} {b : Bool} {t u : Thread} {n : Nat} {K : Conn → Prop}
  {w w' w'' : World} {α : Type} {c : Conn}

theorem Restored.refl (t : Thread) (w : World) : Restored t w w := ⟨rfl, fun _ _ h => h⟩

theorem Restored.trans (h : Restored t w w') (h' : Restored t w' w'') : Restored t w w'' :=
  ⟨h'.level.trans h.level, fun c hc hex => h.transaction c hc (h'.transaction c hc hex)⟩

/-- Nothing has happened to the locks. -/
theorem restored_of_eq (hrlock : w'.rlock = w.rlock) (hex : w'.exclusive = w.exclusive) :
    Restored t w w' := by
  refine ⟨?_, fun c _ hc => hex ▸ hc⟩
  unfold World.held
  rw [hrlock]

theorem Standing.stable : Stable (Restored t) (Standing b t n K) := by
  intro w w' hw hR
  exact ⟨fun hb => hR.level.trans (hw.level hb),
    fun c hc hK hex => hw.closed c hc hK (hR.transaction c hc hex)⟩

/-- A thread that changes its own hold on the lock of the process does nothing to the others. -/
theorem respects_setRlock {held : Option (Nat × Nat)}
    (hold : ∀ owner depth, w.rlock t.process = some (owner, depth) → owner = t.thread)
    (hnew : ∀ owner depth, held = some (owner, depth) → owner = t.thread) :
    Respects t w (w.setRlock t.process held) := by
  intro u hu
  refine ⟨?_, fun c _ h => h⟩
  by_cases hp : u.process = t.process
  · have hthread : t.thread ≠ u.thread := by
      intro h
      exact hu (by cases u; cases t; simp_all)
    have hzero : ∀ state : Option (Nat × Nat),
        (∀ owner depth, state = some (owner, depth) → owner = t.thread) →
          (match state with
            | some (owner, depth) => if owner = u.thread then depth else 0
            | none => 0) = 0 := by
      intro state hstate
      cases state with
      | none => rfl
      | some entry => simp [hstate entry.1 entry.2 rfl, hthread]
    have hbefore := hzero _ hold
    have hafter := hzero _ hnew
    unfold World.held
    simp only [World.setRlock, hp, if_true]
    exact hafter.trans hbefore.symm
  · unfold World.held
    simp only [World.setRlock, hp, if_false]

theorem acquire_exec {r : Except PyError Bool}
    (h : World.exec libs settings (.lockAcquire t) w = (r, w')) :
    Respects t w w' ∧ w'.exclusive = w.exclusive ∧
      (r = .ok true ∧ w'.held t = w.held t + 1 ∨ r = .ok false ∧ w' = w) := by
  simp only [World.exec] at h
  cases hl : w.rlock t.process with
  | none =>
    simp only [hl] at h
    obtain ⟨rfl, rfl⟩ := Prod.mk.inj h
    refine ⟨respects_setRlock (by simp [hl]) (by simp), rfl, .inl ⟨rfl, ?_⟩⟩
    simp [World.held, World.setRlock, hl]
  | some entry =>
    obtain ⟨owner, depth⟩ := entry
    simp only [hl] at h
    split_ifs at h with howner
    · obtain ⟨rfl, rfl⟩ := Prod.mk.inj h
      refine ⟨respects_setRlock ?_ ?_, rfl, .inl ⟨rfl, ?_⟩⟩
      · simp [hl, howner]
      · simp [howner]
      · simp [World.held, World.setRlock, hl, howner]
    · obtain ⟨rfl, rfl⟩ := Prod.mk.inj h
      exact ⟨fun u _ => .refl u _, rfl, .inr ⟨rfl, rfl⟩⟩

theorem release_exec {r : Except PyError Unit}
    (h : World.exec libs settings (.lockRelease t) w = (r, w')) :
    Respects t w w' ∧ w'.exclusive = w.exclusive ∧ w'.held t = w.held t - 1 := by
  simp only [World.exec] at h
  cases hl : w.rlock t.process with
  | none =>
    simp only [hl] at h
    obtain ⟨rfl, rfl⟩ := Prod.mk.inj h
    exact ⟨fun u _ => .refl u _, rfl, by simp [World.held, hl]⟩
  | some entry =>
    obtain ⟨owner, depth⟩ := entry
    simp only [hl] at h
    split_ifs at h with howner hdepth
    · obtain ⟨rfl, rfl⟩ := Prod.mk.inj h
      refine ⟨respects_setRlock (by simp [hl, howner]) (by simp), rfl, ?_⟩
      simp [World.held, World.setRlock, hl, howner]
      omega
    · obtain ⟨rfl, rfl⟩ := Prod.mk.inj h
      refine ⟨respects_setRlock (by simp [hl, howner]) (by simp [howner]), rfl, ?_⟩
      simp [World.held, World.setRlock, hl, howner]
    · obtain ⟨rfl, rfl⟩ := Prod.mk.inj h
      exact ⟨fun u _ => .refl u _, rfl, by simp [World.held, hl, howner]⟩

theorem release_exclusive (t : Thread) (w : World) (c : Conn) :
    (w.release c).rlock = w.rlock ∧ (w.release c).exclusive ≠ some c ∧
      (∀ c', (w.release c).exclusive = some c' → w.exclusive = some c') ∧
      Respects t w (w.release c) := by
  unfold World.release
  split_ifs with hex
  · refine ⟨rfl, by simp, fun c' h => (by cases h), fun u hu => ⟨rfl, fun c' hc' h => (by cases h)⟩⟩
  · exact ⟨rfl, hex, fun c' h => h, fun u _ => .refl u w⟩

/-- An operation on neither lock, and one that fails. -/
theorem Standing.keep (hw : Standing b t n K w) (hrlock : w'.rlock = w.rlock)
    (hex : ∀ c, w'.exclusive = some c → w.exclusive = some c) : Standing b t n K w' := by
  refine ⟨fun hb => ?_, fun c hc hK h => hw.closed c hc hK (hex c h)⟩
  have hlevel := hw.level hb
  unfold World.held at hlevel ⊢
  rw [hrlock]
  exact hlevel

theorem lockless_triple {o : Op α} (ho : o.lockless) {H : World → Prop} (hH : Stable (Restored t) H)
    (hkeep : ∀ w w', H w → w'.rlock = w.rlock → w'.exclusive = w.exclusive → H w') :
    Triple (failing libs settings b) (Restored t) (Respects t) H (Prog.perform o) fun _ => H := by
  apply Triple.perform hH
  intro w r w' hw hstep
  obtain ⟨hexec | ⟨e, -, -, rfl⟩, -⟩ := hstep
  · obtain ⟨hrlock, hex⟩ := ho.exec hexec
    exact ⟨fun u _ => restored_of_eq hrlock hex, hkeep w w' hw hrlock hex⟩
  · exact ⟨fun u _ => .refl u w', hw⟩

/-- All but one connection. -/
def Others (K : Conn → Prop) (c : Conn) : Conn → Prop := fun c' => K c' ∧ c' ≠ c

theorem begin_standing (hc : c.owner = t) :
    Triple (failing libs settings b) (Restored t) (Respects t) (Standing b t n (Others K c))
      (Prog.perform (.beginExclusive c)) fun _ => Standing b t n (Others K c) := by
  apply Triple.perform Standing.stable
  intro w r w' hw hstep
  obtain ⟨hexec | ⟨e, -, -, rfl⟩, -⟩ := hstep
  · replace hexec : World.exec libs settings (.beginExclusive c) w = (r, w') := hexec
    simp only [World.exec] at hexec
    split_ifs at hexec with hlocked
    · obtain ⟨rfl, rfl⟩ := Prod.mk.inj hexec
      exact ⟨fun u _ => .refl u _, hw⟩
    · obtain ⟨rfl, rfl⟩ := Prod.mk.inj hexec
      refine ⟨fun u hu => ⟨rfl, fun c' hc' h => ?_⟩, hw.level, fun c' _ hK h => ?_⟩
      · rw [← Option.some.inj h] at hc'
        exact absurd (hc'.symm.trans hc) hu
      · exact hK.2 (Option.some.inj h).symm
  · exact ⟨fun u _ => .refl u _, hw⟩

theorem connect_standing :
    Triple (failing libs settings b) (Restored t) (Respects t) (Standing b t n K)
      (Prog.perform (.connect t)) fun r w => match r with
        | .ok c => c.owner = t ∧ Standing b t n (Others K c) w
        | .error _ => Standing b t n K w := by
  apply Triple.perform Standing.stable
  intro w r w' hw hstep
  obtain ⟨hexec | ⟨e, -, rfl, rfl⟩, -⟩ := hstep
  · obtain ⟨rfl, rfl⟩ := Prod.mk.inj hexec
    exact ⟨fun u _ => restored_of_eq rfl rfl, rfl, hw.level, fun c hc hK => hw.closed c hc hK.1⟩
  · exact ⟨fun u _ => .refl u _, hw⟩

/-- After `ROLLBACK` and `close` the connection has no transaction. -/
theorem unlock_standing :
    Triple (failing libs settings b) (Restored t) (Respects t) (Standing b t n (Others K c))
      (do
        Prog.suppress (Prog.perform (.rollback c))
        Prog.suppress (Prog.perform (.close c)))
      fun _ => Standing b t n K := by
  have hclosed : ∀ w, Standing b t n (Others K c) w → w.exclusive ≠ some c → Standing b t n K w := by
    intro w hw hne
    refine ⟨hw.level, fun c' hc' hK h => ?_⟩
    by_cases heq : c' = c
    · exact hne (heq ▸ h)
    · exact hw.closed c' hc' ⟨hK, heq⟩ h
  have hrelease : ∀ w, Standing b t n (Others K c) w →
      Respects t w (w.release c) ∧ Standing b t n K (w.release c) := by
    intro w hw
    obtain ⟨hrlock, hne, hex, hG⟩ := release_exclusive t w c
    exact ⟨hG, hclosed _ (hw.keep hrlock hex) hne⟩
  apply Triple.bind (J := fun _ => Standing b t n K)
  · apply Triple.suppress (J := fun _ => Standing b t n K) _ fun _ _ hw => hw
    apply Triple.perform Standing.stable
    intro w r w' hw hstep
    obtain ⟨hexec | ⟨e, he, -, -⟩, -⟩ := hstep
    · replace hexec : World.exec libs settings (.rollback c) w = (r, w') := hexec
      simp only [World.exec] at hexec
      split_ifs at hexec with hex
      · obtain ⟨rfl, rfl⟩ := Prod.mk.inj hexec
        exact hrelease w hw
      · obtain ⟨rfl, rfl⟩ := Prod.mk.inj hexec
        exact ⟨fun u _ => .refl u _, hclosed _ hw hex⟩
    · cases he
  swap
  · exact fun _ _ hw => hw
  intro _
  apply Triple.suppress (J := fun _ => Standing b t n K) _ fun _ _ hw => hw
  apply Triple.perform Standing.stable
  intro w r w' hw hstep
  obtain ⟨hexec | ⟨e, he, -, -⟩, -⟩ := hstep
  · obtain ⟨-, rfl⟩ := Prod.mk.inj hexec
    exact hrelease w ⟨hw.level, fun c' hc' hK => hw.closed c' hc' hK.1⟩
  · cases he

/-- `storage_lifecycle_lock` around a body that leaves the locks as it finds them leaves
them as it found them. -/
theorem lock_standing {body : Call α}
    (hbody : ∀ n K, Triple (failing libs settings b) (Restored t) (Respects t) (Standing b t n K) body
      fun _ => Standing b t n K) (n : Nat) (K : Conn → Prop) :
    Triple (failing libs settings b) (Restored t) (Respects t) (Standing b t n K)
      (storageLifecycleLock t body) fun _ => Standing b t n K := by
  have hkeep : ∀ n K w w', Standing b t n K w → w'.rlock = w.rlock → w'.exclusive = w.exclusive →
      Standing b t n K w' := fun n K w w' hw hrlock hex => hw.keep hrlock fun c hc => hex ▸ hc
  unfold storageLifecycleLock
  apply Triple.bind (J := fun r w => r = .ok true ∧ Standing b t (n + 1) K w ∨
    r = .ok false ∧ Standing b t n K w)
  · apply Triple.perform Standing.stable
    intro w r w' hw hstep
    obtain ⟨hexec | ⟨e, he, -, -⟩, -⟩ := hstep
    · obtain ⟨hG, hex, ⟨rfl, hheld⟩ | ⟨rfl, rfl⟩⟩ := acquire_exec hexec
      · refine ⟨hG, .inl ⟨rfl, fun hb => ?_, fun c hc hK h => ?_⟩⟩
        · rw [hheld, hw.level hb]
        · exact hw.closed c hc hK (hex ▸ h)
      · exact ⟨hG, .inr ⟨rfl, hw⟩⟩
    · cases he
  swap
  · intro e w hw
    rcases hw with ⟨h, -⟩ | ⟨h, -⟩ <;> cases h
  intro acquired
  cases acquired with
  | false =>
    rw [if_pos rfl]
    apply Triple.raise
    intro w hw
    rcases hw with ⟨h, -⟩ | ⟨-, hw⟩
    · cases h
    · exact hw
  | true =>
    rw [if_neg (by decide)]
    apply Triple.pre (H := Standing b t (n + 1) K)
    · intro w hw
      rcases hw with ⟨-, hw⟩ | ⟨h, -⟩
      · exact hw
      · cases h
    apply Triple.bind (J := fun r w => r = .ok () ∧ Standing b t (n + 1) K w ∨
      (∃ e, r = .error e) ∧ Standing b t n K w)
    · apply Triple.perform Standing.stable
      intro w r w' hw hstep
      obtain ⟨hexec | ⟨e, -, rfl, rfl⟩, hmkdir⟩ := hstep
      · obtain ⟨rfl, rfl⟩ := Prod.mk.inj hexec
        exact ⟨fun u _ => .refl u _, .inl ⟨rfl, hw⟩⟩
      · -- the lock is kept here, which only a failure of `mkdir` can bring about
        exact ⟨fun u _ => .refl u _, .inr ⟨⟨e, rfl⟩, fun hb => absurd rfl (hmkdir hb rfl e), hw.closed⟩⟩
    swap
    · intro e w hw
      rcases hw with ⟨h, -⟩ | ⟨-, hw⟩
      · cases h
      · exact hw
    intro _
    apply Triple.pre (H := Standing b t (n + 1) K)
    · intro w hw
      rcases hw with ⟨-, hw⟩ | ⟨⟨e, h⟩, -⟩
      · exact hw
      · cases h
    apply Triple.finallyDo (J := fun _ => Standing b t (n + 1) K) (F := fun _ _ => Standing b t n K)
    · apply Triple.bind (connect_standing (n := n + 1) (K := K)) _ fun e w hw => hw
      intro c
      apply Triple.assume
      intro hc
      apply Triple.finallyDo (J := fun _ => Standing b t (n + 1) (Others K c))
        (F := fun _ _ => Standing b t (n + 1) K)
      · apply Triple.bind (lockless_triple (o := .busyTimeout c) trivial Standing.stable (hkeep _ _)) _
          fun e w hw => hw
        intro _
        apply Triple.bind (lockless_triple (o := .createLockTable c) trivial Standing.stable (hkeep _ _)) _
          fun e w hw => hw
        intro _
        exact Triple.bind (begin_standing hc) (fun _ => hbody _ _) fun e w hw => hw
      · exact fun _ => unlock_standing
      · exact fun _ _ _ hw => hw
      · exact fun _ _ _ hw => hw
    · intro r
      apply Triple.perform Standing.stable
      intro w r' w' hw hstep
      obtain ⟨hexec | ⟨e, he, -, -⟩, -⟩ := hstep
      · obtain ⟨hG, hex, hheld⟩ := release_exec hexec
        refine ⟨hG, fun hb => ?_, fun c hc hK h => hw.closed c hc hK (hex ▸ h)⟩
        rw [hheld, hw.level hb, Nat.add_sub_cancel]
      · cases he
    · exact fun _ _ _ hw => hw
    · exact fun _ _ _ hw => hw

theorem Storage.andThen {β : Type} {p : Call α} {k : Except PyError α → Call β} (hp : Storage t p)
    (hk : ∀ r, Storage t (k r)) : Storage t (p.andThen k) := by
  induction hp with
  | ret a => exact hk _
  | raise e => exact hk _
  | call ho _ ih => exact .call ho fun r => ih r hk
  | loop hbody _ _ ih => exact .loop hbody fun r => ih r hk
  | lock hbody _ _ ih =>
    rw [Prog.andThen_assoc]
    exact .lock hbody fun r => ih r hk

theorem Storage.bind {β : Type} {p : Call α} {f : α → Call β} (hp : Storage t p)
    (hf : ∀ a, Storage t (f a)) : Storage t (p >>= f) := by
  apply hp.andThen
  intro r
  cases r with
  | ok a => exact hf a
  | error e => exact .raise e

theorem Storage.of_only {p : Call α} (hp : Only Op.lockless p) : Storage t p := by
  induction p with
  | ret a => exact .ret a
  | raise e => exact .raise e
  | call o k ih => exact .call hp.1 fun r => ih r (hp.2 r)
  | loop body s k ihbody ih => exact .loop (fun s => ihbody s (hp.1 s)) fun r => ih r (hp.2 r)

theorem Storage.of_lock {body : Call α} (hbody : Storage t body) :
    Storage t (storageLifecycleLock t body) := by
  have hlock := Storage.lock (k := Prog.done) hbody fun r => by
    cases r with
    | ok a => exact .ret a
    | error e => exact .raise e
  rwa [Prog.andThen_done] at hlock

/-- The calls of the backend are such programs. -/
theorem IsCall.storage {p : Call α} (hp : IsCall libs t settings p) : Storage t p := by
  cases hp with
  | materialize hsize =>
    apply Storage.of_lock
    unfold materializeAll
    apply (Storage.of_only (internal_lockless (segmentwise_internal segmentwise_materializeSegments))).bind
    intro total
    cases total with
    | none => exact .ret _
    | some total =>
      split_ifs
      · exact (Storage.of_only lockless_cleanupSealed).of_lock.bind fun _ => .ret _
      · exact .ret _
  | compact n => exact (Storage.of_only (internal_lockless (internal_compactCommitted n))).of_lock
  | cleanup => exact (Storage.of_only lockless_cleanupSealed).of_lock
  | orphans => exact (Storage.of_only (internal_lockless (plain_internal plain_cleanupOrphaned))).of_lock

/-- Every storage operation leaves the locks as it finds them. -/
theorem Storage.triple {p : Call α} (hp : Storage t p) (n : Nat) (K : Conn → Prop) :
    Triple (failing libs settings b) (Restored t) (Respects t) (Standing b t n K) p
      fun _ => Standing b t n K := by
  induction hp generalizing n K with
  | ret a => exact Triple.ret fun w hw => hw
  | raise e => exact Triple.raise fun w hw => hw
  | @call α β o k ho hk ih =>
    have hperform : (Prog.perform o).andThen k = .call o k := by
      simp only [Prog.perform, Prog.andThen, Prog.done_andThen]
    rw [← hperform]
    apply Triple.andThen (lockless_triple ho Standing.stable ?_) fun r => ih r n K
    exact fun w w' hw hrlock hex => hw.keep hrlock fun c hc => hex ▸ hc
  | @loop α β τ body s k hbody hk ihbody ih =>
    have hagain : (Prog.repeatUntil body s).andThen k = .loop body s k := by
      simp only [Prog.repeatUntil, Prog.andThen, Prog.done_andThen]
    rw [← hagain]
    apply Triple.andThen (J := fun _ => Standing b t n K) _ fun r => ih r n K
    apply Triple.repeatUntil (I := fun _ => Standing b t n K)
    intro s
    apply (ihbody s n K).post
    intro r w hw
    rcases r with e | (s' | a)
    · exact hw
    · exact hw
    · exact hw
  | lock hbody hk ihbody ih =>
    exact Triple.andThen (lock_standing (fun n K => ihbody n K) n K) fun r => ih r n K

/-- A thread that is killed takes nothing from the others. -/
theorem respects_crash (t : Thread) (w : World) : Respects t w (w.crash t) := by
  obtain ⟨w', hw', hcrash⟩ := w.crash_cases t
  have hreleased : Respects t w w' := by
    rcases hw' with ⟨rfl, -⟩ | ⟨c, -, -, rfl⟩
    · exact fun u _ => .refl u w'
    · exact (release_exclusive t w c).2.2.2
  rcases hcrash with ⟨heq, -⟩ | ⟨depth, hheld, heq⟩
  · rw [heq]
    exact hreleased
  · rw [heq]
    intro u hu
    apply (hreleased u hu).trans
    apply respects_setRlock _ (by simp) u hu
    intro owner depth' hsome
    rw [hheld] at hsome
    cases hsome
    rfl

end Locks

section Pools

variable {libs : Libs} {settings : Settings} {α : Type} {mkdirFails : Thread → Bool}

theorem storage_compatible :
    Compatible (storage libs settings α mkdirFails) (fun _ => True) Restored Respects where
  refl t w := .refl t w
  trans t w w' w'' h h' := h.trans h'
  keeps t w w' _ hG := ⟨trivial, hG⟩
  env w w' _ h := ⟨trivial, fun t => restored_of_eq h.1 h.2⟩
  kill t w w' _ h := ⟨trivial, h ▸ respects_crash t w⟩
  start t p w _ hp := by
    apply Covered.of_triple (P := Standing (mkdirFails t) t (w.held t) fun _ => False) (Restored.refl t)
    · exact (Storage.triple hp _ _).post fun _ _ _ => trivial
    · exact ⟨fun _ => rfl, fun c _ h => h.elim⟩

/-- Every use of `storage_lifecycle_lock` by the thread leaves the locks as they were,
however it ends. The thread may enter at any time, also inside another use of its own; only
its failures to create the data directory during the use are up to `mkdirFails`. -/
def Restores (libs : Libs) (settings : Settings) (α : Type) (mkdirFails : Thread → Bool)
    (t : Thread) : Prop :=
  ∀ w₀ X Y (body : Call α) r,
    (storage libs settings α fun _ => true).Reach ⟨fun _ => none, w₀⟩ X →
    Storage t body →
    (storage libs settings α mkdirFails).During t
      ⟨Function.update X.thread t (some (storageLifecycleLock t body)), X.state⟩ Y →
    Y.thread t = some (.done r) → Restored t X.state Y.state

theorem failing_mono {b : Bool} {β : Type} (o : Op β) (w : World) (r : Except PyError β) (w' : World)
    (h : (failing libs settings b).step o w r w') : (failing libs settings true).step o w r w' :=
  ⟨h.1, fun hb => (by cases hb)⟩

/-- A thread that enters the lock, with everybody else as they are. -/
theorem sound_entered {X : Pool Op PyError α World Thread} {t : Thread} {p : Call α}
    (hX : Framework.Sound (storage libs settings α fun _ => true) (fun _ => True) Restored Respects X)
    (hp : Storage t p) :
    Framework.Sound (storage libs settings α mkdirFails) (fun _ => True) Restored Respects
      ⟨Function.update X.thread t (some p), X.state⟩ := by
  refine ⟨trivial, fun u q hq => ?_⟩
  replace hq : Function.update X.thread t (some p) u = some q := hq
  by_cases hu : u = t
  · rw [hu, Function.update_self] at hq
    rw [hu, ← Option.some.inj hq]
    exact storage_compatible.start t p X.state trivial hp
  · rw [Function.update_of_ne hu] at hq
    exact (hX.2 u q hq).machine failing_mono

theorem restores_of_mkdir {t : Thread} (ht : mkdirFails t = false) :
    Restores libs settings α mkdirFails t := by
  intro w₀ X Y body r hX hbody hY hr
  have hsound := storage_compatible.sound_reach (Compatible.sound_idle trivial) hX
  have hlock := @Storage.triple libs settings (mkdirFails t) t α _ hbody.of_lock
    (X.state.held t) fun c => X.state.exclusive ≠ some c
  have hcovered := Covered.of_triple (Restored.refl t) hlock ⟨fun _ => rfl, fun c _ h => h⟩
  obtain ⟨q, hq, hend⟩ := storage_compatible.follow (sound_entered hsound hbody.of_lock)
    (Function.update_self ..) hcovered hY
  rw [Option.some.inj (hq.symm.trans hr)] at hend
  obtain ⟨w, hR, hw⟩ := hend.outcome
  have hstanding := Standing.stable w Y.state hw hR
  exact ⟨hstanding.level ht, fun c hc hex => by_contra fun hno => hstanding.closed c hc hno hex⟩

/-- `mkdir` fails after the lock of the process has been taken. -/
theorem leaks {t : Thread} (body : Call α) {w : World} (hfree : w.rlock t.process = none) :
    Prog.Runs (failing libs settings true) (storageLifecycleLock t body, w)
      (.raise (.osError "[Errno 5] Input/output error"),
        w.setRlock t.process (some (t.thread, 1))) := by
  have hacquire : (failing libs settings true).step (.lockAcquire t) w (.ok true)
      (w.setRlock t.process (some (t.thread, 1))) := by
    refine ⟨.inl ?_, fun hb => (by cases hb)⟩
    show World.exec libs settings (.lockAcquire t) w = _
    simp only [World.exec, hfree]
  have hmkdir : (failing libs settings true).step .mkdirData
      (w.setRlock t.process (some (t.thread, 1))) (.error (.osError "[Errno 5] Input/output error"))
      (w.setRlock t.process (some (t.thread, 1))) :=
    ⟨.inr ⟨_, rfl, rfl, rfl⟩, fun hb => (by cases hb)⟩
  exact .tail (.single (.call hacquire)) (.call hmkdir)

/-- The locks are left as they were exactly when the data directory can be created. -/
theorem lock_restored (mkdirFails : Thread → Bool) (t : Thread) :
    Restores libs settings α mkdirFails t ↔ mkdirFails t = false := by
  constructor
  · intro h
    cases hfails : mkdirFails t with
    | false => rfl
    | true =>
      have hruns := @leaks libs settings α t (.raise databaseIsLocked) (.ofSegments ∅) rfl
      rw [← hfails] at hruns
      have hrestored := h (.ofSegments ∅) ⟨fun _ => none, .ofSegments ∅⟩ _ (.raise databaseIsLocked)
        (.error (.osError "[Errno 5] Input/output error")) .refl (.raise _)
        (System.during_runs (S := storage libs settings α mkdirFails) hruns) (Function.update_self ..)
      have hlevel := hrestored.level
      simp [World.held, World.setRlock, World.ofSegments] at hlevel
  · exact restores_of_mkdir

end Pools

/-- The data directory cannot be created: the thread that has failed keeps the lock, and
every other thread of its process waits in vain. -/
theorem not_lock_restored : ∃ w',
    Prog.Runs (faulty sampleLibs {}) (storageLifecycleLock ⟨0, 0⟩ cleanupOrphanedParquetFiles, .ofSegments ∅)
      (.raise (.osError "[Errno 5] Input/output error"), w') ∧
    ¬Restored ⟨0, 0⟩ (.ofSegments ∅) w' ∧
    (World.exec sampleLibs {} (.lockAcquire ⟨0, 1⟩) w').1 = .ok false := by
  have hruns : Prog.Runs (failing sampleLibs {} true) _ _ :=
    leaks (t := ⟨0, 0⟩) cleanupOrphanedParquetFiles (w := .ofSegments ∅) rfl
  have hfaulty : ∀ {β : Type} (o : Op β) w r w', (failing sampleLibs {} true).step o w r w' →
      (faulty sampleLibs {}).step o w r w' := fun _ _ _ _ h => h.1
  refine ⟨_, hruns.mono (N := faulty sampleLibs {}) hfaulty, ?_, by decide⟩
  intro h
  have hlevel : 1 = 0 := h.level
  cases hlevel

end Lrcp.Store
