import Lrcp.Framework.Triple
import Mathlib.Logic.Function.Basic

namespace Lrcp.Framework

universe u

variable {Op : Type → Type} {ε α ι : Type} {σ τ : Type u} [DecidableEq ι]

/-- Programs running side by side on one state. -/
structure Pool (Op : Type → Type) (ε α : Type) (σ : Type u) (ι : Type) where
  thread : ι → Option (Prog Op ε α)
  state : σ

/-- The same threads on the image of the state. -/
def Pool.map (g : σ → τ) (X : Pool Op ε α σ ι) : Pool Op ε α τ ι := ⟨X.thread, g X.state⟩

/-- The operations of a program that runs beside the threads of a pool, on their state. -/
def Machine.beside (M : Machine Op ε σ) : Machine Op ε (Pool Op ε α σ ι) where
  step o X r Y := Y.thread = X.thread ∧ M.step o X.state r Y.state

omit [DecidableEq ι] in
/-- A program runs beside the threads of a pool that stand still. -/
theorem runs_beside {β : Type} {M : Machine Op ε σ} {t : ι → Option (Prog Op ε α)} {p p' : Prog Op ε β}
    {s s' : σ} (h : Prog.Runs M (p, s) (p', s')) :
    Prog.Runs (M.beside : Machine Op ε (Pool Op ε α σ ι)) (p, ⟨t, s⟩) (p', ⟨t, s'⟩) := by
  suffices hkey : ∀ c : Prog Op ε β × σ, Prog.Runs M (p, s) c →
      Prog.Runs (M.beside : Machine Op ε (Pool Op ε α σ ι)) (p, ⟨t, s⟩) (c.1, ⟨t, c.2⟩) from hkey _ h
  intro c hc
  induction hc with
  | refl => exact .refl
  | tail _ hstep ih =>
    apply ih.tail
    cases hstep with
    | call hm => exact .call ⟨rfl, hm⟩
    | loop => exact .loop

/-- What may happen in a pool: which programs a thread may start, what its
operations do, what happens without any thread, and what a killed thread leaves. -/
structure System (Op : Type → Type) (ε α : Type) (σ : Type u) (ι : Type) where
  machine : ι → Machine Op ε σ
  start : ι → Prog Op ε α → σ → Prop
  env : σ → σ → Prop
  kill : ι → σ → σ → Prop

namespace System

variable (S : System Op ε α σ ι)

/-- The threads by themselves. -/
def offline : System Op ε α σ ι := { S with env := fun _ _ => False }

/-- The threads with a condition on their operations. -/
def guard (cond : {β : Type} → Op β → σ → Prop) : System Op ε α σ ι :=
  { S with machine := fun i => (S.machine i).guard cond }

inductive Step : Pool Op ε α σ ι → Pool Op ε α σ ι → Prop
  | start {t s} (i : ι) {p} (hi : t i = none) (hp : S.start i p s) :
      Step ⟨t, s⟩ ⟨Function.update t i (some p), s⟩
  | run {t s} (i : ι) {p p' s'} (hi : t i = some p) (hp : Prog.Step (S.machine i) (p, s) (p', s')) :
      Step ⟨t, s⟩ ⟨Function.update t i (some p'), s'⟩
  | finish {t s} (i : ι) {r} (hi : t i = some (.done r)) :
      Step ⟨t, s⟩ ⟨Function.update t i none, s⟩
  | kill {t s} (i : ι) {p s'} (hi : t i = some p) (hs : S.kill i s s') :
      Step ⟨t, s⟩ ⟨Function.update t i none, s'⟩
  | env {t s s'} (hs : S.env s s') : Step ⟨t, s⟩ ⟨t, s'⟩

def Reach : Pool Op ε α σ ι → Pool Op ε α σ ι → Prop := Relation.ReflTransGen S.Step

/-- The program that thread `i` runs at the first pool is still running at the second. -/
def During (i : ι) : Pool Op ε α σ ι → Pool Op ε α σ ι → Prop :=
  Relation.ReflTransGen fun X Y => S.Step X Y ∧ (Y.thread i).isSome

variable {S} in
/-- A step is one of the threads, or happens without any. -/
theorem step_offline {X Y : Pool Op ε α σ ι} :
    S.Step X Y ↔ S.offline.Step X Y ∨ (Y.thread = X.thread ∧ S.env X.state Y.state) := by
  constructor
  · intro h
    cases h with
    | start i hi hp => exact .inl (.start i hi hp)
    | run i hi hp => exact .inl (.run i hi hp)
    | finish i hi => exact .inl (.finish i hi)
    | kill i hi hs => exact .inl (.kill i hi hs)
    | env hs => exact .inr ⟨rfl, hs⟩
  · intro h
    rcases h with h | ⟨hthread, hs⟩
    · cases h with
      | start i hi hp => exact .start i hi hp
      | run i hi hp => exact .run i hi hp
      | finish i hi => exact .finish i hi
      | kill i hi hs => exact .kill i hi hs
      | env hs => exact hs.elim
    · obtain ⟨t, s⟩ := X
      obtain ⟨t', s'⟩ := Y
      obtain rfl : t' = t := hthread
      exact .env hs

/-- What the threads do to the state, those of `T` can do to its image. -/
structure Maps (S : System Op ε α σ ι) (T : System Op ε α τ ι) (g : σ → τ) : Prop where
  machine : ∀ i {β : Type} (o : Op β) s r s', (S.machine i).step o s r s' →
    (T.machine i).step o (g s) r (g s')
  start : ∀ i p s, S.start i p s → T.start i p (g s)
  kill : ∀ i s s', S.kill i s s' → T.kill i (g s) (g s')

theorem Maps.step {S : System Op ε α σ ι} {T : System Op ε α τ ι} {g : σ → τ} (h : Maps S T g)
    {X Y : Pool Op ε α σ ι} (hs : S.offline.Step X Y) : T.offline.Step (X.map g) (Y.map g) := by
  cases hs with
  | start i hi hp => exact .start i hi (h.start _ _ _ hp)
  | run i hi hp =>
    apply Step.run i hi
    cases hp with
    | call hm => exact .call (h.machine _ _ _ _ _ hm)
    | loop => exact .loop
  | finish i hi => exact .finish i hi
  | kill i hi hs => exact .kill i hi (h.kill _ _ _ hs)
  | env hs => exact hs.elim

variable {S} in
/-- With a condition on their operations the threads do less. -/
theorem guard_step {cond : {β : Type} → Op β → σ → Prop} {X Y : Pool Op ε α σ ι}
    (hs : (S.guard cond).offline.Step X Y) : S.offline.Step X Y := by
  have hmaps : Maps (S.guard cond) S id := ⟨fun _ _ _ _ _ _ h => h.2, fun _ _ _ h => h, fun _ _ _ h => h⟩
  exact hmaps.step hs

/-- A step of one of the threads, or what happens without any goes on for a while. -/
def Moves (X Y : Pool Op ε α σ ι) : Prop :=
  S.offline.Step X Y ∨ (Y.thread = X.thread ∧ Relation.ReflTransGen S.env X.state Y.state)

variable {S} in
/-- The threads do not change while something happens without them. -/
theorem during_env {i : ι} {t : ι → Option (Prog Op ε α)} {s s' : σ} (hi : (t i).isSome)
    (h : Relation.ReflTransGen S.env s s') : S.During i ⟨t, s⟩ ⟨t, s'⟩ := by
  apply Relation.ReflTransGen.lift (fun s => (⟨t, s⟩ : Pool Op ε α σ ι)) _ _ _ h
  exact fun s s' hs => ⟨.env hs, hi⟩

variable {S} in
theorem reach_env {t : ι → Option (Prog Op ε α)} {s s' : σ} (h : Relation.ReflTransGen S.env s s') :
    S.Reach ⟨t, s⟩ ⟨t, s'⟩ := by
  apply Relation.ReflTransGen.lift (fun s => (⟨t, s⟩ : Pool Op ε α σ ι)) _ _ _ h
  exact fun s s' hs => .env hs

variable {S} in
theorem Moves.reach {X Y : Pool Op ε α σ ι} (h : S.Moves X Y) : S.Reach X Y := by
  rcases h with h | ⟨hthread, henv⟩
  · exact .single (step_offline.mpr (.inl h))
  · obtain ⟨t, s⟩ := X
    obtain ⟨t', s'⟩ := Y
    obtain rfl : t' = t := hthread
    exact reach_env henv

variable {S} in
theorem Moves.during {X Y : Pool Op ε α σ ι} {i : ι} (h : S.Moves X Y) (hi : (Y.thread i).isSome) :
    S.During i X Y := by
  rcases h with h | ⟨hthread, henv⟩
  · exact .single ⟨step_offline.mpr (.inl h), hi⟩
  · obtain ⟨t, s⟩ := X
    obtain ⟨t', s'⟩ := Y
    obtain rfl : t' = t := hthread
    exact during_env hi henv

variable {S} in
/-- A thread runs while the others stand still. -/
theorem during_runs {t : ι → Option (Prog Op ε α)} {i : ι} {p p' : Prog Op ε α} {s s' : σ}
    (h : Prog.Runs (S.machine i) (p, s) (p', s')) :
    S.During i ⟨Function.update t i (some p), s⟩ ⟨Function.update t i (some p'), s'⟩ := by
  suffices hkey : ∀ c : Prog Op ε α × σ, Prog.Runs (S.machine i) (p, s) c →
      S.During i ⟨Function.update t i (some p), s⟩ ⟨Function.update t i (some c.1), c.2⟩ from hkey _ h
  intro c hc
  induction hc with
  | refl => exact .refl
  | @tail c d _ hstep ih =>
    refine .tail ih ⟨?_, by simp⟩
    have hrun := Step.run (S := S) (t := Function.update t i (some c.1)) i (by simp) hstep
    rw [Function.update_idem] at hrun
    exact hrun

variable {S} in
theorem reach_during {i : ι} {X Y : Pool Op ε α σ ι} (h : S.During i X Y) : S.Reach X Y :=
  Relation.ReflTransGen.mono (fun _ _ hs => hs.1) _ _ h

variable {S} in
/-- A thread starts a program and runs it. -/
theorem reach_start {t : ι → Option (Prog Op ε α)} {i : ι} {p p' : Prog Op ε α} {s s' : σ}
    (hi : t i = none) (hp : S.start i p s) (h : Prog.Runs (S.machine i) (p, s) (p', s')) :
    S.Reach ⟨t, s⟩ ⟨Function.update t i (some p'), s'⟩ :=
  .head (.start i hi hp) (reach_during (during_runs h))

end System

/-- Rely and guarantee conditions that fit together: what one thread may do,
every other thread can live with, and all of them keep the invariant. -/
structure Compatible (S : System Op ε α σ ι) (Inv : σ → Prop) (R G : ι → σ → σ → Prop) : Prop where
  refl : ∀ i s, R i s s
  trans : ∀ i s s' s'', R i s s' → R i s' s'' → R i s s''
  keeps : ∀ i s s', Inv s → G i s s' → Inv s' ∧ ∀ j, j ≠ i → R j s s'
  env : ∀ s s', Inv s → S.env s s' → Inv s' ∧ ∀ j, R j s s'
  kill : ∀ i s s', Inv s → S.kill i s s' → Inv s' ∧ ∀ j, j ≠ i → R j s s'
  start : ∀ i p s, Inv s → S.start i p s →
    Covered (S.machine i) (R i) (G i) (fun _ _ => True) p s

/-- The invariant holds and every running program is covered by its triple. -/
def Sound (S : System Op ε α σ ι) (Inv : σ → Prop) (R G : ι → σ → σ → Prop)
    (X : Pool Op ε α σ ι) : Prop :=
  Inv X.state ∧ ∀ i p, X.thread i = some p →
    Covered (S.machine i) (R i) (G i) (fun _ _ => True) p X.state

namespace Compatible

variable {S : System Op ε α σ ι} {Inv : σ → Prop} {R G : ι → σ → σ → Prop}

omit [DecidableEq ι] in
/-- The step of one thread, seen from another one that is covered. -/
theorem others (h : Compatible S Inv R G) {i j : ι} (hij : j ≠ i) {Q : Except ε α → σ → Prop}
    {p : Prog Op ε α} {s s' : σ} (hI : Inv s) (hs : s' = s ∨ G i s s')
    (hc : Covered (S.machine j) (R j) (G j) Q p s) : Covered (S.machine j) (R j) (G j) Q p s' := by
  rcases hs with rfl | hs
  · exact hc
  · exact hc.rely (h.trans j) ((h.keeps i s s' hI hs).2 j hij)

theorem sound_step (h : Compatible S Inv R G) {X Y : Pool Op ε α σ ι} (hX : Sound S Inv R G X)
    (hs : S.Step X Y) : Sound S Inv R G Y := by
  obtain ⟨hI, hc⟩ := hX
  cases hs with
  | @start t s i p hi hp =>
    refine ⟨hI, fun j q hq => ?_⟩
    by_cases hj : j = i
    · subst hj
      simp only [Function.update_self, Option.some.injEq] at hq
      exact hq ▸ h.start _ _ _ hI hp
    · exact hc j q (by simpa [Function.update_of_ne hj] using hq)
  | @run t s i p p' s' hi hp =>
    obtain ⟨hg, hp'⟩ := (hc i p hi).step (h.refl i) hp
    have hI' : Inv s' := hg.elim (fun e => e ▸ hI) fun hg => (h.keeps i s s' hI hg).1
    refine ⟨hI', fun j q hq => ?_⟩
    by_cases hj : j = i
    · subst hj
      simp only [Function.update_self, Option.some.injEq] at hq
      exact hq ▸ hp'
    · exact h.others hj hI hg (hc j q (by simpa [Function.update_of_ne hj] using hq))
  | @finish t s i r hi =>
    refine ⟨hI, fun j q hq => ?_⟩
    by_cases hj : j = i
    · subst hj
      simp at hq
    · exact hc j q (by simpa [Function.update_of_ne hj] using hq)
  | @kill t s i p s' hi hs =>
    obtain ⟨hI', hR⟩ := h.kill i s s' hI hs
    refine ⟨hI', fun j q hq => ?_⟩
    by_cases hj : j = i
    · subst hj
      simp at hq
    · exact (hc j q (by simpa [Function.update_of_ne hj] using hq)).rely (h.trans j) (hR j hj)
  | @env t s s' hs =>
    obtain ⟨hI', hR⟩ := h.env s s' hI hs
    exact ⟨hI', fun j q hq => (hc j q hq).rely (h.trans j) (hR j)⟩

theorem sound_reach (h : Compatible S Inv R G) {X Y : Pool Op ε α σ ι} (hX : Sound S Inv R G X)
    (hs : S.Reach X Y) : Sound S Inv R G Y := by
  induction hs with
  | refl => exact hX
  | tail _ hstep ih => exact h.sound_step ih hstep

omit [DecidableEq ι] in
/-- A pool in which nothing runs yet. -/
theorem sound_idle {s : σ} (hI : Inv s) : Sound S Inv R G ⟨fun _ => none, s⟩ :=
  ⟨hI, fun i p hp => by simp at hp⟩

/-- What a step of the threads can do to the state. -/
theorem step_cases (h : Compatible S Inv R G) {X Y : Pool Op ε α σ ι} (hX : Sound S Inv R G X)
    (hs : S.offline.Step X Y) :
    Y.state = X.state ∨ (∃ i, G i X.state Y.state) ∨ ∃ i, S.kill i X.state Y.state := by
  cases hs with
  | start i hi hp => exact .inl rfl
  | @run t s i p p' s' hi hp =>
    rcases ((hX.2 i p hi).step (h.refl i) hp).1 with heq | hG
    · exact .inl heq
    · exact .inr (.inl ⟨i, hG⟩)
  | finish i hi => exact .inl rfl
  | kill i hi hs => exact .inr (.inr ⟨i, hs⟩)
  | env hs => exact hs.elim

/-- A thread that started inside a triple of its own stays covered by that
triple for as long as its program runs. -/
theorem follow (h : Compatible S Inv R G) {i : ι} {Q : Except ε α → σ → Prop}
    {X Y : Pool Op ε α σ ι} {p : Prog Op ε α} (hX : Sound S Inv R G X) (hp : X.thread i = some p)
    (hc : Covered (S.machine i) (R i) (G i) Q p X.state) (hs : S.During i X Y) :
    ∃ q, Y.thread i = some q ∧ Covered (S.machine i) (R i) (G i) Q q Y.state := by
  suffices hsound : Sound S Inv R G Y ∧
      ∃ q, Y.thread i = some q ∧ Covered (S.machine i) (R i) (G i) Q q Y.state from hsound.2
  induction hs with
  | refl => exact ⟨hX, p, hp, hc⟩
  | @tail Y Z _ hstep ih =>
    obtain ⟨hY, q, hq, hcov⟩ := ih
    obtain ⟨hstep, hsome⟩ := hstep
    refine ⟨h.sound_step hY hstep, ?_⟩
    cases hstep with
    | @start t s j r hj hr =>
      have hij : i ≠ j := by rintro rfl; simp_all
      exact ⟨q, by simpa [Function.update_of_ne hij] using hq, hcov⟩
    | @run t s j r r' s' hj hr =>
      by_cases hij : i = j
      · subst hij
        obtain rfl : r = q := Option.some.inj (hj.symm.trans hq)
        obtain ⟨_, hcov'⟩ := hcov.step (h.refl i) hr
        exact ⟨r', by simp, hcov'⟩
      · obtain ⟨hg, _⟩ := (hY.2 j r hj).step (h.refl j) hr
        exact ⟨q, by simpa [Function.update_of_ne hij] using hq, h.others hij hY.1 hg hcov⟩
    | @finish t s j r hj =>
      by_cases hij : i = j
      · subst hij; simp at hsome
      · exact ⟨q, by simpa [Function.update_of_ne hij] using hq, hcov⟩
    | @kill t s j r s' hj hr =>
      by_cases hij : i = j
      · subst hij; simp at hsome
      · exact ⟨q, by simpa [Function.update_of_ne hij] using hq,
          hcov.rely (h.trans i) ((h.kill j s s' hY.1 hr).2 i hij)⟩
    | @env t s s' hs =>
      exact ⟨q, hq, hcov.rely (h.trans i) ((h.env s s' hY.1 hs).2 i)⟩

end Compatible

end Lrcp.Framework
