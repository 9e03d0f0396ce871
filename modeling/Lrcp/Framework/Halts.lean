import Lrcp.Framework.Pool

namespace Lrcp.Framework

universe u

variable {Op : Type → Type} {ε : Type}

/-- Every run of the program comes to an end, with an outcome in `Q`, whatever the operations answer, as
long as it is something that they can answer. -/
inductive Halts (Can : (β : Type) → Op β → Except ε β → Prop) :
    {α : Type} → (Except ε α → Prop) → Prog Op ε α → Prop
  | ret {α : Type} {Q : Except ε α → Prop} {a : α} (h : Q (.ok a)) : Halts Can Q (.ret a)
  | raise {α : Type} {Q : Except ε α → Prop} {e : ε} (h : Q (.error e)) : Halts Can Q (.raise e)
  | call {α β : Type} {Q : Except ε α → Prop} {o : Op β} {k : Except ε β → Prog Op ε α}
      (h : ∀ r, Can β o r → Halts Can Q (k r)) : Halts Can Q (.call o k)
  | loop {α β τ : Type} {Q : Except ε α → Prop} {body : τ → Prog Op ε (τ ⊕ β)} {t : τ}
      {k : Except ε β → Prog Op ε α} (h : Halts Can Q ((body t).andThen (Prog.again body k))) :
      Halts Can Q (.loop body t k)

/-- Every run of the program comes to an end. -/
def Ends (Can : (β : Type) → Op β → Except ε β → Prop) {α : Type} (p : Prog Op ε α) : Prop :=
  Halts Can (fun _ => True) p

variable {Can : (β : Type) → Op β → Except ε β → Prop} {α β τ : Type}

namespace Halts

variable {J Q : Except ε α → Prop}

theorem post {p : Prog Op ε α} (h : Halts Can J p) (hQ : ∀ r, J r → Q r) : Halts Can Q p := by
  induction h with
  | ret h => exact ret (hQ _ h)
  | raise h => exact raise (hQ _ h)
  | call _ ih => exact call fun r hr => ih r hr hQ
  | loop _ ih => exact loop (ih hQ)

theorem done {r : Except ε α} (h : Q r) : Halts Can Q (.done r) := by
  cases r with
  | ok a => exact ret h
  | error e => exact raise h

theorem perform {o : Op α} (h : ∀ r, Can α o r → Q r) : Halts Can Q (.perform o) :=
  call fun r hr => done (h r hr)

theorem andThen {L : Except ε β → Prop} {p : Prog Op ε α} {q : Except ε α → Prog Op ε β}
    (hp : Halts Can J p) (hq : ∀ r, J r → Halts Can L (q r)) : Halts Can L (p.andThen q) := by
  induction hp with
  | ret h => exact hq _ h
  | raise h => exact hq _ h
  | call _ ih => exact call fun r hr => ih r hr hq
  | @loop _ _ _ body t k _ ih =>
    have hagain : (fun r => (Prog.again body k r).andThen q) =
        Prog.again body (fun r => (k r).andThen q) := by
      funext r
      rcases r with e | (t' | b) <;> rfl
    have hround := ih hq
    rw [Prog.andThen_assoc, hagain] at hround
    exact loop hround

theorem bind {L : Except ε β → Prop} {p : Prog Op ε α} {f : α → Prog Op ε β} (hp : Halts Can J p)
    (hf : ∀ a, J (.ok a) → Halts Can L (f a)) (he : ∀ e, J (.error e) → L (.error e)) :
    Halts Can L (p >>= f) := by
  apply hp.andThen
  intro r hr
  cases r with
  | ok a => exact hf a hr
  | error e => exact raise (he e hr)

theorem tryThen {L : Except ε β → Prop} {p : Prog Op ε α} {f : Except ε α → Prog Op ε β}
    (hp : Halts Can J p) (hf : ∀ r, J r → Halts Can L (f r)) : Halts Can L (p.attempt >>= f) := by
  rw [Prog.attempt_bind]
  exact hp.andThen hf

/-- A loop ends when a measure decreases in every round but the last one. -/
theorem repeatUntil {body : τ → Prog Op ε (τ ⊕ α)} (μ : τ → Nat)
    (h : ∀ t, Halts Can (fun r => ∀ t', r = .ok (.inl t') → μ t' < μ t) (body t)) (t : τ) :
    Ends Can (Prog.repeatUntil body t) := by
  induction hμ : μ t using Nat.strongRecOn generalizing t with
  | ind n ih =>
    apply loop
    apply (h t).andThen
    intro r hr
    rcases r with e | (t' | a)
    · exact raise trivial
    · have hless : μ t' < n := hμ ▸ hr t' rfl
      exact ih (μ t') hless t' rfl
    · exact ret trivial

end Halts

namespace Ends

variable {p : Prog Op ε α}

theorem ret (a : α) : Ends Can (.ret a) := Halts.ret trivial

theorem raise (e : ε) : Ends Can (.raise e : Prog Op ε α) := Halts.raise trivial

theorem done (r : Except ε α) : Ends Can (.done r) := Halts.done trivial

theorem perform (o : Op α) : Ends Can (.perform o) := Halts.perform fun _ _ => trivial

theorem bind {f : α → Prog Op ε β} (hp : Ends Can p) (hf : ∀ a, Ends Can (f a)) : Ends Can (p >>= f) :=
  Halts.bind hp (fun a _ => hf a) fun _ _ => trivial

theorem tryThen {f : Except ε α → Prog Op ε β} (hp : Ends Can p) (hf : ∀ r, Ends Can (f r)) :
    Ends Can (p.attempt >>= f) := Halts.tryThen hp fun r _ => hf r

theorem attempt (hp : Ends Can p) : Ends Can p.attempt := hp.andThen fun _ _ => ret _

theorem suppress (hp : Ends Can p) : Ends Can p.suppress := hp.andThen fun _ _ => ret ()

theorem discard (hp : Ends Can p) : Ends Can p.discard := hp.bind fun _ => ret ()

theorem finallyDo {q : Prog Op ε Unit} (hp : Ends Can p) (hq : Ends Can q) : Ends Can (p.finallyDo q) := by
  apply hp.andThen
  intro r _
  apply hq.andThen
  intro u _
  cases u with
  | ok _ => exact done r
  | error e => exact raise e

theorem cond {c : Prop} [Decidable c] {p q : Prog Op ε α} (hp : Ends Can p) (hq : Ends Can q) :
    Ends Can (if c then p else q) := by
  split
  · exact hp
  · exact hq

theorem forEach {body : α → τ → Prog Op ε α} (h : ∀ a x, Ends Can (body a x)) (xs : List τ) (a : α) :
    Ends Can (Prog.forEach body xs a) := by
  induction xs generalizing a with
  | nil => exact ret a
  | cons x xs ih => exact (h a x).bind fun a' => ih a'

theorem filterBy {test : τ → Prog Op ε Bool} (h : ∀ x, Ends Can (test x)) (xs : List τ) :
    Ends Can (Prog.filterBy test xs) := by
  induction xs with
  | nil => exact ret []
  | cons x xs ih => exact (h x).bind fun _ => ih.bind fun _ => ret _

end Ends

section Runs

variable {σ : Type u} {ι : Type} [DecidableEq ι] {S : System Op ε α σ ι} {B : σ → Prop}

/-- One program comes after the other in one step, in some state of `B`. -/
def After (M : Machine Op ε σ) (B : σ → Prop) (q p : Prog Op ε α) : Prop :=
  ∃ s s', B s ∧ Prog.Step M (p, s) (q, s')

/-- The state may change in any way between the steps of such a program, as long as it stays in `B`. -/
theorem Halts.acc {M : Machine Op ε σ} {Q : Except ε α → Prop} {p : Prog Op ε α} (hp : Halts Can Q p)
    (hM : ∀ {β : Type} (o : Op β) s r s', B s → M.step o s r s' → Can β o r) : Acc (After M B) p := by
  induction hp with
  | ret h =>
    refine ⟨_, fun q hq => ?_⟩
    obtain ⟨s, s', -, hstep⟩ := hq
    cases hstep
  | raise h =>
    refine ⟨_, fun q hq => ?_⟩
    obtain ⟨s, s', -, hstep⟩ := hq
    cases hstep
  | call _ ih =>
    refine ⟨_, fun q hq => ?_⟩
    obtain ⟨s, s', hs, hstep⟩ := hq
    cases hstep with
    | call hm => exact ih _ (hM _ _ _ _ hs hm)
  | loop _ ih =>
    refine ⟨_, fun q hq => ?_⟩
    obtain ⟨s, s', hs, hstep⟩ := hq
    cases hstep with
    | loop => exact ih

/-- No run of such a program goes on for ever. -/
theorem Halts.no_infinite_run {M : Machine Op ε σ} {Q : Except ε α → Prop} {c : Nat → Prog Op ε α × σ}
    (hp : Halts Can Q (c 0).1) (hM : ∀ {β : Type} (o : Op β) s r s', B s → M.step o s r s' → Can β o r)
    (hB : ∀ n, B (c n).2) (hc : ∀ n, Prog.Step M (c n) (c (n + 1))) : False := by
  have hacc := hp.acc hM
  suffices hfrom : ∀ p, Acc (After M B) p → ∀ n, (c n).1 ≠ p from hfrom _ hacc 0 rfl
  intro p hp
  induction hp with
  | intro p _ ih =>
    intro n hn
    subst hn
    exact ih _ ⟨_, _, hB n, hc n⟩ (n + 1) rfl

/-- What a step does to one of the threads. -/
theorem System.Step.thread {X Y : Pool Op ε α σ ι} (h : S.Step X Y) (i : ι) :
    Y.thread i = X.thread i ∨
    (∃ p, X.thread i = none ∧ Y.thread i = some p ∧ S.start i p X.state) ∨
    ∃ p, X.thread i = some p ∧ (Y.thread i = none ∨
      ∃ q, Y.thread i = some q ∧ Prog.Step (S.machine i) (p, X.state) (q, Y.state)) := by
  cases h with
  | @start t s j p hj hp =>
    by_cases hij : i = j
    · subst hij
      exact .inr (.inl ⟨p, hj, by simp, hp⟩)
    · exact .inl (by simp [Function.update_of_ne hij])
  | @run t s j p q s' hj hp =>
    by_cases hij : i = j
    · subst hij
      exact .inr (.inr ⟨p, hj, .inr ⟨q, by simp, hp⟩⟩)
    · exact .inl (by simp [Function.update_of_ne hij])
  | @finish t s j r hj =>
    by_cases hij : i = j
    · subst hij
      exact .inr (.inr ⟨_, hj, .inl (by simp)⟩)
    · exact .inl (by simp [Function.update_of_ne hij])
  | @kill t s j p s' hj hs =>
    by_cases hij : i = j
    · subst hij
      exact .inr (.inr ⟨p, hj, .inl (by simp)⟩)
    · exact .inl (by simp [Function.update_of_ne hij])
  | env hs => exact .inl rfl

/-- A thread that runs a program that ends, and does not stand still, is idle again at some time. -/
theorem idle_again {X : Nat → Pool Op ε α σ ι} {i : ι} {p : Prog Op ε α}
    (hX : ∀ n, S.Step (X n) (X (n + 1))) (hB : ∀ n, B (X n).state)
    (hmoves : ∀ n p, (X n).thread i = some p → ∃ m, n ≤ m ∧ (X m).thread i ≠ some p)
    (hp : Acc (After (S.machine i) B) p) {n : Nat} (hn : (X n).thread i = some p) :
    ∃ m, n ≤ m ∧ (X m).thread i = none := by
  induction hp generalizing n with
  | intro p _ ih =>
    have hwalk : ∀ k, (X (n + k)).thread i = some p ∨ ∃ m, n ≤ m ∧ (X m).thread i = none := by
      intro k
      induction k with
      | zero => exact .inl hn
      | succ k ihk =>
        rcases ihk with hsame | hidle
        · rcases (hX (n + k)).thread i with hkept | ⟨p', hnone, -, -⟩ | ⟨p', hp', hidle | ⟨q, hq, hstep⟩⟩
          · exact .inl (hkept.trans hsame)
          · rw [hsame] at hnone
            cases hnone
          · exact .inr ⟨n + k + 1, by omega, hidle⟩
          · obtain rfl : p' = p := Option.some.inj (hp'.symm.trans hsame)
            obtain ⟨m, hm, hidle⟩ := ih q ⟨_, _, hB (n + k), hstep⟩ hq
            exact .inr ⟨m, by omega, hidle⟩
        · exact .inr hidle
    obtain ⟨m, hm, hmoved⟩ := hmoves n p hn
    have hlast := hwalk (m - n)
    rw [Nat.add_sub_cancel' hm] at hlast
    exact hlast.resolve_left hmoved

/-- If every program that a thread may start ends, then the thread is idle again and again. -/
theorem always_idle_again {X : Nat → Pool Op ε α σ ι} {i : ι} (hX : ∀ n, S.Step (X n) (X (n + 1)))
    (hB : ∀ n, B (X n).state) (hfirst : (X 0).thread i = none)
    (hstart : ∀ p s, S.start i p s → Acc (After (S.machine i) B) p)
    (hmoves : ∀ n p, (X n).thread i = some p → ∃ m, n ≤ m ∧ (X m).thread i ≠ some p) (n : Nat) :
    ∃ m, n ≤ m ∧ (X m).thread i = none := by
  have hacc : ∀ n p, (X n).thread i = some p → Acc (After (S.machine i) B) p := by
    intro n
    induction n with
    | zero =>
      intro p hp
      rw [hfirst] at hp
      cases hp
    | succ n ih =>
      intro p hp
      rcases (hX n).thread i with hkept | ⟨p', -, hp', hstarted⟩ | ⟨p', hp', hidle | ⟨q, hq, hstep⟩⟩
      · exact ih p (hkept.symm.trans hp)
      · obtain rfl : p' = p := Option.some.inj (hp'.symm.trans hp)
        exact hstart p' _ hstarted
      · rw [hidle] at hp
        cases hp
      · obtain rfl : q = p := Option.some.inj (hq.symm.trans hp)
        exact (ih p' hp').inv ⟨_, _, hB n, hstep⟩
  cases hn : (X n).thread i with
  | none => exact ⟨n, Nat.le_refl n, hn⟩
  | some p => exact idle_again hX hB hmoves (hacc n p hn) hn

end Runs

end Lrcp.Framework
