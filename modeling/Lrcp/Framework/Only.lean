import Lrcp.Framework.Pool

namespace Lrcp.Framework

universe u

variable {Op : Type → Type} {ε : Type}

/-- Every operation that the program can come to satisfies `φ`, whatever the
operations before it have answered. -/
def Only (φ : {γ : Type} → Op γ → Prop) {α : Type} : Prog Op ε α → Prop
  | .ret _ => True
  | .raise _ => True
  | .call o k => φ o ∧ ∀ r, Only φ (k r)
  | .loop body _ k => (∀ t, Only φ (body t)) ∧ ∀ r, Only φ (k r)

namespace Only

variable {φ : {γ : Type} → Op γ → Prop} {α β τ : Type} {σ : Type u}

theorem andThen {p : Prog Op ε α} {q : Except ε α → Prog Op ε β} (hp : Only φ p)
    (hq : ∀ r, Only φ (q r)) : Only φ (p.andThen q) := by
  induction p with
  | ret a => exact hq _
  | raise e => exact hq _
  | call o k ih => exact ⟨hp.1, fun r => ih r (hp.2 r) hq⟩
  | loop body t k _ ih => exact ⟨hp.1, fun r => ih r (hp.2 r) hq⟩

theorem ret (a : α) : Only φ (.ret a : Prog Op ε α) := trivial

theorem raise (e : ε) : Only φ (.raise e : Prog Op ε α) := trivial

theorem done (r : Except ε α) : Only φ (.done r : Prog Op ε α) := by
  cases r with
  | ok a => exact ret a
  | error e => exact raise e

theorem perform {o : Op α} (ho : φ o) : Only φ (.perform o : Prog Op ε α) := ⟨ho, done⟩

theorem bind {p : Prog Op ε α} {f : α → Prog Op ε β} (hp : Only φ p) (hf : ∀ a, Only φ (f a)) :
    Only φ (p >>= f) := by
  apply hp.andThen
  intro r
  cases r with
  | ok a => exact hf a
  | error e => exact raise e

theorem attempt {p : Prog Op ε α} (hp : Only φ p) : Only φ p.attempt := hp.andThen fun _ => ret _

theorem suppress {p : Prog Op ε α} (hp : Only φ p) : Only φ p.suppress := hp.andThen fun _ => ret _

theorem finallyDo {p : Prog Op ε α} {q : Prog Op ε Unit} (hp : Only φ p) (hq : Only φ q) :
    Only φ (p.finallyDo q) := by
  apply hp.andThen
  intro r
  apply hq.andThen
  intro u
  cases u with
  | ok _ => exact done r
  | error e => exact raise e

theorem forEach {body : α → τ → Prog Op ε α} {xs : List τ} {a : α}
    (h : ∀ a x, Only φ (body a x)) : Only φ (.forEach body xs a) := by
  induction xs generalizing a with
  | nil => exact ret a
  | cons x xs ih => exact (h a x).bind fun _ => ih

theorem repeatUntil {body : τ → Prog Op ε (τ ⊕ α)} {t : τ} (h : ∀ t, Only φ (body t)) :
    Only φ (.repeatUntil body t) := ⟨h, done⟩

theorem cond {c : Prop} [Decidable c] {p q : Prog Op ε α} (hp : Only φ p) (hq : Only φ q) :
    Only φ (if c then p else q) := by
  split
  · exact hp
  · exact hq

theorem filterBy {test : τ → Prog Op ε Bool} {xs : List τ} (h : ∀ x, Only φ (test x)) :
    Only φ (.filterBy test xs) := by
  induction xs with
  | nil => exact ret []
  | cons x xs ih => exact (h x).bind fun keep => ih.bind fun ys => ret _

theorem mono {ψ : {γ : Type} → Op γ → Prop} (h : ∀ {β : Type} (o : Op β), φ o → ψ o)
    {p : Prog Op ε α} (hp : Only φ p) : Only ψ p := by
  induction p with
  | ret a => exact ret a
  | raise e => exact raise e
  | call o k ih => exact ⟨h o hp.1, fun r => ih r (hp.2 r)⟩
  | loop body t k ihbody ihk => exact ⟨fun t => ihbody t (hp.1 t), fun r => ihk r (hp.2 r)⟩

theorem step {M : Machine Op ε σ} {p p' : Prog Op ε α} {s s' : σ} (hp : Only φ p)
    (hs : Prog.Step M (p, s) (p', s')) : Prog.Step (M.guard fun o _ => φ o) (p, s) (p', s') ∧ Only φ p' := by
  cases hs with
  | call hm => exact ⟨.call ⟨hp.1, hm⟩, hp.2 _⟩
  | loop =>
    refine ⟨.loop, (hp.1 _).andThen fun r => ?_⟩
    rcases r with e | (t' | b)
    · exact hp.2 _
    · exact hp
    · exact hp.2 _

/-- A run of such a program takes only steps that satisfy `φ`. -/
theorem runs {M : Machine Op ε σ} {p : Prog Op ε α} {s : σ} {c : Prog Op ε α × σ} (hp : Only φ p)
    (hr : Prog.Runs M (p, s) c) : Prog.Runs (M.guard fun o _ => φ o) (p, s) c ∧ Only φ c.1 := by
  induction hr with
  | refl => exact ⟨.refl, hp⟩
  | tail _ hstep ih =>
    obtain ⟨hstep', hp'⟩ := ih.2.step hstep
    exact ⟨ih.1.tail hstep', hp'⟩

/-- What every such operation keeps, the program keeps. -/
theorem triple {M : Machine Op ε σ} {R G : σ → σ → Prop} {I : σ → Prop} {p : Prog Op ε α}
    (hp : Only φ p) (hI : Stable R I)
    (hstep : ∀ {β : Type} (o : Op β) s r s', φ o → I s → M.step o s r s' → G s s' ∧ I s') :
    Triple M R G I p fun _ => I := by
  induction p with
  | ret a => exact Triple.ret fun _ hs => hs
  | raise e => exact Triple.raise fun _ hs => hs
  | call o k ih =>
    intro n s hs
    cases n with
    | zero => trivial
    | succ n =>
      intro s₁ hR r s₂ hm
      obtain ⟨hG, hI'⟩ := hstep o s₁ r s₂ hp.1 (hI s s₁ hs hR) hm
      exact ⟨hG, ih r (hp.2 r) n s₂ hI'⟩
  | loop body t k ihbody ihk =>
    have hloop : Triple M R G I (Prog.repeatUntil body t) fun _ => I := by
      apply Triple.repeatUntil (I := fun _ => I)
      intro t
      apply (ihbody t (hp.1 t)).post
      intro r s hs
      rcases r with e | (t' | b)
      · exact hs
      · exact hs
      · exact hs
    have hagain : (Prog.repeatUntil body t).andThen k = .loop body t k := by
      simp only [Prog.repeatUntil, Prog.andThen, Prog.done_andThen]
    rw [← hagain]
    exact hloop.andThen fun r => ihk r (hp.2 r)

end Only

section Confined

variable {φ : {γ : Type} → Op γ → Prop} {α ι : Type} {σ : Type u} [DecidableEq ι]
  {S : System Op ε α σ ι} {X Y : Pool Op ε α σ ι}

/-- Every program of the pool uses such operations only. -/
def Confined (φ : {γ : Type} → Op γ → Prop) (X : Pool Op ε α σ ι) : Prop :=
  ∀ i p, X.thread i = some p → Only φ p

theorem Confined.update (h : Confined φ X) {i : ι} {p : Prog Op ε α} (hp : Only φ p) (s : σ) :
    Confined φ (⟨Function.update X.thread i (some p), s⟩ : Pool Op ε α σ ι) := by
  intro j q hq
  by_cases hj : j = i
  · subst hj
    simp only [Function.update_self, Option.some.injEq] at hq
    exact hq ▸ hp
  · exact h j q (by simpa [Function.update_of_ne hj] using hq)

theorem Confined.remove (h : Confined φ X) (i : ι) (s : σ) :
    Confined φ (⟨Function.update X.thread i none, s⟩ : Pool Op ε α σ ι) := by
  intro j q hq
  by_cases hj : j = i
  · subst hj
    simp at hq
  · exact h j q (by simpa [Function.update_of_ne hj] using hq)

/-- What the operations, the kills and the surroundings respect, a step of the pool respects. -/
theorem Confined.step {R : σ → σ → Prop} (h : Confined φ X) (hrefl : ∀ s, R s s)
    (hstart : ∀ i p s, S.start i p s → Only φ p)
    (hop : ∀ i {β : Type} (o : Op β) s r s', φ o → (S.machine i).step o s r s' → R s s')
    (henv : ∀ s s', S.env s s' → R s s') (hkill : ∀ i s s', S.kill i s s' → R s s')
    (hs : S.Step X Y) : R X.state Y.state ∧ Confined φ Y := by
  cases hs with
  | start i hi hp => exact ⟨hrefl _, h.update (hstart i _ _ hp) _⟩
  | run i hi hp =>
    obtain ⟨hguarded, hnext⟩ := (h i _ hi).step hp
    refine ⟨?_, h.update hnext _⟩
    cases hguarded with
    | call hm => exact hop i _ _ _ _ hm.1 hm.2
    | loop => exact hrefl _
  | finish i hi => exact ⟨hrefl _, h.remove i _⟩
  | kill i hi hs => exact ⟨hkill i _ _ hs, h.remove i _⟩
  | env hs => exact ⟨henv _ _ hs, h⟩

end Confined

end Lrcp.Framework
