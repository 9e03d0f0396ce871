import Lrcp.Framework.Program

namespace Lrcp.Framework

universe u

variable {Op : Type → Type} {ε α β τ : Type} {σ : Type u}

/-- Some run of `p` from `s` comes to an end, and ends in `Q`. -/
def Reaches (M : Machine Op ε σ) (Q : Except ε α → σ → Prop) (p : Prog Op ε α) (s : σ) : Prop :=
  ∃ r s', Prog.Runs M (p, s) (.done r, s') ∧ Q r s'

/-- The first program runs on when there is another one behind it. -/
theorem Prog.Runs.andThen {M : Machine Op ε σ} {p p' : Prog Op ε α} {s s' : σ}
    (h : Prog.Runs M (p, s) (p', s')) (q : Except ε α → Prog Op ε β) :
    Prog.Runs M (p.andThen q, s) (p'.andThen q, s') := by
  have key : ∀ c, Prog.Runs M (p, s) c → Prog.Runs M (p.andThen q, s) (c.1.andThen q, c.2) := by
    intro c hc
    induction hc with
    | refl => exact .refl
    | tail _ hstep ih =>
      refine .tail ih ?_
      cases hstep with
      | call hm => exact .call hm
      | @loop β τ body t k s =>
        have hagain : (fun r => (Prog.again body k r).andThen q) =
            Prog.again body (fun r => (k r).andThen q) := by
          funext r
          rcases r with e | (t' | b) <;> rfl
        rw [Prog.andThen_assoc, hagain]
        exact .loop
  exact key _ h

/-- A program that continues another one has ended: the first one had ended before. -/
theorem Prog.Runs.of_andThen {M : Machine Op ε σ} {p : Prog Op ε α} {k : Except ε α → Prog Op ε β}
    {s s' : σ} {r : Except ε β} (h : Prog.Runs M (p.andThen k, s) (.done r, s')) :
    ∃ r₀ s₀, Prog.Runs M (p, s) (.done r₀, s₀) ∧ Prog.Runs M (k r₀, s₀) (.done r, s') := by
  suffices hkey : ∀ c : Prog Op ε β × σ, Prog.Runs M (p.andThen k, s) c →
      (∃ p' s', c = (p'.andThen k, s') ∧ Prog.Runs M (p, s) (p', s')) ∨
        ∃ r₀ s₀, Prog.Runs M (p, s) (.done r₀, s₀) ∧ Prog.Runs M (k r₀, s₀) c by
    rcases hkey _ h with ⟨p', s₁, heq, hp⟩ | hended
    · obtain ⟨hdone, rfl⟩ := Prod.mk.inj heq
      cases p' with
      | ret a => exact ⟨.ok a, s', hp, hdone ▸ .refl⟩
      | raise e => exact ⟨.error e, s', hp, hdone ▸ .refl⟩
      | call o k' => cases r <;> cases hdone
      | loop body t k' => cases r <;> cases hdone
    · exact hended
  intro c hc
  induction hc with
  | refl => exact .inl ⟨p, s, rfl, .refl⟩
  | @tail c d _ hstep ih =>
    rcases ih with ⟨p', s₁, rfl, hp⟩ | ⟨r₀, s₀, hp, hk⟩
    · cases p' with
      | ret a => exact .inr ⟨.ok a, s₁, hp, .single hstep⟩
      | raise e => exact .inr ⟨.error e, s₁, hp, .single hstep⟩
      | call o k' =>
        cases hstep with
        | call hm => exact .inl ⟨_, _, rfl, hp.tail (.call hm)⟩
      | loop body t k' =>
        cases hstep with
        | loop =>
          refine .inl ⟨_, _, ?_, hp.tail .loop⟩
          have hagain : (fun r => (Prog.again body k' r).andThen k) =
              Prog.again body (fun r => (k' r).andThen k) := by
            funext r
            rcases r with e | (t' | b) <;> rfl
          rw [Prog.andThen_assoc, hagain]
    · exact .inr ⟨r₀, s₀, hp, hk.tail hstep⟩

/-- A program that has ended stays as it is. -/
theorem Prog.Runs.of_done {M : Machine Op ε σ} {r : Except ε α} {s s' : σ} {p : Prog Op ε α}
    (h : Prog.Runs M (.done r, s) (p, s')) : p = .done r ∧ s' = s := by
  rcases Relation.ReflTransGen.cases_head h with heq | ⟨c, hstep, -⟩
  · obtain ⟨rfl, rfl⟩ := Prod.mk.inj heq
    exact ⟨rfl, rfl⟩
  · cases r <;> cases hstep

namespace Reaches

variable {M : Machine Op ε σ} {Q J : Except ε α → σ → Prop} {s : σ}

theorem post {p : Prog Op ε α} (h : Reaches M J p s) (hQ : ∀ r s, J r s → Q r s) :
    Reaches M Q p s := by
  obtain ⟨r, s', hr, hj⟩ := h
  exact ⟨r, s', hr, hQ r s' hj⟩

theorem done {r : Except ε α} (h : Q r s) : Reaches M Q (.done r) s := ⟨r, s, .refl, h⟩

theorem ret {a : α} (h : Q (.ok a) s) : Reaches M Q (.ret a) s := ⟨.ok a, s, .refl, h⟩

theorem raise {e : ε} (h : Q (.error e) s) : Reaches M Q (.raise e) s := ⟨.error e, s, .refl, h⟩

theorem perform {o : Op α} {r : Except ε α} {s' : σ} (h : M.step o s r s') (hQ : Q r s') :
    Reaches M Q (Prog.perform o) s := ⟨r, s', .single (.call h), hQ⟩

theorem andThen {q : Except ε α → Prog Op ε β} {Q : Except ε β → σ → Prop} {p : Prog Op ε α}
    (hp : Reaches M J p s) (hq : ∀ r s, J r s → Reaches M Q (q r) s) :
    Reaches M Q (p.andThen q) s := by
  obtain ⟨r, s', hr, hj⟩ := hp
  obtain ⟨r', s'', hr', hQ⟩ := hq r s' hj
  refine ⟨r', s'', (hr.andThen q).trans ?_, hQ⟩
  rw [Prog.done_andThen]
  exact hr'

theorem bind {f : α → Prog Op ε β} {Q : Except ε β → σ → Prop} {p : Prog Op ε α}
    (hp : Reaches M J p s) (hf : ∀ a s, J (.ok a) s → Reaches M Q (f a) s)
    (he : ∀ e s, J (.error e) s → Q (.error e) s) : Reaches M Q (p >>= f) s :=
  hp.andThen fun
    | .ok a, s, h => hf a s h
    | .error e, s, h => raise (he e s h)

theorem tryThen {f : Except ε α → Prog Op ε β} {Q : Except ε β → σ → Prop} {p : Prog Op ε α}
    (hp : Reaches M J p s) (hf : ∀ r s, J r s → Reaches M Q (f r) s) :
    Reaches M Q (p.attempt >>= f) s := by
  rw [Prog.attempt_bind]
  exact hp.andThen hf

theorem suppress {Q : Except ε Unit → σ → Prop} {p : Prog Op ε α}
    (hp : Reaches M J p s) (h : ∀ r s, J r s → Q (.ok ()) s) : Reaches M Q p.suppress s :=
  hp.andThen fun r s hs => ret (h r s hs)

theorem finallyDo {p : Prog Op ε α} {q : Prog Op ε Unit} {F : Except ε α → Except ε Unit → σ → Prop}
    (hp : Reaches M J p s) (hq : ∀ r s, J r s → Reaches M (F r) q s)
    (hok : ∀ r u s, F r (.ok u) s → Q r s) (herr : ∀ r e s, F r (.error e) s → Q (.error e) s) :
    Reaches M Q (p.finallyDo q) s :=
  hp.andThen fun r s hs => (hq r s hs).andThen fun
    | .ok u, s, h => done (hok r u s h)
    | .error e, s, h => raise (herr r e s h)

/-- A loop ends when a measure of its state decreases in every round. -/
theorem repeatUntil {body : τ → Prog Op ε (τ ⊕ α)} {I : τ → σ → Prop} (μ : τ → Nat) {t : τ}
    (hs : I t s)
    (h : ∀ t s, I t s → Reaches M (fun (r : Except ε (τ ⊕ α)) s' => match r with
      | .ok (.inl t') => I t' s' ∧ μ t' < μ t
      | .ok (.inr a) => Q (.ok a) s'
      | .error e => Q (.error e) s') (body t) s) :
    Reaches M Q (Prog.repeatUntil body t) s := by
  induction hμ : μ t using Nat.strongRecOn generalizing t s with
  | ind n ih =>
    have hrest : Reaches M Q ((body t).andThen (Prog.again body Prog.done)) s := by
      refine (h t s hs).andThen fun r s' hr => ?_
      rcases r with e | (t' | a)
      · exact raise hr
      · exact ih (μ t') (hμ ▸ hr.2) hr.1 rfl
      · exact ret hr
    obtain ⟨r, s', hr, hQ⟩ := hrest
    exact ⟨r, s', .head .loop hr, hQ⟩

theorem forEach {body : α → τ → Prog Op ε α} {I : α → σ → Prop} {xs : List τ} {a : α}
    (ha : I a s)
    (h : ∀ x a s, x ∈ xs → I a s → Reaches M (fun (r : Except ε α) s' => match r with
      | .ok a' => I a' s'
      | .error e => Q (.error e) s') (body a x) s)
    (hnil : ∀ a s, I a s → Q (.ok a) s) : Reaches M Q (Prog.forEach body xs a) s := by
  induction xs generalizing a s with
  | nil => exact ret (hnil a s ha)
  | cons x xs ih =>
    refine bind (h x a s (by simp) ha) (fun a' s' hs' => ?_) fun e s' he => he
    exact ih hs' fun y a s hy => h y a s (by simp [hy])

end Reaches

end Lrcp.Framework
