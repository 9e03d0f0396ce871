import Lrcp.Framework.Program

namespace Lrcp.Framework

universe u

variable {Op : Type → Type} {ε α β τ : Type} {σ : Type u}

/-- For the next `n` steps of `p` from `s`, with other parties changing the state
within `R` before each operation: every operation stays within `G`, and an
outcome reached satisfies `Q`. -/
def Safe (M : Machine Op ε σ) (R G : σ → σ → Prop) (Q : Except ε α → σ → Prop) :
    Nat → Prog Op ε α → σ → Prop
  | 0, _, _ => True
  | _ + 1, .ret a, s => Q (.ok a) s
  | _ + 1, .raise e, s => Q (.error e) s
  | n + 1, .call o k, s => ∀ s₁, R s s₁ → ∀ r s₂, M.step o s₁ r s₂ →
      G s₁ s₂ ∧ Safe M R G Q n (k r) s₂
  | n + 1, .loop body t k, s => Safe M R G Q n ((body t).andThen (Prog.again body k)) s

/-- Rely–guarantee triple: from `P` the program is safe for any number of steps. -/
def Triple (M : Machine Op ε σ) (R G : σ → σ → Prop) (P : σ → Prop) (p : Prog Op ε α)
    (Q : Except ε α → σ → Prop) : Prop :=
  ∀ n s, P s → Safe M R G Q n p s

/-- `P` survives what the other parties do. -/
def Stable (R : σ → σ → Prop) (P : σ → Prop) : Prop := ∀ s s', P s → R s s' → P s'

theorem stable_eq {P : σ → Prop} : Stable Eq P := fun _ _ hs hR => hR ▸ hs

section Rules

variable {M : Machine Op ε σ} {R G : σ → σ → Prop} {P H : σ → Prop}
  {Q J : Except ε α → σ → Prop}

theorem Safe.weaken (hQ : ∀ r s, J r s → Q r s) {n : Nat} {p : Prog Op ε α} {s : σ}
    (h : Safe M R G J n p s) : Safe M R G Q n p s := by
  induction n generalizing p s with
  | zero => trivial
  | succ n ih =>
    cases p with
    | ret a => exact hQ _ _ h
    | raise e => exact hQ _ _ h
    | call o k => exact fun s₁ hr r s₂ hm => ⟨(h s₁ hr r s₂ hm).1, ih (h s₁ hr r s₂ hm).2⟩
    | loop body t k => exact ih (p := (body t).andThen (Prog.again body k)) h

theorem Safe.mono {n m : Nat} (hnm : m ≤ n) {p : Prog Op ε α} {s : σ}
    (h : Safe M R G Q n p s) : Safe M R G Q m p s := by
  induction m generalizing n p s with
  | zero => trivial
  | succ m ih =>
    obtain ⟨n, rfl⟩ : ∃ k, n = k + 1 := ⟨n - 1, by omega⟩
    cases p with
    | ret a => exact h
    | raise e => exact h
    | call o k =>
      exact fun s₁ hr r s₂ hm => ⟨(h s₁ hr r s₂ hm).1, ih (by omega) (h s₁ hr r s₂ hm).2⟩
    | loop body t k =>
      exact ih (p := (body t).andThen (Prog.again body k)) (by omega) h

/-- On a machine that can do less. -/
theorem Safe.machine {N : Machine Op ε σ}
    (h : ∀ {β : Type} (o : Op β) s r s', N.step o s r s' → M.step o s r s') {n : Nat}
    {p : Prog Op ε α} {s : σ} (hp : Safe M R G Q n p s) : Safe N R G Q n p s := by
  induction n generalizing p s with
  | zero => trivial
  | succ n ih =>
    cases p with
    | ret a => exact hp
    | raise e => exact hp
    | call o k =>
      intro s₁ hr r s₂ hm
      obtain ⟨hG, hnext⟩ := hp s₁ hr r s₂ (h o s₁ r s₂ hm)
      exact ⟨hG, ih hnext⟩
    | loop body t k => exact ih (p := (body t).andThen (Prog.again body k)) hp

theorem Safe.andThen {q : Except ε α → Prog Op ε β} {Q : Except ε β → σ → Prop} {n : Nat}
    {p : Prog Op ε α} {s : σ} (hp : Safe M R G J n p s)
    (hq : ∀ r s, J r s → Safe M R G Q n (q r) s) : Safe M R G Q n (p.andThen q) s := by
  induction n generalizing p s with
  | zero => trivial
  | succ n ih =>
    have hq' : ∀ r s, J r s → Safe M R G Q n (q r) s :=
      fun r s h => (hq r s h).mono (Nat.le_succ n)
    cases p with
    | ret a => exact hq _ _ hp
    | raise e => exact hq _ _ hp
    | call o k =>
      exact fun s₁ hr r s₂ hm =>
        ⟨(hp s₁ hr r s₂ hm).1, ih (hp s₁ hr r s₂ hm).2 hq'⟩
    | loop body t k =>
      have h : Safe M R G Q n (((body t).andThen (Prog.again body k)).andThen q) s :=
        ih (p := (body t).andThen (Prog.again body k)) hp hq'
      rw [Prog.andThen_assoc] at h
      have e : (fun r => (Prog.again body k r).andThen q) =
          Prog.again body (fun r => (k r).andThen q) := by
        funext r
        rcases r with e | (t' | b) <;> rfl
      rw [e] at h
      exact h

namespace Triple

theorem conseq {p : Prog Op ε α} (hP : ∀ s, P s → H s) (h : Triple M R G H p J)
    (hQ : ∀ r s, J r s → Q r s) : Triple M R G P p Q :=
  fun n s hs => (h n s (hP s hs)).weaken hQ

theorem pre {p : Prog Op ε α} (hP : ∀ s, P s → H s) (h : Triple M R G H p Q) :
    Triple M R G P p Q := h.conseq hP fun _ _ hq => hq

theorem post {p : Prog Op ε α} (h : Triple M R G P p J) (hQ : ∀ r s, J r s → Q r s) :
    Triple M R G P p Q := h.conseq (fun _ hp => hp) hQ

/-- A fact about the start that does not mention the state can be assumed. -/
theorem assume {p : Prog Op ε α} {A : Prop} (h : A → Triple M R G P p Q) :
    Triple M R G (fun s => A ∧ P s) p Q := fun n s hs => h hs.1 n s hs.2

/-- The existential in a precondition can be opened. -/
theorem exists_pre {ι : Sort*} {P : ι → σ → Prop} {p : Prog Op ε α}
    (h : ∀ i, Triple M R G (P i) p Q) : Triple M R G (fun s => ∃ i, P i s) p Q :=
  fun n s hs => hs.elim fun i hi => h i n s hi

theorem ret {a : α} (h : ∀ s, P s → Q (.ok a) s) :
    Triple M R G P (.ret a : Prog Op ε α) Q := by
  rintro (_ | n) s hs
  · trivial
  · exact h s hs

theorem raise {e : ε} (h : ∀ s, P s → Q (.error e) s) :
    Triple M R G P (.raise e : Prog Op ε α) Q := by
  rintro (_ | n) s hs
  · trivial
  · exact h s hs

theorem done {r : Except ε α} (h : ∀ s, P s → Q r s) :
    Triple M R G P (.done r : Prog Op ε α) Q := by
  cases r with
  | ok a => exact ret h
  | error e => exact raise h

theorem andThen {q : Except ε α → Prog Op ε β} {Q : Except ε β → σ → Prop} {p : Prog Op ε α}
    (hp : Triple M R G P p J) (hq : ∀ r, Triple M R G (J r) (q r) Q) :
    Triple M R G P (p.andThen q) Q :=
  fun n s hs => (hp n s hs).andThen fun r s' h => hq r n s' h

theorem bind {f : α → Prog Op ε β} {Q : Except ε β → σ → Prop} {p : Prog Op ε α}
    (hp : Triple M R G P p J) (hf : ∀ a, Triple M R G (J (.ok a)) (f a) Q)
    (he : ∀ e s, J (.error e) s → Q (.error e) s) :
    Triple M R G P (p >>= f) Q :=
  hp.andThen fun
    | .ok a => hf a
    | .error e => raise fun s hs => he e s hs

theorem attempt {Q : Except ε (Except ε α) → σ → Prop} {p : Prog Op ε α}
    (hp : Triple M R G P p J) (h : ∀ r s, J r s → Q (.ok r) s) :
    Triple M R G P p.attempt Q :=
  hp.andThen fun r => ret fun s hs => h r s hs

/-- `try: p` with everything that handles its outcome. -/
theorem tryThen {f : Except ε α → Prog Op ε β} {Q : Except ε β → σ → Prop} {p : Prog Op ε α}
    (hp : Triple M R G P p J) (hf : ∀ r, Triple M R G (J r) (f r) Q) :
    Triple M R G P (p.attempt >>= f) Q := by
  rw [Prog.attempt_bind]
  exact hp.andThen hf

/-- A value that is at hand, or an exception in its place. -/
theorem doneThen {f : α → Prog Op ε β} {Q : Except ε β → σ → Prop} {r : Except ε α}
    (hok : ∀ a, r = .ok a → Triple M R G P (f a) Q)
    (herr : ∀ e, r = .error e → ∀ s, P s → Q (.error e) s) :
    Triple M R G P ((Prog.done r : Prog Op ε α) >>= f) Q := by
  rw [Prog.bind_eq, Prog.done_andThen]
  cases r with
  | ok a => exact hok a rfl
  | error e => exact raise (herr e rfl)

theorem discard {Q : Except ε Unit → σ → Prop} {p : Prog Op ε α} (hp : Triple M R G P p J)
    (hok : ∀ a s, J (.ok a) s → Q (.ok ()) s) (herr : ∀ e s, J (.error e) s → Q (.error e) s) :
    Triple M R G P p.discard Q :=
  hp.bind (fun a => ret (hok a)) herr

theorem suppress {Q : Except ε Unit → σ → Prop} {p : Prog Op ε α}
    (hp : Triple M R G P p J) (h : ∀ r s, J r s → Q (.ok ()) s) :
    Triple M R G P p.suppress Q :=
  hp.andThen fun r => ret fun s hs => h r s hs

theorem finallyDo {p : Prog Op ε α} {q : Prog Op ε Unit} {F : Except ε α → Except ε Unit → σ → Prop}
    (hp : Triple M R G P p J) (hq : ∀ r, Triple M R G (J r) q (F r))
    (hok : ∀ r u s, F r (.ok u) s → Q r s) (herr : ∀ r e s, F r (.error e) s → Q (.error e) s) :
    Triple M R G P (p.finallyDo q) Q :=
  hp.andThen fun r => (hq r).andThen fun
    | .ok u => done fun s hs => hok r u s hs
    | .error e => raise fun s hs => herr r e s hs

/-- One operation: what holds before it must be stable, and then every step of
the machine has to be answered for. -/
theorem perform {o : Op α} (hP : Stable R P)
    (h : ∀ s r s', P s → M.step o s r s' → G s s' ∧ Q r s') :
    Triple M R G P (Prog.perform o) Q := by
  rintro (_ | n) s hs
  · trivial
  · intro s₁ hr r s₂ hm
    obtain ⟨hg, hq⟩ := h s₁ r s₂ (hP s s₁ hs hr) hm
    exact ⟨hg, done (P := fun s => s = s₂) (fun s' e => e ▸ hq) n s₂ rfl⟩

/-- Loops by an invariant of the loop state. -/
theorem repeatUntil {body : τ → Prog Op ε (τ ⊕ α)} {I : τ → σ → Prop} {t : τ}
    (h : ∀ t, Triple M R G (I t) (body t) fun
      | .ok (.inl t') => I t'
      | .ok (.inr a) => Q (.ok a)
      | .error e => Q (.error e)) :
    Triple M R G (I t) (Prog.repeatUntil body t) Q := by
  intro n
  induction n generalizing t with
  | zero => exact fun _ _ => trivial
  | succ n ih =>
    intro s hs
    refine Safe.andThen (h t n s hs) fun r s' hr => ?_
    rcases r with e | (t' | a)
    · exact raise (P := fun s => Q (.error e) s) (fun _ h => h) n s' hr
    · exact ih s' hr
    · exact ret (P := fun s => Q (.ok a) s) (fun _ h => h) n s' hr

/-- `for` loops by an invariant over what is still to come. -/
theorem forEach {body : α → τ → Prog Op ε α} {I : List τ → α → σ → Prop} {xs : List τ} {a : α}
    (h : ∀ x xs a, Triple M R G (I (x :: xs) a) (body a x) fun
      | .ok a' => I xs a'
      | .error e => Q (.error e))
    (hnil : ∀ a s, I [] a s → Q (.ok a) s) :
    Triple M R G (I xs a) (Prog.forEach body xs a) Q := by
  induction xs generalizing a with
  | nil => exact ret fun s hs => hnil a s hs
  | cons x xs ih => exact bind (h x xs a) (fun a' => ih) fun e s he => he

/-- A filter gives a part of the list in its order. -/
theorem filterBy {test : τ → Prog Op ε Bool} {xs : List τ} {Q : Except ε (List τ) → σ → Prop}
    (h : ∀ x, Triple M R G P (test x) fun
      | .ok _ => P
      | .error e => Q (.error e))
    (hok : ∀ ys s, ys.Sublist xs → P s → Q (.ok ys) s) :
    Triple M R G P (Prog.filterBy test xs) Q := by
  induction xs generalizing Q with
  | nil => exact ret fun s hs => hok [] s (List.Sublist.refl _) hs
  | cons x xs ih =>
    apply bind (h x)
    · intro keep
      apply bind (J := fun r s => match r with
        | .ok ys => ys.Sublist xs ∧ P s
        | .error e => Q (.error e) s)
      · exact ih h fun ys s hys hs => ⟨hys, hs⟩
      · intro ys
        apply ret
        intro s hs
        cases keep with
        | true => exact hok _ s (hs.1.cons_cons x) hs.2
        | false => exact hok _ s (hs.1.cons x) hs.2
      · exact fun e s he => he
    · exact fun e s he => he

/-- A filter whose tests answer what `keep` says. -/
theorem filterBy_eq {test : τ → Prog Op ε Bool} {keep : τ → Bool} {xs : List τ}
    {Q : Except ε (List τ) → σ → Prop}
    (h : ∀ x ∈ xs, Triple M R G P (test x) fun r s => match r with
      | .ok b => b = keep x ∧ P s
      | .error e => Q (.error e) s)
    (hok : ∀ s, P s → Q (.ok (xs.filter keep)) s) :
    Triple M R G P (Prog.filterBy test xs) Q := by
  induction xs generalizing Q with
  | nil => exact ret fun s hs => hok s hs
  | cons x xs ih =>
    apply bind (h x (by simp))
    · intro b
      apply assume
      rintro rfl
      apply bind (J := fun r s => match r with
        | .ok ys => ys = xs.filter keep ∧ P s
        | .error e => Q (.error e) s)
      · exact ih (fun y hy => h y (by simp [hy])) fun s hs => ⟨rfl, hs⟩
      · intro ys
        apply assume
        rintro rfl
        apply ret
        intro s hs
        have hQ := hok s hs
        rw [List.filter_cons] at hQ
        exact hQ
      · exact fun e s he => he
    · exact fun e s he => he

theorem cond {c : Prop} [Decidable c] {p q : Prog Op ε α}
    (hp : c → Triple M R G P p Q) (hq : ¬c → Triple M R G P q Q) :
    Triple M R G P (if c then p else q) Q := by
  split
  · exact hp ‹_›
  · exact hq ‹_›

end Triple

/-- The configuration is safe from a state that the other parties have since
changed within `R`. -/
def Covered (M : Machine Op ε σ) (R G : σ → σ → Prop) (Q : Except ε α → σ → Prop)
    (p : Prog Op ε α) (s : σ) : Prop :=
  ∃ s₀, R s₀ s ∧ ∀ n, Safe M R G Q n p s₀

namespace Covered

theorem of_triple {p : Prog Op ε α} {s : σ} (hr : ∀ s, R s s) (h : Triple M R G P p Q) (hs : P s) :
    Covered M R G Q p s := ⟨s, hr s, fun n => h n s hs⟩

theorem rely {p : Prog Op ε α} {s s' : σ} (ht : ∀ s s' s'', R s s' → R s' s'' → R s s'')
    (h : Covered M R G Q p s) (hs : R s s') : Covered M R G Q p s' := by
  obtain ⟨s₀, hr, hsafe⟩ := h
  exact ⟨s₀, ht _ _ _ hr hs, hsafe⟩

theorem machine {N : Machine Op ε σ}
    (hstep : ∀ {β : Type} (o : Op β) s r s', N.step o s r s' → M.step o s r s') {p : Prog Op ε α} {s : σ}
    (h : Covered M R G Q p s) : Covered N R G Q p s := by
  obtain ⟨s₀, hr, hsafe⟩ := h
  exact ⟨s₀, hr, fun n => (hsafe n).machine hstep⟩

/-- A step of a covered program stays within the guarantee and is covered again. -/
theorem step {p p' : Prog Op ε α} {s s' : σ} (hr : ∀ s, R s s)
    (h : Covered M R G Q p s) (hs : Prog.Step M (p, s) (p', s')) :
    (s' = s ∨ G s s') ∧ Covered M R G Q p' s' := by
  obtain ⟨s₀, hR, hsafe⟩ := h
  cases hs with
  | call hm =>
    have hstep := fun n => hsafe (n + 1) s hR _ _ hm
    exact ⟨.inr (hstep 0).1, s', hr _, fun n => (hstep n).2⟩
  | loop => exact ⟨.inl rfl, s₀, hR, fun n => hsafe (n + 1)⟩

/-- A covered program that runs for a while. -/
theorem runs {p p' : Prog Op ε α} {s s' : σ} (hr : ∀ s, R s s) (h : Covered M R G Q p s)
    (hs : Prog.Runs M (p, s) (p', s')) : Relation.ReflTransGen G s s' ∧ Covered M R G Q p' s' := by
  suffices hkey : ∀ c : Prog Op ε α × σ, Prog.Runs M (p, s) c →
      Relation.ReflTransGen G s c.2 ∧ Covered M R G Q c.1 c.2 from hkey _ hs
  intro c hc
  induction hc with
  | refl => exact ⟨.refl, h⟩
  | @tail c d _ hstep ih =>
    obtain ⟨hG, hc⟩ := ih
    obtain ⟨hnow, hd⟩ := hc.step hr hstep
    refine ⟨?_, hd⟩
    rcases hnow with heq | hnow
    · rw [heq]
      exact hG
    · exact hG.tail hnow

theorem outcome {r : Except ε α} {s : σ} (h : Covered M R G Q (.done r) s) :
    ∃ s₀, R s₀ s ∧ Q r s₀ := by
  obtain ⟨s₀, hR, hsafe⟩ := h
  refine ⟨s₀, hR, ?_⟩
  cases r with
  | ok a => exact hsafe 1
  | error e => exact hsafe 1

end Covered

/-- One step of a program, or something that goes on beside it. -/
inductive Interleaving (M : Machine Op ε σ) (E : σ → σ → Prop) :
    Prog Op ε α × σ → Prog Op ε α × σ → Prop
  | own {c d} (h : Prog.Step M c d) : Interleaving M E c d
  | beside {p s s'} (h : E s s') : Interleaving M E (p, s) (p, s')

/-- The program takes its steps, the others none. -/
theorem Interleaving.of_runs {E : σ → σ → Prop} {c d : Prog Op ε α × σ} (h : Prog.Runs M c d) :
    Relation.ReflTransGen (Interleaving M E) c d :=
  Relation.ReflTransGen.mono (fun _ _ => .own) _ _ h

/-- The others take their steps, the program none. -/
theorem Interleaving.of_beside {E : σ → σ → Prop} {p : Prog Op ε α} {s s' : σ}
    (h : Relation.ReflTransGen E s s') : Relation.ReflTransGen (Interleaving M E) (p, s) (p, s') :=
  Relation.ReflTransGen.lift (fun s => (p, s)) (fun _ _ hs => .beside hs) _ _ h

/-- A program that is interleaved with what the other parties do: its outcome
satisfies `Q` up to what they have done since. -/
theorem Triple.interleaved {E : σ → σ → Prop} {p : Prog Op ε α} {s s' : σ} {r : Except ε α}
    (h : Triple M R G P p Q) (hr : ∀ s, R s s) (ht : ∀ s s' s'', R s s' → R s' s'' → R s s'')
    (hE : ∀ s s', E s s' → R s s') (hs : P s)
    (hrun : Relation.ReflTransGen (Interleaving M E) (p, s) (.done r, s')) : ∃ s₀, R s₀ s' ∧ Q r s₀ := by
  suffices hkey : ∀ c : Prog Op ε α × σ, Relation.ReflTransGen (Interleaving M E) (p, s) c →
      Covered M R G Q c.1 c.2 from (hkey _ hrun).outcome
  intro c hc
  induction hc with
  | refl => exact .of_triple hr h hs
  | tail _ hstep ih =>
    cases hstep with
    | own hown => exact (ih.step hr hown).2
    | beside hbeside => exact ih.rely ht (hE _ _ hbeside)

/-- A program that runs alone: every state it passes through satisfies an
invariant that its operations keep, and its outcome satisfies `Q`. -/
theorem Triple.runs {p p' : Prog Op ε α} {s s' : σ} {I : σ → Prop}
    (h : Triple M Eq (fun _ s' => I s') P p Q) (hs : P s) (hI : I s)
    (hr : Prog.Runs M (p, s) (p', s')) :
    I s' ∧ ∀ r, p' = .done r → Q r s' := by
  have hstart : Covered M Eq (fun _ s' => I s') Q p s := .of_triple (fun _ => rfl) h hs
  have key : ∀ c : Prog Op ε α × σ, Prog.Runs M (p, s) c →
      I c.2 ∧ Covered M Eq (fun _ s' => I s') Q c.1 c.2 := by
    intro c hc
    induction hc with
    | refl => exact ⟨hI, hstart⟩
    | tail _ hstep ih =>
      obtain ⟨hg, hc⟩ := ih.2.step (fun _ => rfl) hstep
      exact ⟨hg.elim (fun e => e ▸ ih.1) id, hc⟩
  obtain ⟨hI', hc⟩ := key _ hr
  refine ⟨hI', fun r e => ?_⟩
  subst e
  obtain ⟨s₀, rfl, hq⟩ := hc.outcome
  exact hq

end Rules

end Lrcp.Framework
