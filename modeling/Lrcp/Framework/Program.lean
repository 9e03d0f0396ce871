import Mathlib.Logic.Relation

namespace Lrcp.Framework

universe u

/-- A sequential program over the operations `Op`. Every operation answers with
a value or an exception, and the program decides what to do with either.
`loop` repeats its body until the body leaves the loop with `.inr`. -/
inductive Prog (Op : Type → Type) (ε : Type) : Type → Type 1
  | ret {α : Type} (a : α) : Prog Op ε α
  | raise {α : Type} (e : ε) : Prog Op ε α
  | call {α β : Type} (o : Op β) (k : Except ε β → Prog Op ε α) : Prog Op ε α
  | loop {α β τ : Type} (body : τ → Prog Op ε (τ ⊕ β)) (t : τ)
      (k : Except ε β → Prog Op ε α) : Prog Op ε α

namespace Prog

variable {Op : Type → Type} {ε α β γ τ : Type}

/-- Run `p`, then continue with its outcome, a value or an exception. -/
def andThen {α β : Type} : Prog Op ε α → (Except ε α → Prog Op ε β) → Prog Op ε β
  | ret a, k => k (.ok a)
  | raise e, k => k (.error e)
  | call o j, k => call o fun r => (j r).andThen k
  | loop body t j, k => loop body t fun r => (j r).andThen k

/-- The program that has nothing left to do but report an outcome. -/
def done : Except ε α → Prog Op ε α
  | .ok a => ret a
  | .error e => raise e

/-- Sequencing: an exception of the first program skips the second. -/
def onOk (f : α → Prog Op ε β) : Except ε α → Prog Op ε β
  | .ok a => f a
  | .error e => raise e

instance : Monad (Prog Op ε) where
  pure a := ret a
  bind p f := p.andThen (onOk f)

/-- A single operation. -/
def perform (o : Op α) : Prog Op ε α := call o done

/-- Run `p` and hand its outcome over as a value. -/
def attempt (p : Prog Op ε α) : Prog Op ε (Except ε α) := p.andThen ret

/-- `try: p finally: q`. An exception of `q` replaces the outcome of `p`. -/
def finallyDo (p : Prog Op ε α) (q : Prog Op ε Unit) : Prog Op ε α :=
  p.andThen fun r => q.andThen fun
    | .ok _ => done r
    | .error e => raise e

/-- Run `p` for its effect and ignore an exception. -/
def suppress (p : Prog Op ε α) : Prog Op ε Unit := p.andThen fun _ => ret ()

/-- Run `p` and forget its value. -/
def discard (p : Prog Op ε α) : Prog Op ε Unit := p >>= fun _ => ret ()

/-- `for x in xs: s = body(s, x)`. -/
def forEach {σ : Type} (body : σ → τ → Prog Op ε σ) : List τ → σ → Prog Op ε σ
  | [], s => ret s
  | x :: xs, s => body s x >>= fun s' => forEach body xs s'

/-- The items for which `test` holds, in order. -/
def filterBy (test : τ → Prog Op ε Bool) : List τ → Prog Op ε (List τ)
  | [] => ret []
  | x :: xs => test x >>= fun keep => filterBy test xs >>= fun ys =>
      ret (if keep then x :: ys else ys)

/-- What follows one round of a loop. -/
def again (body : τ → Prog Op ε (τ ⊕ β)) (k : Except ε β → Prog Op ε α) :
    Except ε (τ ⊕ β) → Prog Op ε α
  | .ok (.inl t) => loop body t k
  | .ok (.inr b) => k (.ok b)
  | .error e => k (.error e)

/-- A loop as a program of its own. -/
def repeatUntil (body : τ → Prog Op ε (τ ⊕ β)) (t : τ) : Prog Op ε β := loop body t done

theorem bind_eq (p : Prog Op ε α) (f : α → Prog Op ε β) : p >>= f = p.andThen (onOk f) := rfl

theorem pure_eq (a : α) : (pure a : Prog Op ε α) = ret a := rfl

@[simp] theorem andThen_done (p : Prog Op ε α) : p.andThen done = p := by
  induction p with
  | ret a => rfl
  | raise e => rfl
  | call o k ih => simp only [andThen, ih]
  | loop body t k _ ih => simp only [andThen, ih]

theorem andThen_assoc (p : Prog Op ε α) (k : Except ε α → Prog Op ε β)
    (j : Except ε β → Prog Op ε γ) :
    (p.andThen k).andThen j = p.andThen fun r => (k r).andThen j := by
  induction p with
  | ret a => rfl
  | raise e => rfl
  | call o k' ih => simp only [andThen, ih]
  | loop body t k' _ ih => simp only [andThen, ih]

theorem attempt_bind (p : Prog Op ε α) (f : Except ε α → Prog Op ε β) :
    p.attempt >>= f = p.andThen f := by
  rw [bind_eq, attempt, andThen_assoc]
  rfl

theorem done_andThen (r : Except ε α) (k : Except ε α → Prog Op ε β) :
    (done r : Prog Op ε α).andThen k = k r := by
  cases r <;> rfl

end Prog

/-- How one operation may change the state and what it may answer. -/
structure Machine (Op : Type → Type) (ε : Type) (σ : Type u) where
  step : {α : Type} → Op α → σ → Except ε α → σ → Prop

namespace Machine

variable {Op : Type → Type} {ε : Type} {σ : Type u}

/-- The machine in which every operation has its one regular effect. -/
def ofExec (exec : {α : Type} → Op α → σ → Except ε α × σ) : Machine Op ε σ where
  step o s r s' := exec o s = (r, s')

/-- Operations may also fail without any effect, with the exception of their kind. -/
def withFaults (M : Machine Op ε σ) (fault : {α : Type} → Op α → Option ε) :
    Machine Op ε σ where
  step o s r s' := M.step o s r s' ∨ ∃ e, fault o = some e ∧ r = .error e ∧ s' = s

/-- Only the steps that satisfy `cond` in the state before them. -/
def guard (M : Machine Op ε σ) (cond : {α : Type} → Op α → σ → Prop) : Machine Op ε σ where
  step o s r s' := cond o s ∧ M.step o s r s'

end Machine

namespace Prog

variable {Op : Type → Type} {ε α β : Type} {σ : Type u}

/-- One step of a program: an operation, or entering one more round of a loop. -/
inductive Step (M : Machine Op ε σ) : Prog Op ε α × σ → Prog Op ε α × σ → Prop
  | call {β : Type} {o : Op β} {k : Except ε β → Prog Op ε α} {s r s'} (h : M.step o s r s') :
      Step M (call o k, s) (k r, s')
  | loop {β τ : Type} {body : τ → Prog Op ε (τ ⊕ β)} {t k s} :
      Step M (loop body t k, s) ((body t).andThen (again body k), s)

/-- A program has got from one configuration to another. -/
def Runs (M : Machine Op ε σ) : Prog Op ε α × σ → Prog Op ε α × σ → Prop :=
  Relation.ReflTransGen (Step M)

/-- Follow the effects that `exec` chooses, for at most `n` steps and for as
long as it chooses one. -/
def follow (exec : {γ : Type} → Op γ → σ → Option (Except ε γ × σ)) :
    Nat → Prog Op ε α × σ → Prog Op ε α × σ
  | 0, c => c
  | _ + 1, (ret a, s) => (ret a, s)
  | _ + 1, (raise e, s) => (raise e, s)
  | n + 1, (call o k, s) =>
    match exec o s with
    | none => (call o k, s)
    | some (r, s') => follow exec n (k r, s')
  | n + 1, (loop body t k, s) => follow exec n ((body t).andThen (again body k), s)

theorem follow_runs {M : Machine Op ε σ}
    {exec : {γ : Type} → Op γ → σ → Option (Except ε γ × σ)}
    (h : ∀ {γ : Type} (o : Op γ) s r s', exec o s = some (r, s') → M.step o s r s')
    (n : Nat) (c : Prog Op ε α × σ) : Runs M c (follow exec n c) := by
  induction n generalizing c with
  | zero => exact .refl
  | succ n ih =>
    obtain ⟨p, s⟩ := c
    cases p with
    | ret a => exact .refl
    | raise e => exact .refl
    | call o k =>
      unfold follow
      split
      · exact .refl
      · rename_i r s' he
        exact .head (.call (h o s r s' he)) (ih _)
    | loop body t k => exact .head .loop (ih _)

/-- The outcome of a program that has nothing left to do. -/
def outcome? : Prog Op ε α → Option (Except ε α)
  | ret a => some (.ok a)
  | raise e => some (.error e)
  | call _ _ => none
  | loop _ _ _ => none

theorem eq_done_of_outcome {p : Prog Op ε α} {r : Except ε α} (h : p.outcome? = some r) :
    p = done r := by
  cases p with
  | ret a =>
    obtain rfl := Option.some.inj h
    rfl
  | raise e =>
    obtain rfl := Option.some.inj h
    rfl
  | call o k => cases h
  | loop body t k => cases h

/-- A program followed to its outcome. -/
theorem follow_outcome {M : Machine Op ε σ}
    {exec : {γ : Type} → Op γ → σ → Option (Except ε γ × σ)}
    (h : ∀ {γ : Type} (o : Op γ) s r s', exec o s = some (r, s') → M.step o s r s')
    {n : Nat} {c : Prog Op ε α × σ} {r : Except ε α} (hr : (follow exec n c).1.outcome? = some r) :
    Runs M c (done r, (follow exec n c).2) := by
  rw [← eq_done_of_outcome hr]
  exact follow_runs h n c

/-- A program that has not ended is followed one step further. -/
theorem follow_step {M : Machine Op ε σ}
    {exec : {γ : Type} → Op γ → σ → Option (Except ε γ × σ)}
    (h : ∀ {γ : Type} (o : Op γ) s r s', exec o s = some (r, s') → M.step o s r s')
    (hsome : ∀ {γ : Type} (o : Op γ) s, (exec o s).isSome = true) {n : Nat} {c : Prog Op ε α × σ}
    (hn : (follow exec n c).1.outcome? = none) : Step M (follow exec n c) (follow exec (n + 1) c) := by
  induction n generalizing c with
  | zero =>
    obtain ⟨p, s⟩ := c
    cases p with
    | ret a => cases hn
    | raise e => cases hn
    | call o k =>
      obtain ⟨⟨r, s'⟩, he⟩ := Option.isSome_iff_exists.mp (hsome o s)
      simp only [follow, he]
      exact .call (h o s r s' he)
    | loop body t k => exact .loop
  | succ n ih =>
    obtain ⟨p, s⟩ := c
    cases p with
    | ret a => cases hn
    | raise e => cases hn
    | call o k =>
      obtain ⟨⟨r, s'⟩, he⟩ := Option.isSome_iff_exists.mp (hsome o s)
      have hcall : ∀ m, follow exec (m + 1) (call o k, s) = follow exec m (k r, s') := by
        intro m
        simp only [follow, he]
      rw [hcall] at hn ⊢
      rw [hcall]
      exact ih hn
    | loop body t k => exact ih (c := ((body t).andThen (again body k), s)) hn

theorem Step.mono {M N : Machine Op ε σ}
    (h : ∀ {β : Type} (o : Op β) s r s', M.step o s r s' → N.step o s r s')
    {c d : Prog Op ε α × σ} (hs : Step M c d) : Step N c d := by
  cases hs with
  | call hm => exact .call (h _ _ _ _ hm)
  | loop => exact .loop

theorem Runs.mono {M N : Machine Op ε σ}
    (h : ∀ {β : Type} (o : Op β) s r s', M.step o s r s' → N.step o s r s')
    {c d : Prog Op ε α × σ} (hs : Runs M c d) : Runs N c d :=
  Relation.ReflTransGen.mono (fun _ _ => Step.mono h) _ _ hs

end Prog

end Lrcp.Framework
