import Lrcp.Store.Sequential

namespace Lrcp.Store

open Lrcp.Wal Lrcp.Otlp Lrcp.Framework

/-- The file that an operation of a Parquet writer is about. -/
def Op.writer : {α : Type} → Op α → Option String
  | _, .openWriter path => some path
  | _, .writeBatch path _ => some path
  | _, .closeWriter path => some path
  | _, _ => none

def Op.isCloseWriter : {α : Type} → Op α → Bool
  | _, .closeWriter _ => true
  | _, _ => false

/-- The exception with which an operation raises, with those that the code swallows. -/
def Op.raises : {α : Type} → Op α → Option PyError
  | _, .rollback _ => some (.operationalError "disk I/O error")
  | _, .close _ => some (.operationalError "disk I/O error")
  | _, .closeWriter _ => some (.osError "[Errno 28] No space left on device")
  | _, o => o.fault

/-- What an operation that raises leaves behind: a writer leaves a file without footer. -/
def Remains {α : Type} (w : World) (o : Op α) (w' : World) : Prop :=
  w' = w ∨ ∃ path rows, o.writer = some path ∧
    w' = { w with parquetDir := w.parquetDir.insert path ⟨rows, false⟩ }

/-- A world in which one operation at most raises, and the one that has. -/
structure Trial where
  world : World
  raised : Option ((α : Type) × Op α)

/-- Closing the writer of a Parquet file has raised. -/
def Trial.closeRaised (s : Trial) : Prop := s.raised.any fun o => o.2.isCloseWriter

/-- Every operation has its regular effect, but one may raise. -/
def trial (libs : Libs) (settings : Settings) : Machine Op PyError Trial where
  step o s r s' := (∃ w', World.exec libs settings o s.world = (r, w') ∧ s' = ⟨w', s.raised⟩) ∨
    ∃ e w', s.raised = none ∧ o.raises = some e ∧ Remains s.world o w' ∧ r = .error e ∧
      s' = ⟨w', some ⟨_, o⟩⟩

section Trial

variable {libs : Libs} {settings : Settings} {α : Type}

/-- A run in which nothing raises. -/
theorem regular_trial {p q : Call α} {w w' : World}
    (h : Prog.Runs (regular libs settings) (p, w) (q, w')) :
    Prog.Runs (trial libs settings) (p, ⟨w, none⟩) (q, ⟨w', none⟩) := by
  have key : ∀ c d : Call α × World, Prog.Runs (regular libs settings) c d →
      Prog.Runs (trial libs settings) (c.1, ⟨c.2, none⟩) (d.1, ⟨d.2, none⟩) := by
    intro c d h
    induction h with
    | refl => exact .refl
    | tail _ hstep ih =>
      refine .tail ih ?_
      cases hstep with
      | call hm => exact .call (.inl ⟨_, hm, rfl⟩)
      | loop => exact .loop
  exact key _ _ h

/-- One operation of a program that runs alone. -/
theorem trial_perform {o : Op α} {S P : Trial → Prop} {Q : Except PyError α → Trial → Prop}
    (hok : ∀ s r w', P s → World.exec libs settings o s.world = (r, w') →
      S ⟨w', s.raised⟩ ∧ Q r ⟨w', s.raised⟩)
    (hraise : ∀ s e w', P s → s.raised = none → o.raises = some e → Remains s.world o w' →
      S ⟨w', some ⟨_, o⟩⟩ ∧ Q (.error e) ⟨w', some ⟨_, o⟩⟩) :
    Triple (trial libs settings) Eq (fun _ s' => S s') P (Prog.perform o) Q := by
  apply Triple.perform stable_eq
  intro s r s' hs hstep
  rcases hstep with ⟨w', hexec, rfl⟩ | ⟨e, w', hnone, he, hw', rfl, rfl⟩
  · exact hok s r w' hs hexec
  · exact hraise s e w' hs hnone he hw'

/-- What holds as long as nothing has raised. -/
def Unraised (F : World → Prop) (s : Trial) : Prop := s.raised = none → F s.world

/-- One operation, as long as nothing has raised. -/
theorem unraised_perform {o : Op α} {F : World → Prop} {K : Except PyError α → World → Prop}
    (h : ∀ w r w', F w → World.exec libs settings o w = (r, w') → K r w') :
    Triple (trial libs settings) Eq (fun _ _ => True) (Unraised F) (Prog.perform o)
      fun r => Unraised (K r) := by
  apply trial_perform (S := fun _ => True)
  · exact fun s r w' hs hexec => ⟨trivial, fun hnone => h s.world r w' (hs hnone) hexec⟩
  · exact fun s e w' _ _ _ _ => ⟨trivial, fun h => by cases h⟩

end Trial

/-- The step of an operation on the locks, which may raise. -/
structure Locking (s s' : Trial) : Prop where
  world : Relocked s.world s'.world
  raised : s'.raised = s.raised ∨ (s.raised = none ∧ ¬s'.closeRaised)

/-- An operation that changes nothing but the locks. -/
structure OnLocks (libs : Libs) (settings : Settings) {β : Type} (o : Op β) : Prop where
  relocked : ∀ w r w', World.exec libs settings o w = (r, w') → Relocked w w'
  writer : o.writer = none

section OnLocks

variable {libs : Libs} {settings : Settings} {t : Thread} {c : Conn}

theorem relocked_refl (w : World) : Relocked w w := (Housekeeping.refl w).relocked

theorem Remains.eq {α : Type} {o : Op α} {w w' : World} (h : Remains w o w') (ho : o.writer = none) :
    w' = w := by
  rcases h with rfl | ⟨path, rows, hpath, -⟩
  · rfl
  · rw [ho] at hpath
    cases hpath

theorem not_closeRaised {α : Type} {o : Op α} (h : o.isCloseWriter = false) (w : World) :
    ¬Trial.closeRaised ⟨w, some ⟨α, o⟩⟩ := by
  simp [Trial.closeRaised, h]

theorem OnLocks.isCloseWriter {α : Type} {o : Op α} (h : OnLocks libs settings o) :
    o.isCloseWriter = false := by
  have hwriter := h.writer
  cases o <;> simp [Op.writer, Op.isCloseWriter] at hwriter ⊢

theorem onLocks_lockAcquire : OnLocks libs settings (.lockAcquire t) where
  relocked _ _ _ h := (Housekeeping.lockAcquire h).1.relocked
  writer := rfl

theorem onLocks_lockRelease : OnLocks libs settings (.lockRelease t) where
  relocked _ _ _ h := (Housekeeping.lockRelease h).relocked
  writer := rfl

theorem onLocks_mkdirData : OnLocks libs settings .mkdirData where
  relocked w _ _ h := by
    obtain ⟨-, rfl⟩ := Prod.mk.inj h
    exact relocked_refl w
  writer := rfl

theorem onLocks_connect : OnLocks libs settings (.connect t) where
  relocked w _ _ h := by
    obtain ⟨-, rfl⟩ := Prod.mk.inj h
    exact (Housekeeping.connect w).relocked
  writer := rfl

theorem onLocks_busyTimeout : OnLocks libs settings (.busyTimeout c) where
  relocked w _ _ h := by
    obtain ⟨-, rfl⟩ := Prod.mk.inj h
    exact relocked_refl w
  writer := rfl

theorem onLocks_createLockTable : OnLocks libs settings (.createLockTable c) where
  relocked w _ _ h := by
    simp only [World.exec] at h
    split_ifs at h <;> obtain ⟨-, rfl⟩ := Prod.mk.inj h <;> exact relocked_refl w
  writer := rfl

theorem onLocks_beginExclusive : OnLocks libs settings (.beginExclusive c) where
  relocked w _ _ h := by
    simp only [World.exec] at h
    split_ifs at h <;> obtain ⟨-, rfl⟩ := Prod.mk.inj h
    · exact relocked_refl w
    · exact relocked_enter w c
  writer := rfl

theorem onLocks_rollback : OnLocks libs settings (.rollback c) where
  relocked w _ _ h := by
    simp only [World.exec] at h
    split_ifs at h <;> obtain ⟨-, rfl⟩ := Prod.mk.inj h
    · exact relocked_release w c
    · exact relocked_refl w
  writer := rfl

theorem onLocks_close : OnLocks libs settings (.close c) where
  relocked w _ _ h := by
    obtain ⟨-, rfl⟩ := Prod.mk.inj h
    exact relocked_release w c
  writer := rfl

end OnLocks

/-- What holds before the lifecycle lock is taken and what after it, with respect
to the operations on the locks. -/
structure Unaffected {α : Type} (S P : Trial → Prop) (Q : Except PyError α → Trial → Prop) : Prop where
  before : ∀ s w', P s → Relocked s.world w' → P ⟨w', s.raised⟩
  fail : ∀ s s' e, P s → Locking s s' → Q (.error e) s'
  after : ∀ r s s', Q r s → Locking s s' → Q r s'
  replaced : ∀ r e s, Q r s → Q (.error e) s
  inside : ∀ s, P s → S s
  outside : ∀ r s, Q r s → S s

namespace Unaffected

variable {libs : Libs} {settings : Settings} {t : Thread} {α β : Type} {S P : Trial → Prop}
  {Q : Except PyError α → Trial → Prop} {o : Op β} {body : Call α}

theorem before_triple (L : Unaffected S P Q) (ho : OnLocks libs settings o) :
    Triple (trial libs settings) Eq (fun _ s' => S s') P (Prog.perform o)
      fun r s => match r with
        | .ok _ => P s
        | .error e => Q (.error e) s := by
  apply trial_perform
  · intro s r w' hs hexec
    have hw' := ho.relocked s.world r w' hexec
    have hP := L.before s w' hs hw'
    refine ⟨L.inside _ hP, ?_⟩
    cases r with
    | ok b => exact hP
    | error e => exact L.fail s _ e hs ⟨hw', .inl rfl⟩
  · intro s e w' hs hnone _ hw'
    obtain rfl := hw'.eq ho.writer
    have hQ := L.fail s ⟨s.world, some ⟨_, o⟩⟩ e hs
      ⟨relocked_refl s.world, .inr ⟨hnone, not_closeRaised ho.isCloseWriter s.world⟩⟩
    exact ⟨L.outside _ _ hQ, hQ⟩

theorem after_triple (L : Unaffected S P Q) (r : Except PyError α) (ho : OnLocks libs settings o) :
    Triple (trial libs settings) Eq (fun _ s' => S s') (Q r) (Prog.perform o) fun _ => Q r := by
  apply trial_perform
  · intro s r' w' hs hexec
    have hQ := L.after r s ⟨w', s.raised⟩ hs ⟨ho.relocked s.world r' w' hexec, .inl rfl⟩
    exact ⟨L.outside _ _ hQ, hQ⟩
  · intro s e w' hs hnone _ hw'
    obtain rfl := hw'.eq ho.writer
    have hQ := L.after r s ⟨s.world, some ⟨_, o⟩⟩ hs
      ⟨relocked_refl s.world, .inr ⟨hnone, not_closeRaised ho.isCloseWriter s.world⟩⟩
    exact ⟨L.outside _ _ hQ, hQ⟩

/-- The rule for `storage_lifecycle_lock` around a body that runs alone. -/
theorem lock_triple (L : Unaffected S P Q)
    (hbody : Triple (trial libs settings) Eq (fun _ s' => S s') P body Q) :
    Triple (trial libs settings) Eq (fun _ s' => S s') P (storageLifecycleLock t body) Q := by
  have hfail : ∀ e s, P s → Q (.error e) s := by
    intro e s hs
    exact L.fail s s e hs ⟨relocked_refl s.world, .inl rfl⟩
  unfold storageLifecycleLock
  apply Triple.bind (L.before_triple onLocks_lockAcquire)
  swap
  · exact fun e s hs => hs
  intro acquired
  apply Triple.cond
  · exact fun _ => Triple.raise (hfail _)
  intro _
  apply Triple.bind (L.before_triple onLocks_mkdirData)
  swap
  · exact fun e s hs => hs
  intro _
  apply Triple.finallyDo (J := Q) (F := fun r _ => Q r)
  · apply Triple.bind (L.before_triple onLocks_connect)
    swap
    · exact fun e s hs => hs
    intro c
    apply Triple.finallyDo (J := Q) (F := fun r _ => Q r)
    · apply Triple.bind (L.before_triple onLocks_busyTimeout)
      swap
      · exact fun e s hs => hs
      intro _
      apply Triple.bind (L.before_triple onLocks_createLockTable)
      swap
      · exact fun e s hs => hs
      intro _
      apply Triple.bind (L.before_triple onLocks_beginExclusive)
      swap
      · exact fun e s hs => hs
      intro _
      exact hbody
    · intro r
      apply Triple.bind (J := fun _ => Q r)
      · exact Triple.suppress (L.after_triple r onLocks_rollback) fun _ _ hs => hs
      · exact fun _ => Triple.suppress (L.after_triple r onLocks_close) fun _ _ hs => hs
      · exact fun e s hs => hs
    · exact fun r _ s hs => hs
    · exact fun r e s hs => L.replaced r e s hs
  · exact fun r => L.after_triple r onLocks_lockRelease
  · exact fun r _ s hs => hs
  · exact fun r e s hs => L.replaced r e s hs

/-- A call that runs alone, as long as nothing has raised. -/
theorem unraised {F : World → Prop} {K : Except PyError α → World → Prop}
    (hF : ∀ w w', Relocked w w' → F w → F w') (hK : ∀ r w w', Relocked w w' → K r w → K r w')
    (herror : ∀ e w, K (.error e) w) :
    Unaffected (fun _ => True) (Unraised F) fun r => Unraised (K r) where
  before s w' hs hr hnone := hF s.world w' hr (hs hnone)
  fail _ s' e _ _ _ := herror e s'.world
  after r s s' hs hl hnone := by
    refine hK r s.world s'.world hl.world (hs ?_)
    rcases hl.raised with h | h
    · rw [← h]
      exact hnone
    · exact h.1
  replaced _ e s _ _ := herror e s.world
  inside _ _ := trivial
  outside _ _ _ := trivial

end Unaffected

end Lrcp.Store
