import Lrcp.Store.SegmentRules

namespace Lrcp.Store

open Lrcp.Wal Lrcp.Otlp Lrcp.Framework

/-- The watermarks have been loaded when the call had made no progress. -/
def Loaded.Current (I : World → Progress → Prop) (loaded : Loaded) : Prop :=
  ∃ w₀, I w₀ {} ∧ ∀ g, w₀.maxOffset g = loaded.startOffset g

/-- The batch is not full. -/
def Progress.Room (settings : Settings) (p : Progress) : Prop :=
  p.batch.rows.length < settings.materializeBatchSize

/-- What is known about an exception in the `try` of `materialize`: it is not
handled there, or the reader has raised it at `q`, or it comes from a batch that
cannot be flushed. -/
def Explained (Bad : String → WalCorruptionError → Bytes → Prop) (f : String) (q : Nat)
    (p : Progress) (e : PyError) (w : World) : Prop :=
  e.isValueError = false ∨
    (∃ error, e = .walCorruption error ∧ Bad f error (w.content f) ∧ error.sourceFile = f ∧
      error.offset = q) ∨
    ¬∀ row ∈ p.batch.rows, row.fitsSchema = true

/-- How the loop over the records is left, and how the `try` is left when `tried`
says so: with the segment read as far as it was long, or with an explained exception. -/
def Left (libs : Libs) (c : Conn) (I : World → Progress → Prop)
    (Bad : String → WalCorruptionError → Bytes → Prop) (loaded : Loaded) (n₀ : String → Nat)
    (rest behind : List String) (f : String) (tried : Prop) :
    Progress × Except PyError Unit → World → Prop
  | (p, .ok ()), w => ∃ q, n₀ f ≤ q ∧ At libs c I p (fun w => Reading loaded n₀ rest behind f q p w ∧
      (tried → f ≠ loaded.activeWalFilename → Consumed (n₀ f) w f)) w
  | (p, .error e), w => ∃ q, At libs c I p (fun w => Reading loaded n₀ rest behind f q p w ∧
      Explained Bad f q p e w) w

theorem explained_of_flush {Bad : String → WalCorruptionError → Bytes → Prop} {f : String} {q : Nat}
    {p : Progress} {e : PyError}
    (h : e.isValueError = true → ¬∀ row ∈ p.batch.rows, row.fitsSchema = true) (w : World) :
    Explained Bad f q p e w := by
  cases he : e.isValueError with
  | false => exact .inl he
  | true => exact .inr (.inr (h he))

theorem Explained.grow {Bad : String → WalCorruptionError → Bytes → Prop} {f : String} {q : Nat}
    {p : Progress} {e : PyError} {w w' : World}
    (hlasting : ∀ f e data data', Bad f e data → data <+: data' → Bad f e data')
    (h : Explained Bad f q p e w) (hf : w.content f <+: w'.content f) : Explained Bad f q p e w' := by
  rcases h with h | ⟨error, he, hbad, hrest⟩ | h
  · exact .inl h
  · exact .inr (.inl ⟨error, he, hlasting f error _ _ hbad hf, hrest⟩)
  · exact .inr (.inr h)

theorem Reading.toTurn {I : World → Progress → Prop} {loaded : Loaded} {n₀ : String → Nat}
    {rest behind : List String} {f : String} {q : Nat} {p : Progress} {w : World}
    (hloaded : loaded.Current I) (h : Reading loaded n₀ rest behind f q p w) : Turn I w p f := by
  obtain ⟨w₀, hI, hstart⟩ := hloaded
  refine ⟨w₀, hI, fun g => ?_⟩
  rw [hstart]
  exact h.turn g

theorem mapError_eq_ok {ε ε' α : Type} {x : Except ε α} {g : ε → ε'} {a : α} :
    x.mapError g = .ok a ↔ x = .ok a := by
  cases x <;> simp [Except.mapError]

theorem mapError_eq_error {ε ε' α : Type} {x : Except ε α} {g : ε → ε'} {e' : ε'} :
    x.mapError g = .error e' ↔ ∃ e, x = .error e ∧ g e = e' := by
  cases x <;> simp [Except.mapError]

namespace Discipline

variable {libs : Libs} {settings : Settings} {Allowed : Guard} {c : Conn}
  {R G : World → World → Prop} {I : World → Progress → Prop}
  {Bad : String → WalCorruptionError → Bytes → Prop} {loaded : Loaded} {n₀ : String → Nat}
  {rest behind : List String} {f : String} {p : Progress}

theorem fault_not_valueError {α : Type} {o : Op α} {e : PyError} (h : o.fault = some e) :
    e.isValueError = false := by
  cases o <;> simp only [Op.fault, Option.some.injEq, reduceCtorEq] at h <;> subst h <;> rfl

theorem readHeader_triple (D : Discipline libs settings Allowed c R G I Bad) (q : Nat) :
    Triple (guarded libs settings Allowed) R G
      (At libs c I p (Reading loaded n₀ rest behind f q p)) (Prog.perform (.readHeader f q))
      fun r => At libs c I p fun w => Reading loaded n₀ rest behind f q p w ∧ match r with
        | .ok header => (header = [] → n₀ f ≤ q) ∧ (header ≠ [] →
            (∀ e, checkHeader f q header settings.maxWalRecordBytes = .error e →
              Bad f e (w.content f)) ∧
            ((w.content f).drop q).take headerSize = header)
        | .error e => e.isValueError = false := by
  apply D.perform Reading.frameStable
  · intro w r w' hw hallowed hexec
    obtain ⟨rfl, rfl⟩ := Prod.mk.inj hexec
    obtain ⟨hin, hI, hread⟩ := hw
    refine ⟨D.guarantee_refl hin hI, hin, hI, hread, fun hnil => ?_, fun hne => ⟨fun e he => ?_, rfl⟩⟩
    · have hend : w.content f = [] ∨ (w.content f).length ≤ q := by
        have hdrop : (w.content f).drop q = [] := by simpa [headerSize] using hnil
        exact .inr (List.drop_eq_nil_iff.mp hdrop)
      rcases hend with h | h
      · have := hread.length
        rw [h] at this
        exact this.trans (Nat.zero_le _)
      · exact hread.length.trans h
    · have hpos := hread.position
      subst hpos
      exact D.badHeader w p f e hin hI hread.present hallowed hne he
  · intro w e hw he
    exact ⟨hw.1, hw.2.1, hw.2.2, fault_not_valueError he⟩

theorem readPayload_triple (D : Discipline libs settings Allowed c R G I Bad) {q length crc : Nat}
    {header : Bytes} (hcheck : checkHeader f q header settings.maxWalRecordBytes = .ok (length, crc)) :
    Triple (guarded libs settings Allowed) R G
      (At libs c I p fun w => Reading loaded n₀ rest behind f q p w ∧
        ((w.content f).drop q).take headerSize = header)
      (Prog.perform (.readPayload f (q + headerSize) length))
      fun r => At libs c I p fun w => Reading loaded n₀ rest behind f q p w ∧ match r with
        | .ok payload => (∀ e, checkPayload f q length crc payload = .error e → Bad f e (w.content f)) ∧
            (checkPayload f q length crc payload = .ok () →
              IsRecord settings.maxWalRecordBytes (w.content f) ⟨q, q + headerSize + length, payload⟩)
        | .error e => e.isValueError = false := by
  apply D.perform
  · intro w w' h hw
    refine ⟨Reading.frameStable w w' h hw.1, ?_⟩
    have h8 := (checkHeader_ok.mp hcheck).1
    rw [take_drop_eq_of_grown (h.segment f hw.1.present).2 (by rw [hw.2]; exact h8)]
    exact hw.2
  · intro w r w' hw hallowed hexec
    obtain ⟨rfl, rfl⟩ := Prod.mk.inj hexec
    obtain ⟨hin, hI, hread, rfl⟩ := hw
    have hpos := hread.position
    subst hpos
    refine ⟨D.guarantee_refl hin hI, hin, hI, hread, fun e he => ?_, fun hpay => ?_⟩
    · exact D.badPayload w p f length crc e hin hI hread.present hallowed hcheck he
    · exact isRecord_of_checks hcheck hpay
  · intro w e hw he
    exact ⟨hw.1, hw.2.1, hw.2.2.1, fault_not_valueError he⟩

/-- One round of the generator yields the record at `q`, the end, or an explained exception. -/
theorem readRecord_triple (D : Discipline libs settings Allowed c R G I Bad) (q : Nat) :
    Triple (guarded libs settings Allowed) R G
      (At libs c I p (Reading loaded n₀ rest behind f q p)) (readRecord settings f q)
      fun r => At libs c I p fun w => Reading loaded n₀ rest behind f q p w ∧ match r with
        | .ok none => n₀ f ≤ q
        | .ok (some r) => r.start = q ∧ IsRecord settings.maxWalRecordBytes (w.content f) r
        | .error e => Explained Bad f q p e w := by
  unfold readRecord
  apply Triple.bind (D.readHeader_triple q)
  swap
  · exact fun e w hw => ⟨hw.1, hw.2.1, hw.2.2.1, .inl hw.2.2.2⟩
  intro header
  apply Triple.cond
  · intro hnil
    exact Triple.ret fun w hw => ⟨hw.1, hw.2.1, hw.2.2.1, hw.2.2.2.1 hnil⟩
  intro hne
  apply Triple.doneThen
  swap
  · intro e he w hw
    obtain ⟨error, hcheck, rfl⟩ := mapError_eq_error.mp he
    obtain ⟨hfile, hoffset⟩ := checkHeader_error hcheck
    exact ⟨hw.1, hw.2.1, hw.2.2.1,
      .inr (.inl ⟨error, rfl, (hw.2.2.2.2 hne).1 error hcheck, hfile, hoffset⟩)⟩
  intro lc hlc
  obtain ⟨length, crc⟩ := lc
  have hcheck := mapError_eq_ok.mp hlc
  apply Triple.bind ((D.readPayload_triple hcheck).pre
    fun w hw => ⟨hw.1, hw.2.1, hw.2.2.1, (hw.2.2.2.2 hne).2⟩)
  swap
  · exact fun e w hw => ⟨hw.1, hw.2.1, hw.2.2.1, .inl hw.2.2.2⟩
  intro payload
  apply Triple.doneThen
  · intro u hu
    have hpay := mapError_eq_ok.mp hu
    exact Triple.ret fun w hw => ⟨hw.1, hw.2.1, hw.2.2.1, rfl, hw.2.2.2.2 hpay⟩
  · intro e he w hw
    obtain ⟨error, hpay, rfl⟩ := mapError_eq_error.mp he
    obtain ⟨hfile, hoffset⟩ := checkPayload_error hpay
    exact ⟨hw.1, hw.2.1, hw.2.2.1,
      .inr (.inl ⟨error, rfl, hw.2.2.2.1 error hpay, hfile, hoffset⟩)⟩

theorem rows_error_not_valueError {M : Nat} {data : Bytes} {r : WalRecord} {e : PyError}
    (hi : IsRecord M data r) (h : rows libs r.payload f r.start = .error e) :
    e.isValueError = false := by
  unfold rows at h
  split at h
  · obtain rfl := Except.error.inj h
    rfl
  · rw [if_neg] at h
    · cases h
    · exact fun h0 => hi.nonempty (List.length_eq_zero_iff.mp h0)

/-- One round of the loop: the reading goes on behind one more record, or it is
left at the end of the segment or with an explained exception. -/
theorem recordRound_triple (D : Discipline libs settings Allowed c R G I Bad) (hlibs : FreshNames libs)
    (hsize : 0 < settings.materializeBatchSize) (hloaded : loaded.Current I) (s : Progress × Nat) :
    Triple (guarded libs settings Allowed) R G
      (fun w => s.1.Room settings ∧ At libs c I s.1 (Reading loaded n₀ rest behind f s.2 s.1) w)
      (recordRound libs settings f s)
      fun r w => match r with
        | .ok (.inl s') => s'.1.Room settings ∧
            At libs c I s'.1 (Reading loaded n₀ rest behind f s'.2 s'.1) w
        | .ok (.inr left) => (left.2 = .ok () → left.1.Room settings) ∧
            Left libs c I Bad loaded n₀ rest behind f False left w
        | .error _ => False := by
  obtain ⟨p, q⟩ := s
  apply Triple.assume
  intro hroom
  unfold recordRound
  apply Triple.tryThen (D.readRecord_triple q)
  intro result
  rcases result with e | _ | r
  · exact Triple.ret fun w hw => ⟨fun h => (by cases h), q, hw⟩
  · exact Triple.ret fun w hw => ⟨fun _ => hroom, q, hw.2.2.2, hw.1, hw.2.1, hw.2.2.1, False.elim⟩
  dsimp only
  cases hrows : rows libs r.payload f r.start with
  | error e =>
    apply Triple.ret
    intro w hw
    exact ⟨fun h => (by cases h), q, hw.1, hw.2.1, hw.2.2.1,
      .inl (rows_error_not_valueError hw.2.2.2.2 hrows)⟩
  | ok rs =>
    -- the record is in the batch from here on
    apply Triple.pre (H := At libs c I { p with batch := p.batch.add f r rs }
      (Reading loaded n₀ rest behind f r.stop { p with batch := p.batch.add f r rs }))
    · intro w hw
      obtain ⟨hin, hI, hread, hstart, hrec⟩ := hw
      have hpos : r.start = w.position p.batch f := hstart.trans hread.position.symm
      exact ⟨hin, D.read w p f r rs hin hI hread.present (hread.toTurn hloaded) hroom hpos hrec hrows,
        hread.add hstart hrec rs⟩
    apply Triple.cond
    · exact fun hroom' => Triple.ret fun w hw => ⟨hroom', hw⟩
    intro hfull
    have hne : (p.batch.add f r rs).rows ≠ [] := by
      intro hnil
      rw [hnil] at hfull
      exact hfull hsize
    apply Triple.tryThen (D.flush_triple hlibs
      (K := Reading loaded n₀ rest behind f r.stop ⟨{}, p.total + (p.batch.add f r rs).rows.length⟩)
      Reading.frameStable Reading.quietStable hne fun w name _ hread => hread.commitBatch name _ _ _)
    intro flushed
    cases flushed with
    | ok p' =>
      apply Triple.ret
      intro w hw
      obtain ⟨rfl, -, hw⟩ := hw
      exact ⟨hsize, hw⟩
    | error e =>
      apply Triple.ret
      intro w hw
      exact ⟨fun h => (by cases h), r.stop, hw.1.1, hw.1.2.1, hw.1.2.2, explained_of_flush hw.2 w⟩

/-- The size of a segment. -/
theorem statWal_triple (D : Discipline libs settings Allowed c R G I Bad) {F : World → Prop}
    (hF : FrameStable F) :
    Triple (guarded libs settings Allowed) R G (At libs c I p F) (Prog.perform (.statWal f))
      fun r => At libs c I p fun w => F w ∧ match r with
        | .ok size => size = (w.content f).length
        | .error e => e.isValueError = false := by
  apply D.ask (K := fun r w => F w ∧ match r with
        | .ok size => size = (w.content f).length
        | .error e => e.isValueError = false) hF
  · intro w
    simp only [World.exec]
    split <;> rfl
  · intro w hw _
    refine ⟨hw, ?_⟩
    cases hl : w.walDir.lookup f with
    | none => simp [World.exec, hl, fileNotFound, PyError.isValueError]
    | some bytes => simp [World.exec, hl, World.content]
  · intro w e hw he
    exact ⟨hw, fault_not_valueError he⟩

/-- A sealed segment that has been read to its end is marked. -/
theorem markFullyProcessed_triple (D : Discipline libs settings Allowed c R G I Bad) (q : Nat) :
    Triple (guarded libs settings Allowed) R G
      (At libs c I p (Reading loaded n₀ rest behind f q p))
      (markFullyProcessed loaded.activeWalFilename f (p.batch.offset f (loaded.startOffset f)))
      fun r => At libs c I p fun w => Reading loaded n₀ rest behind f q p w ∧
        (∀ e, r = .error e → e.isValueError = false) ∧
        (r = .ok () → n₀ f ≤ q → f ≠ loaded.activeWalFilename → Consumed (n₀ f) w f) := by
  unfold markFullyProcessed
  apply Triple.cond
  · exact fun hactive => Triple.ret fun w hw => ⟨hw.1, hw.2.1, hw.2.2, fun e h => (by cases h),
      fun _ _ hne => absurd hactive hne⟩
  intro hactive
  have hfrozen : ∀ size, FrameStable fun w => Reading loaded n₀ rest behind f q p w ∧
      size = (w.content f).length := by
    intro size w w' h hw
    exact ⟨Reading.frameStable w w' h hw.1, by rw [h.frozen f (hw.1.sealed hactive)]; exact hw.2⟩
  apply Triple.bind (D.statWal_triple Reading.frameStable)
  swap
  · exact fun e w hw => ⟨hw.1, hw.2.1, hw.2.2.1, fun e' h => (by cases h; exact hw.2.2.2),
      fun h => (by cases h)⟩
  intro size
  apply Triple.cond
  · intro hsize
    apply Triple.ret
    intro w hw
    obtain ⟨hin, hI, hread, hlen⟩ := hw
    refine ⟨hin, hI, hread, fun e h => (by cases h), fun _ hq _ => hread.unmarked hq ?_⟩
    rw [← hlen]
    exact hsize
  intro hsize
  apply Triple.bind (D.statWal_triple (hfrozen size))
  swap
  · exact fun e w hw => ⟨hw.1, hw.2.1, hw.2.2.1.1, fun e' h => (by cases h; exact hw.2.2.2),
      fun h => (by cases h)⟩
  intro size'
  apply (D.perform (o := .commitMark f size') (p := p) (F := fun w =>
    Reading loaded n₀ rest behind f q p w ∧ size' = (w.content f).length ∧
      q = (w.content f).length) ?_ ?_ ?_).pre
  · intro w hw
    obtain ⟨hin, hI, ⟨hread, hlen⟩, hlen'⟩ := hw
    exact ⟨hin, hI, hread, hlen', hread.at_end (by rw [← hlen]; exact (not_not.mp hsize).symm)⟩
  · intro w w' h hw
    rw [h.frozen f (hw.1.sealed hactive)]
    exact ⟨Reading.frameStable w w' h hw.1, hw.2⟩
  · intro w r w' hw _ hexec
    obtain ⟨hin, hI, hread, rfl, hq⟩ := hw
    have hw' : w' = (w.exec libs settings (.commitMark f (w.content f).length)).2 := by rw [hexec]
    have hin' : Inside libs c w' := by
      subst hw'
      exact ⟨hin.held, hin.serial, hin.fresh.of_eq (Nat.le_refl _) (fun _ h => h) rfl⟩
    obtain ⟨hG, hI'⟩ := D.mark w w' p f hin hin' hI (hread.sealed hactive)
      (hread.position.trans hq) hw'
    obtain ⟨rfl, -⟩ := Prod.mk.inj hexec
    refine ⟨hG, hin', hI', ?_, fun e h => (by cases h), fun _ _ _ _ => .inr (.inl ?_)⟩
    · rw [hw', ← hq]
      exact hread.commitMark
    · rw [hw', isFullyProcessed_commitMark]
      simp
  · intro w e hw he
    exact ⟨hw.1, hw.2.1, hw.2.2.1, fun e' h => (by cases h; exact fault_not_valueError he),
      fun h => (by cases h)⟩

/-- The body of the `try`: the reading ends behind the segment, or with an
explained exception. -/
theorem tryWalFile_triple (D : Discipline libs settings Allowed c R G I Bad) (hlibs : FreshNames libs)
    (hsize : 0 < settings.materializeBatchSize) (hloaded : loaded.Current I) (hroom : p.Room settings) :
    Triple (guarded libs settings Allowed) R G
      (At libs c I p (Reading loaded n₀ rest behind f (loaded.startOffset f) p))
      (tryWalFile libs settings loaded.activeWalFilename f (loaded.startOffset f) p)
      fun r w => match r with
        | .ok left => (left.2 = .ok () → left.1.Room settings) ∧
            Left libs c I Bad loaded n₀ rest behind f True left w
        | .error _ => False := by
  unfold tryWalFile
  apply Triple.tryThen (J := fun r => At libs c I p fun w =>
    Reading loaded n₀ rest behind f (loaded.startOffset f) p w ∧
      ∀ e, r = .error e → e.isValueError = false)
  · apply D.ask (o := .openWal f) (K := fun r w =>
      Reading loaded n₀ rest behind f (loaded.startOffset f) p w ∧
        ∀ e, r = .error e → e.isValueError = false) Reading.frameStable
    · intro w
      simp only [World.exec]
      split_ifs <;> rfl
    · intro w hw _
      refine ⟨hw, fun e h => ?_⟩
      simp only [World.exec, if_pos hw.present] at h
      cases h
    · intro w e hw he
      exact ⟨hw, fun e' h => by cases h; exact fault_not_valueError he⟩
  intro opened
  cases opened with
  | error e =>
    exact Triple.ret fun w hw =>
      ⟨fun h => (by cases h), _, hw.1, hw.2.1, hw.2.2.1, .inl (hw.2.2.2 e rfl)⟩
  | ok u =>
    apply Triple.bind (J := fun r w => match r with
        | .ok left => (left.2 = .ok () → left.1.Room settings) ∧
            Left libs c I Bad loaded n₀ rest behind f False left w
        | .error _ => False)
    · apply (Triple.repeatUntil (I := fun (s : Progress × Nat) w => s.1.Room settings ∧
        At libs c I s.1 (Reading loaded n₀ rest behind f s.2 s.1) w)
        (fun s => (D.recordRound_triple hlibs hsize hloaded s).post ?_)).pre
      · exact fun w hw => ⟨hroom, hw.1, hw.2.1, hw.2.2.1⟩
      · intro r w hr
        rcases r with e | (s' | ⟨p', result⟩)
        · exact hr
        · exact hr
        · exact hr
    swap
    · exact fun e w hw => hw
    intro left
    obtain ⟨p', result⟩ := left
    cases result with
    | error e => exact Triple.ret fun w hw => hw
    | ok u =>
      apply Triple.assume
      intro hroom'
      dsimp only [Left]
      apply Triple.exists_pre
      intro q
      apply Triple.assume
      intro hq
      apply Triple.tryThen ((D.markFullyProcessed_triple q).pre fun w hw => ⟨hw.1, hw.2.1, hw.2.2.1⟩)
      intro marked
      apply Triple.ret
      intro w hw
      obtain ⟨hin, hI, hread, herror, hconsumed⟩ := hw
      cases marked with
      | ok u => exact ⟨hroom', q, hq, hin, hI, hread, fun _ => hconsumed rfl hq⟩
      | error e => exact ⟨fun h => (by cases h), q, hin, hI, hread, .inl (herror e rfl)⟩

/-- The handler for `WalCorruptionError` and `ValueError`. It gets to the end only
with an error of the reader, since a batch that could not be flushed before
cannot be flushed now. -/
theorem quarantine_triple (D : Discipline libs settings Allowed c R G I Bad) (hlibs : FreshNames libs)
    {q fileSize startOffset : Nat} {error : PyError} (herror : error.isValueError = true) :
    Triple (guarded libs settings Allowed) R G
      (At libs c I p fun w => Reading loaded n₀ rest behind f q p w ∧ Explained Bad f q p error w)
      (Store.quarantine libs f fileSize startOffset p error)
      fun r w => match r with
        | .ok p' => p'.batch.rows = [] ∧ At libs c I p' (Walk loaded n₀ rest (f :: behind) p') w
        | .error _ => ∃ p', At libs c I p' (fun _ => True) w := by
  have hframe : ∀ p', FrameStable fun w => Reading loaded n₀ rest behind f q p' w ∧
      Explained Bad f q p error w := by
    intro p' w w' h hw
    exact ⟨Reading.frameStable w w' h hw.1, hw.2.grow D.lasting (h.segment f hw.1.present).2⟩
  have hquiet : QuietStable fun w => Reading loaded n₀ rest behind f q p w ∧
      Explained Bad f q p error w := by
    intro w w' h hw
    refine ⟨Reading.quietStable w w' h hw.1, hw.2.grow D.lasting ?_⟩
    rw [h.content]
  unfold Store.quarantine
  apply Triple.bind (J := fun r w => match r with
    | .ok p' => p'.batch.rows = [] ∧ (∀ row ∈ p.batch.rows, row.fitsSchema = true) ∧
        At libs c I p' (fun w => Reading loaded n₀ rest behind f q p' w ∧ Explained Bad f q p error w) w
    | .error _ => ∃ p', At libs c I p' (fun _ => True) w)
  · apply Triple.cond
    · intro hnil
      exact Triple.ret fun w hw => ⟨hnil, by rw [hnil]; exact fun _ h => (by cases h), hw⟩
    · intro hne
      apply (D.flush_triple hlibs (K := fun w => Reading loaded n₀ rest behind f q
          ⟨{}, p.total + p.batch.rows.length⟩ w ∧ Explained Bad f q p error w) (hframe p) hquiet hne
          fun w name _ hw => ⟨hw.1.commitBatch name _ _ _, hw.2⟩).post
      intro r w hw
      cases r with
      | ok p' =>
        obtain ⟨rfl, hfits, hw⟩ := hw
        exact ⟨rfl, hfits, hw⟩
      | error e => exact ⟨p, hw.1.1, hw.1.2.1, trivial⟩
  swap
  · exact fun e w hw => hw
  intro p'
  apply Triple.assume
  intro hnil
  apply Triple.assume
  intro hfits
  -- what is left is an error of the reader
  have hleft : ∀ w, Explained Bad f q p error w → ∃ e, error = .walCorruption e ∧
      Bad f e (w.content f) ∧ e.sourceFile = f ∧ e.offset = q := by
    intro w h
    rcases h with h | h | h
    · rw [h] at herror
      cases herror
    · exact h
    · exact absurd hfits h
  apply Triple.bind (J := fun r w => match r with
    | .ok _ => p'.batch.rows = [] ∧ At libs c I p' (Walk loaded n₀ rest (f :: behind) p') w
    | .error _ => ∃ p', At libs c I p' (fun _ => True) w)
  · apply D.perform (hframe p')
    · intro w r w' hw _ hexec
      obtain ⟨hin, hI, hread, hexplained⟩ := hw
      obtain ⟨e, rfl, hbad, hfile, hoffset⟩ := hleft w hexplained
      have hw' : w' = (w.exec libs settings
          (.commitQuarantine f e.offset e.message fileSize)).2 := (congrArg Prod.snd hexec).symm
      have hin' : Inside libs c w' := by
        subst hw'
        exact ⟨hin.held, hin.serial, hin.fresh.of_eq (Nat.le_refl _) (fun _ h => h) rfl⟩
      obtain ⟨hG, hI'⟩ := D.quarantine w w' p' f e fileSize hin hin' hI hnil hread.present hbad hfile
        (hoffset.trans hread.position.symm) hw'
      obtain ⟨rfl, -⟩ := Prod.mk.inj hexec
      exact ⟨hG, hnil, hin', hI', hw' ▸ hread.quarantine e.offset fileSize e.message⟩
    · exact fun w e hw _ => ⟨p', hw.1, hw.2.1, trivial⟩
  · exact fun _ => Triple.ret fun w hw => hw
  · exact fun e w hw => hw

/-- One segment: afterwards it is among those done with. -/
theorem materializeFile_triple (D : Discipline libs settings Allowed c R G I Bad)
    (hlibs : FreshNames libs) (hsize : 0 < settings.materializeBatchSize) (hloaded : loaded.Current I)
    (hroom : p.Room settings) :
    Triple (guarded libs settings Allowed) R G
      (At libs c I p (Walk loaded n₀ (f :: rest) behind p)) (materializeFile libs settings loaded p f)
      fun r w => match r with
        | .ok p' => p'.Room settings ∧ At libs c I p' (Walk loaded n₀ rest (f :: behind) p') w
        | .error _ => ∃ p', At libs c I p' (fun _ => True) w := by
  unfold materializeFile
  apply Triple.cond
  · exact fun hq => Triple.ret fun w hw => ⟨hroom, hw.1, hw.2.1, hw.2.2.skip hq⟩
  intro _
  apply Triple.bind ((D.statWal_triple Reading.frameStable).pre
    fun w hw => ⟨hw.1, hw.2.1, hw.2.2.begin⟩)
  swap
  · exact fun e w hw => ⟨p, hw.1, hw.2.1, trivial⟩
  intro fileSize
  -- a segment that is not longer than its watermark is done with
  have hskip : fileSize ≤ loaded.startOffset f →
      loaded.isFullyProcessed f = true ∨ 0 < fileSize →
      ∀ w, At libs c I p (fun w => Reading loaded n₀ rest behind f (loaded.startOffset f) p w ∧
        fileSize = (w.content f).length) w →
      p.Room settings ∧ At libs c I p (Walk loaded n₀ rest (f :: behind) p) w := by
    intro hle hdone w hw
    obtain ⟨hin, hI, hread, rfl⟩ := hw
    refine ⟨hroom, hin, hI, hread.finish (hread.length.trans hle) fun _ hlen => .inr ?_⟩
    have hstart := hread.start
    rcases hdone with hmark | hpos
    · exact .inl (hread.marked f hmark)
    · exact .inr ⟨by omega, by omega⟩
  apply Triple.cond
  · exact fun h => Triple.ret (hskip h.2 (.inl h.1))
  intro _
  apply Triple.cond
  · exact fun h => Triple.ret (hskip h.1 (.inr h.2))
  intro _
  apply Triple.bind ((D.tryWalFile_triple hlibs hsize hloaded hroom).pre
    fun w hw => ⟨hw.1, hw.2.1, hw.2.2.1⟩)
  swap
  · exact fun e w hw => hw.elim
  intro left
  obtain ⟨p', result⟩ := left
  cases result with
  | ok u =>
    apply Triple.ret
    intro w hw
    obtain ⟨hroom', q, hq, hin, hI, hread, hconsumed⟩ := hw
    exact ⟨hroom' rfl, hin, hI, hread.finish hq (hconsumed trivial)⟩
  | error e =>
    apply Triple.assume
    intro _
    dsimp only [Left]
    apply Triple.exists_pre
    intro q
    apply Triple.cond
    · intro he
      apply (D.quarantine_triple hlibs he).post
      intro r w hw
      cases r with
      | error e => exact hw
      | ok p'' =>
        obtain ⟨hnil, hw⟩ := hw
        refine ⟨?_, hw⟩
        rw [Progress.Room, hnil]
        exact hsize
    · exact fun _ => Triple.raise fun w hw => ⟨p', hw.1, hw.2.1, trivial⟩

/-- A missing table counts as empty, so the segments loaded are quarantined ones. -/
theorem loadQuarantined_triple (D : Discipline libs settings Allowed c R G I Bad)
    {F : World → Prop} (hF : FrameStable F) :
    Triple (guarded libs settings Allowed) R G (At libs c I p F) loadQuarantined
      fun r => At libs c I p fun w => F w ∧
        ∀ names, r = .ok names → ∀ f ∈ names, f ∈ w.quarantined := by
  unfold loadQuarantined
  apply Triple.tryThen (D.ask (o := .selectCorruptionEvents) (K := fun r w => F w ∧
    ∀ names, r = .ok names → ∀ f ∈ names, f ∈ w.quarantined) hF (fun _ => rfl)
    (fun w hw _ => ⟨hw, fun names h f hf => by obtain rfl := Except.ok.inj h; exact hf⟩)
    fun w e hw _ => ⟨hw, fun names h => by cases h⟩)
  intro result
  split
  · exact Triple.ret fun w hw => hw
  · exact Triple.ret fun w hw => ⟨hw.1, hw.2.1, hw.2.2.1,
      fun names h f hf => by obtain rfl := Except.ok.inj h; cases hf⟩
  · exact Triple.raise fun w hw => ⟨hw.1, hw.2.1, hw.2.2.1, fun names h => by cases h⟩

/-- The segments there are, and the length that each has now. -/
theorem globWal_triple (D : Discipline libs settings Allowed c R G I Bad) {F : World → Prop}
    (hF : FrameStable F) :
    Triple (guarded libs settings Allowed) R G (At libs c I p F) (Prog.perform .globWal)
      fun r => At libs c I p fun w => F w ∧ ∀ names, r = .ok names → names.Nodup ∧
        ∀ f, f ∈ names ↔ f ∈ w.walDir ∧ hasSuffix ".wal" f = true := by
  apply D.ask (o := .globWal) (K := fun r w => F w ∧ ∀ names : List String, r = .ok names →
    names.Nodup ∧ ∀ f, f ∈ names ↔ f ∈ w.walDir ∧ hasSuffix ".wal" f = true) hF fun _ => rfl
  · intro w hw _
    refine ⟨hw, fun names h => ?_⟩
    obtain rfl := Except.ok.inj h
    refine ⟨w.walDir.nodupKeys.filter _, fun f => ?_⟩
    rw [List.mem_filter]
    rfl
  · exact fun w e hw _ => ⟨hw, fun names h => by cases h⟩

variable {S : String → Prop}

variable (loaded n₀ S) in
/-- The loop over the segments and the last flush. -/
theorem walkSegments_triple (D : Discipline libs settings Allowed c R G I Bad)
    (hlibs : FreshNames libs) (hsize : 0 < settings.materializeBatchSize) (hloaded : loaded.Current I)
    {walFiles : List String} :
    Triple (guarded libs settings Allowed) R G (At libs c I {} (Walked loaded n₀ S walFiles {}))
      (do
        let p ← Prog.forEach (materializeFile libs settings loaded) walFiles {}
        let p ← (if p.batch.rows = [] then .ret p else p.flush libs)
        .ret (some p.total))
      fun r w => match r with
        | .ok total => ∃ p, p.batch.rows = [] ∧ total.getD 0 = p.total ∧
            At libs c I p (Walked loaded n₀ S [] p) w
        | .error _ => ∃ p, At libs c I p (fun _ => True) w := by
  apply Triple.bind (J := fun r w => match r with
    | .ok p => At libs c I p (Walked loaded n₀ S [] p) w
    | .error _ => ∃ p, At libs c I p (fun _ => True) w)
  · apply (Triple.forEach (I := fun rest p => fun w => p.Room settings ∧
      At libs c I p (Walked loaded n₀ S rest p) w) ?_ ?_).pre
    · exact fun w hw => ⟨hsize, hw⟩
    · intro f rest p
      apply Triple.assume
      intro hroom
      apply Triple.pre (H := fun w => ∃ behind,
        (∀ g, hasSuffix ".wal" g = true → S g → (g ∈ f :: rest ∨ g ∈ behind) ∧
          parseWalKey g ≤ parseWalKey loaded.activeWalFilename) ∧
        At libs c I p (Walk loaded n₀ (f :: rest) behind p) w)
      · intro w hw
        obtain ⟨hin, hI, behind, hwalk, hall⟩ := hw
        exact ⟨behind, hall, hin, hI, hwalk⟩
      apply Triple.exists_pre
      intro behind
      apply Triple.assume
      intro hall
      apply (D.materializeFile_triple hlibs hsize hloaded hroom).post
      intro r w hw
      cases r with
      | error e => exact hw
      | ok p' =>
        obtain ⟨hroom', hin, hI, hwalk⟩ := hw
        refine ⟨hroom', hin, hI, f :: behind, hwalk, fun g hg hS => ?_⟩
        obtain ⟨hmem, hle⟩ := hall g hg hS
        refine ⟨?_, hle⟩
        rcases hmem with h | h
        · rcases List.mem_cons.mp h with rfl | h
          · exact .inr List.mem_cons_self
          · exact .inl h
        · exact .inr (List.mem_cons_of_mem f h)
    · exact fun p w hw => hw.2
  swap
  · exact fun _ w hw => hw
  intro p
  apply Triple.bind (J := fun r w => match r with
    | .ok p => p.batch.rows = [] ∧ At libs c I p (Walked loaded n₀ S [] p) w
    | .error _ => ∃ p, At libs c I p (fun _ => True) w)
  · apply Triple.cond
    · exact fun hnil => Triple.ret fun w hw => ⟨hnil, hw⟩
    · intro hne
      apply (D.flush_triple hlibs (K := Walked loaded n₀ S [] ⟨{}, p.total + p.batch.rows.length⟩)
        Walked.frameStable Walked.quietStable hne fun w name _ hw => hw.commitBatch name _ _ _).post
      intro r w hw
      cases r with
      | error e => exact ⟨p, hw.1.1, hw.1.2.1, trivial⟩
      | ok p' =>
        obtain ⟨rfl, -, hw⟩ := hw
        exact ⟨rfl, hw⟩
  · exact fun p => Triple.ret fun w hw => ⟨p, hw.1, rfl, hw.2⟩
  · exact fun _ w hw => hw

/-- `materialize` under the lock: when it returns, nothing is left in the batch
and every segment is quarantined or has been read as far as it was long. -/
theorem materializeSegments_triple (D : Discipline libs settings Allowed c R G I Bad)
    (hlibs : FreshNames libs) (hsize : 0 < settings.materializeBatchSize) :
    Triple (guarded libs settings Allowed) R G (At libs c I {} (AtLeast n₀ S))
      (materializeSegments libs settings)
      fun r w => match r with
        | .ok total => ∃ p, p.batch.rows = [] ∧ total.getD 0 = p.total ∧
            At libs c I p (Caught S n₀ p) w
        | .error _ => ∃ p, At libs c I p (fun _ => True) w := by
  have hF : FrameStable (AtLeast n₀ S) := AtLeast.frameStable
  have hQ : QuietStable (AtLeast n₀ S) := by
    intro w w' h hw
    refine ⟨fun f => ?_, fun f hf => ?_⟩
    · rw [h.content]
      exact hw.1 f
    · rw [h.walDir]
      exact hw.2 f hf
  have herr : ∀ (H : World → Prop) (w : World), At libs c I {} H w →
      ∃ p, At libs c I p (fun _ => True) w := fun _ w hw => ⟨{}, hw.1, hw.2.1, trivial⟩
  unfold materializeSegments
  apply Triple.bind (D.pass (o := .mkdirParquet) hF fun _ => rfl)
  swap
  · exact fun _ => herr _
  intro _
  apply Triple.bind (D.pass (o := .mkdirWal) hF fun _ => rfl)
  swap
  · exact fun _ => herr _
  intro _
  apply Triple.bind (D.cleanupOrphaned_triple hF hQ)
  swap
  · exact fun _ => herr _
  intro _
  apply Triple.bind (D.ask (o := .selectOffsets) (K := fun r w => AtLeast n₀ S w ∧
    ∀ offsets, r = .ok offsets → w.control.materializedWalOffsets = offsets) hF (fun _ => rfl)
    (fun w hw _ => ⟨hw, fun offsets h => Except.ok.inj h⟩)
    fun w e hw _ => ⟨hw, fun offsets h => by cases h⟩)
  swap
  · exact fun _ => herr _
  intro offsets
  apply Triple.pre (H := fun w => Loaded.Current I ⟨offsets, [], ""⟩ ∧ At libs c I {} (fun w =>
    AtLeast n₀ S w ∧ w.control.materializedWalOffsets = offsets) w)
  · intro w hw
    have hoffsets := hw.2.2.2 offsets rfl
    refine ⟨⟨w, hw.2.1, fun g => ?_⟩, hw.1, hw.2.1, hw.2.2.1, hoffsets⟩
    rw [World.maxOffset, hoffsets, Loaded.startOffset]
  apply Triple.assume
  intro hloaded
  have hF' : FrameStable fun w => AtLeast n₀ S w ∧
      w.control.materializedWalOffsets = offsets := by
    intro w w' h hw
    exact ⟨hF w w' h hw.1, by rw [h.control]; exact hw.2⟩
  apply Triple.bind (D.loadQuarantined_triple hF')
  swap
  · exact fun _ => herr _
  intro quarantined
  have hF'' : FrameStable fun w => (AtLeast n₀ S w ∧
      w.control.materializedWalOffsets = offsets) ∧ ∀ f ∈ quarantined, f ∈ w.quarantined := by
    intro w w' h hw
    exact ⟨hF' w w' h hw.1, by rw [h.quarantined]; exact hw.2⟩
  apply Triple.bind ((D.globWal_triple hF'').pre
    fun w hw => ⟨hw.1, hw.2.1, hw.2.2.1, hw.2.2.2 quarantined rfl⟩)
  swap
  · exact fun _ => herr _
  intro names
  apply Triple.pre (H := fun w => names.Nodup ∧ At libs c I {} (fun w =>
    ((AtLeast n₀ S w ∧ w.control.materializedWalOffsets = offsets) ∧
      ∀ f ∈ quarantined, f ∈ w.quarantined) ∧
    ∀ f, f ∈ names ↔ f ∈ w.walDir ∧ hasSuffix ".wal" f = true) w)
  · exact fun w hw => ⟨(hw.2.2.2 names rfl).1, hw.1, hw.2.1, hw.2.2.1, (hw.2.2.2 names rfl).2⟩
  apply Triple.assume
  intro hnodup
  dsimp only
  cases hactive : (sortSegments names).getLast? with
  | none =>
    apply Triple.ret
    intro w hw
    obtain ⟨hin, hI, ⟨⟨⟨-, hS⟩, -⟩, -⟩, hnames⟩ := hw
    have hnone : ∀ f, hasSuffix ".wal" f = true → ¬S f := by
      intro f hf hSf
      have hsorted := mem_sortSegments.mpr ((hnames f).mpr ⟨hS f hSf, hf⟩)
      rw [List.getLast?_eq_none_iff.mp hactive] at hsorted
      cases hsorted
    exact ⟨{}, rfl, rfl, hin, hI, fun f hf hSf => absurd hSf (hnone f hf),
      fun f g hf hSf => absurd hSf (hnone f hf)⟩
  | some active =>
    apply (D.walkSegments_triple ⟨offsets, quarantined, active⟩ n₀ S hlibs hsize hloaded).conseq
    · intro w hw
      obtain ⟨hin, hI, ⟨⟨⟨hlen, hS⟩, hoffsets⟩, hquarantined⟩, hnames⟩ := hw
      exact ⟨hin, hI, .initial hlen hS hoffsets hquarantined hnodup hnames hactive⟩
    · intro r w hw
      cases r with
      | error e => exact hw
      | ok total =>
        obtain ⟨p, hnil, htotal, hin, hI, hwalked⟩ := hw
        exact ⟨p, hnil, htotal, hin, hI, hwalked.caught⟩

end Discipline

end Lrcp.Store
