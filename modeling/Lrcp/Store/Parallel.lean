import Lrcp.Framework.Pool
import Lrcp.Store.Alongside

namespace Lrcp.Store

open Lrcp.Wal Lrcp.Otlp Lrcp.Framework

/-- The manifest keeps its files, a file that it names is not written again, and what is
visible or has been written to a segment stays. -/
structure Advances (w w' : World) : Prop where
  named : ∀ f ∈ w.control.parquetFiles, f ∈ w'.control.parquetFiles
  settled : ∀ f ∈ w.control.parquetFiles,
    w'.parquetDir.lookup f = w.parquetDir.lookup f ∨ w'.parquetDir.lookup f = none
  visible : w.visible.Subperm w'.visible
  written : ∀ f, w.written f <+: w'.written f

/-- What the backend does to the segments: it deletes some that are not the last one. -/
structure Trims (w w' : World) : Prop where
  written : ∀ f, w'.written f = w.written f
  segments : ∀ f ∈ w'.walDir, f ∈ w.walDir
  deleted : ∀ f ∈ w.walDir, f ∉ w'.walDir → w.Sealed f
  unlinked : ∀ f ∈ w'.history.unlinked, f ∈ w.history.unlinked ∨ f ∈ w.walDir

/-- What the gateway does, as far as the backend can tell: a segment that is not sealed gets whole
records, or a new one is there. -/
def Extended (w w' : World) : Prop :=
  ∃ f bytes, Extends w f bytes ∧ w' = { w with walDir := w.walDir.insert f bytes }

/-- What is asserted of the call inside the lock survives what the others do. When the call
stops in a state that `Stop` admits, it holds of the next one. -/
structure Durable (Stop : World → Prop) (K : World → Progress → Prop) : Prop where
  quiet : ∀ {w w' p}, K w p → Quiet w w' → K w' p
  relocked : ∀ {w w' p}, K w p → Relocked w w' → K w' p
  gateway : ∀ {w w' p}, K w p → Extended w w' → K w' p
  drop : ∀ {w p}, K w p → Stop w → K w {}

/-- What holds at every moment, whoever holds the lock. -/
structure Intact (libs : Libs) (K : World → Progress → Prop) (w : World) : Prop where
  fresh : Fresh libs w
  serial : ∀ c, w.exclusive = some c → c.serial < w.connections
  kept : ∃ p, K w p
  free : w.exclusive = none → K w {}

/-- What a thread may do: it respects the lock of the others, and takes none in their name. -/
structure Yields (libs : Libs) (K : World → Progress → Prop) (t : Thread) (w w' : World) : Prop where
  intact : Intact libs K w'
  connections : w.connections ≤ w'.connections
  held : ∀ c, c.owner ≠ t → w.exclusive = some c →
    w'.exclusive = some c ∧ Frame w w' ∧ ∀ p, K w p → K w' p
  taken : ∀ c, c.owner ≠ t → w'.exclusive = some c → w.exclusive = some c
  advances : Advances w w'
  trims : Trims w w'

/-- What a thread has to put up with: as long as it holds the lock, only the frame changes. -/
structure Undisturbed (libs : Libs) (K : World → Progress → Prop) (t : Thread) (w w' : World) : Prop where
  intact : Intact libs K w → Intact libs K w'
  connections : w.connections ≤ w'.connections
  held : ∀ c, c.owner = t → w.exclusive = some c →
    w'.exclusive = some c ∧ Frame w w' ∧ ∀ p, K w p → K w' p
  taken : ∀ c, c.owner = t → w'.exclusive = some c → w.exclusive = some c
  advances : Advances w w'

/-- The lock is given back in a state that `Stop` admits. -/
def Op.releases (Stop : World → Prop) : {α : Type} → Op α → World → Prop
  | _, .rollback c, w => w.exclusive = some c → Stop w
  | _, _, _ => True

section Parallel

variable {libs : Libs} {settings : Settings} {Stop : World → Prop} {K : World → Progress → Prop}
  {Bad : String → WalCorruptionError → Bytes → Prop} {t u : Thread} {c : Conn} {w w' w'' : World}
  {p : Progress} {α : Type}

theorem Trims.of_same (hdir : w'.walDir = w.walDir)
    (hunlinked : w'.history.unlinked = w.history.unlinked) : Trims w w' where
  written f := by
    rw [World.written, hdir, hunlinked, World.written]
  segments f hf := hdir ▸ hf
  deleted f hf hdel := absurd (hdir ▸ hf) hdel
  unlinked f hf := .inl (hunlinked ▸ hf)

theorem Trims.refl (w : World) : Trims w w := .of_same rfl rfl

theorem Quiet.trims (h : Quiet w w') : Trims w w' := .of_same h.walDir h.unlinked

theorem Relocked.trims (h : Relocked w w') : Trims w w' := by
  obtain ⟨e, n, l, renamed, rfl⟩ := h
  exact .of_same rfl rfl

theorem trims_unlinkWal {f : String} (hf : w.Sealed f) :
    Trims w (w.exec libs settings (.unlinkWal f)).2 := by
  have hwritten : ∀ g, (w.exec libs settings (.unlinkWal f)).2.written g = w.written g :=
    fun _ => written_unlinkWal
  obtain ⟨bytes, hl⟩ := Option.isSome_iff_exists.mp (AList.lookup_isSome.mpr hf.1)
  simp only [World.exec, hl] at hwritten ⊢
  refine ⟨hwritten, fun g hg => (AList.mem_erase.mp hg).2, fun g hg hdel => ?_, fun g hg => ?_⟩
  · by_cases hgf : g = f
    · rw [hgf]
      exact hf
    · exact absurd (AList.mem_erase.mpr ⟨hgf, hg⟩) hdel
  · rcases (AList.mem_insert _).mp hg with rfl | hg
    · exact .inr hf.1
    · exact .inl hg

theorem Quiet.advances (h : Quiet w w') : Advances w w' where
  named f hf := by
    rw [h.files]
    exact hf
  settled := h.known
  visible := by
    rw [h.visible]
  written f := by
    rw [h.written]

theorem Advances.refl (w : World) : Advances w w := (Quiet.refl w).advances

/-- The files are the same, up to the manifest. -/
theorem Advances.of_same (hfiles : ∀ f ∈ w.control.parquetFiles, f ∈ w'.control.parquetFiles)
    (hdir : w'.parquetDir = w.parquetDir) (hvisible : w.visible.Subperm w'.visible)
    (hwritten : ∀ f, w.written f <+: w'.written f) : Advances w w' where
  named := hfiles
  settled f _ := by
    rw [hdir]
    exact .inl rfl
  visible := hvisible
  written := hwritten

theorem Advances.trans (h : Advances w w') (h' : Advances w' w'') : Advances w w'' where
  named f hf := h'.named f (h.named f hf)
  settled f hf := by
    rcases h'.settled f (h.named f hf) with heq | hnone
    · rw [heq]
      exact h.settled f hf
    · exact .inr hnone
  visible := h.visible.trans h'.visible
  written f := (h.written f).trans (h'.written f)

theorem Relocked.advances (h : Relocked w w') : Advances w w' := by
  obtain ⟨e, n, l, renamed, rfl⟩ := h
  exact .of_same (fun _ hf => hf) rfl (.refl _) fun _ => List.prefix_rfl

theorem Extended.advances (h : Extended w w') : Advances w w' := by
  obtain ⟨f, bytes, hf, rfl⟩ := h
  exact .of_same (fun _ hf => hf) rfl (.refl _) hf.written_prefix

theorem Undisturbed.refl (libs : Libs) (K : World → Progress → Prop) (t : Thread) (w : World) :
    Undisturbed libs K t w w :=
  ⟨id, Nat.le_refl _, fun _ _ hc => ⟨hc, .refl w, fun _ hK => hK⟩, fun _ _ hc => hc, .refl w⟩

theorem Undisturbed.trans (h : Undisturbed libs K t w w') (h' : Undisturbed libs K t w' w'') :
    Undisturbed libs K t w w'' where
  intact hw := h'.intact (h.intact hw)
  connections := h.connections.trans h'.connections
  held c hc hex := by
    obtain ⟨hex', hframe, hK⟩ := h.held c hc hex
    obtain ⟨hex'', hframe', hK'⟩ := h'.held c hc hex'
    exact ⟨hex'', hframe.trans hframe', fun p hp => hK' p (hK p hp)⟩
  taken c hc hex := h.taken c hc (h'.taken c hc hex)
  advances := h.advances.trans h'.advances

/-- What one thread may do, every other one can live with. -/
theorem Yields.undisturbed (h : Yields libs K t w w') (hu : u ≠ t) : Undisturbed libs K u w w' where
  intact _ := h.intact
  connections := h.connections
  held c hc hex := h.held c (fun hct => hu (hc.symm.trans hct)) hex
  taken c hc hex := h.taken c (fun hct => hu (hc.symm.trans hct)) hex
  advances := h.advances

theorem Intact.frame (h : Intact libs K w) (hex : w'.exclusive = w.exclusive) (hframe : Frame w w')
    (hK : ∀ p, K w p → K w' p) : Intact libs K w' where
  fresh := hframe.fresh h.fresh
  serial c hc := (h.serial c (hex ▸ hc)).trans_le hframe.connections
  kept := h.kept.imp hK
  free hnone := hK {} (h.free (hex ▸ hnone))

/-- The gateway disturbs nobody. -/
theorem Extended.undisturbed (h : Extended w w') (D : Durable Stop K) :
    Undisturbed libs K t w w' := by
  have hkeep : ∀ p, K w p → K w' p := fun p hp => D.gateway hp h
  have hadvances := h.advances
  obtain ⟨f, bytes, hf, rfl⟩ := h
  exact ⟨fun hw => hw.frame rfl hf.frame hkeep, hf.frame.connections,
    fun c hc hex => ⟨hex, hf.frame, hkeep⟩, fun c hc hex => hex, hadvances⟩

/-- What only changes the frame disturbs nobody. -/
theorem Intact.yields (h : Intact libs K w) (D : Durable Stop K) (hq : Quiet w w') (hframe : Frame w w') :
    Yields libs K t w w' where
  intact := h.frame hq.exclusive hframe fun _ hp => D.quiet hp hq
  connections := hframe.connections
  held _ _ hc := ⟨hq.exclusive.trans hc, hframe, fun _ hp => D.quiet hp hq⟩
  taken _ _ hc := hq.exclusive ▸ hc
  advances := hq.advances
  trims := hq.trims

theorem Intact.housekeeping (h : Intact libs K w) (D : Durable Stop K) (hk : Housekeeping w w') :
    Yields libs K t w w' := h.yields D hk.quiet hk.frame

theorem Inside.intact (hin : Inside libs c w) (hK : K w p) : Intact libs K w := by
  refine ⟨hin.fresh, fun c' hc' => ?_, ⟨p, hK⟩, fun hnone => ?_⟩
  · obtain rfl := Option.some.inj (hin.held.symm.trans hc')
    exact hin.serial
  · rw [hin.held] at hnone
    cases hnone

/-- What the holder of the lock does. -/
theorem Inside.yields (hin : Inside libs c w) (hin' : Inside libs c w') (hc : c.owner = t)
    (hK : K w' p) (hconnections : w.connections ≤ w'.connections) (hadvances : Advances w w')
    (htrims : Trims w w') : Yields libs K t w w' := by
  refine ⟨hin'.intact hK, hconnections, fun c' hne hc' => ?_, fun c' hne hc' => ?_, hadvances, htrims⟩
  · obtain rfl := Option.some.inj (hin.held.symm.trans hc')
    exact absurd hc hne
  · obtain rfl := Option.some.inj (hin'.held.symm.trans hc')
    exact absurd hc hne

/-- Under the lock the store advances, and only segments that are not the last one are deleted. -/
theorem Discipline.advancing {Allowed : Guard}
    (D : Discipline libs settings Allowed c Eq (fun _ _ => True) K Bad) :
    Discipline libs settings Allowed c Eq
      (fun w w' => w.connections ≤ w'.connections ∧ Advances w w' ∧ Trims w w') K Bad where
  lasting := D.lasting
  rely := D.rely
  stable := D.stable
  neutral w w' p hin hin' hI hq :=
    ⟨⟨hq.connections, hq.advances, hq.trims⟩, (D.neutral w w' p hin hin' hI hq).2⟩
  read := D.read
  flush w w' p name hin hin' hI hne hfits hdrawn hname hl hallowed hw' := by
    refine ⟨?_, (D.flush w w' p name hin hin' hI hne hfits hdrawn hname hl hallowed hw').2⟩
    subst hw'
    refine ⟨Nat.le_refl _, .of_same (fun f hf => ?_) rfl ?_ fun _ => List.prefix_rfl, .of_same rfl rfl⟩
    · exact (AList.mem_insert _).mpr (.inr hf)
    · exact (List.sublist_append_left _ _).subperm.trans (visible_commitBatch hname hl _ _ _).symm.subperm
  mark w w' p f hin hin' hI hsealed hpos hw' := by
    refine ⟨?_, (D.mark w w' p f hin hin' hI hsealed hpos hw').2⟩
    subst hw'
    exact ⟨Nat.le_refl _, .of_same (fun _ hf => hf) rfl (.refl _) fun _ => List.prefix_rfl, .of_same rfl rfl⟩
  badHeader := D.badHeader
  badPayload := D.badPayload
  quarantine w w' p f e size hin hin' hI hnil hf hbad hsource hoffset hw' := by
    refine ⟨?_, (D.quarantine w w' p f e size hin hin' hI hnil hf hbad hsource hoffset hw').2⟩
    subst hw'
    exact ⟨Nat.le_refl _, .of_same (fun _ hf => hf) rfl (.refl _) fun _ => List.prefix_rfl, .of_same rfl rfl⟩
  compact w w' p name merged files hin hin' hI hnodup hmerged hfiles hfooter hne hdrawn hname hl hallowed
      hw' := by
    refine ⟨?_, (D.compact w w' p name merged files hin hin' hI hnodup hmerged hfiles hfooter hne hdrawn
      hname hl hallowed hw').2⟩
    subst hw'
    have hnamed : ∀ f ∈ w.control.parquetFiles, f ∈ (w.exec libs settings
        (.commitCompaction name (files.flatMap ParquetFile.rows).length merged)).2.control.parquetFiles :=
      fun f hf => (mem_commitCompaction hname _).mpr (.inr hf)
    have hvisible : w.visible.Subperm (w.exec libs settings
        (.commitCompaction name (files.flatMap ParquetFile.rows).length merged)).2.visible :=
      (visible_commitCompaction hname hnodup hmerged hfiles hl _).symm.subperm
    simp only [World.exec, if_neg hname] at hnamed hvisible ⊢
    exact ⟨Nat.le_refl _, .of_same hnamed rfl hvisible fun _ => List.prefix_rfl, .of_same rfl rfl⟩
  delete w w' p f hin hin' hI hnil hsealed hmark hw' := by
    refine ⟨?_, (D.delete w w' p f hin hin' hI hnil hsealed hmark hw').2⟩
    subst hw'
    have htrims : Trims w (w.exec libs settings (.unlinkWal f)).2 := trims_unlinkWal hsealed
    have hwritten : ∀ g, w.written g <+: (w.exec libs settings (.unlinkWal f)).2.written g := by
      intro g
      rw [htrims.written]
    obtain ⟨bytes, hl⟩ := Option.isSome_iff_exists.mp (AList.lookup_isSome.mpr hsealed.1)
    simp only [World.exec, hl] at htrims hwritten ⊢
    exact ⟨Nat.le_refl _, .of_same (fun _ hf => hf) rfl (.refl _) hwritten, htrims⟩

/-- What a call that is alone keeps is kept beside the others. -/
theorem Discipline.parallel {Allowed : Guard} (hc : c.owner = t)
    (D : Discipline libs settings Allowed c Eq (fun _ _ => True) K Bad) :
    Discipline libs settings Allowed c (Undisturbed libs K t) (Yields libs K t) K Bad := by
  apply D.advancing.conseq
  · exact fun _ _ h => h
  · intro w w' hheld hR
    obtain ⟨hex, hframe, -⟩ := hR.held c hc hheld
    exact ⟨hex, hframe⟩
  · intro w w' p hin hI hR
    exact (hR.held c hc hin.held).2.2 p hI
  · intro w w' p' hin hin' hI' hG
    exact hin.yields hin' hc hI' hG.1 hG.2.1 hG.2.2

/-- A call remembers what has been there since it took the lock. -/
theorem Discipline.since {Allowed : Guard} (w₀ : World)
    (D : Discipline libs settings Allowed c (Undisturbed libs K t) (Yields libs K t) K Bad) :
    Discipline libs settings Allowed c (Undisturbed libs K t) (Yields libs K t)
      (fun w p => K w p ∧ Advances w₀ w) Bad where
  lasting := D.lasting
  rely := D.rely
  stable w w' p hin hI hR := ⟨D.stable w w' p hin hI.1 hR, hI.2.trans hR.advances⟩
  neutral w w' p hin hin' hI hq := by
    obtain ⟨hG, hK⟩ := D.neutral w w' p hin hin' hI.1 hq
    exact ⟨hG, hK, hI.2.trans hG.advances⟩
  read w p f r rs hin hI hf hturn hlt hstart hrec hrows := by
    obtain ⟨w₁, hI₁, hall⟩ := hturn
    exact ⟨D.read w p f r rs hin hI.1 hf ⟨w₁, hI₁.1, hall⟩ hlt hstart hrec hrows, hI.2⟩
  flush w w' p name hin hin' hI hne hfits hdrawn hname hl hallowed hw' := by
    obtain ⟨hG, hK⟩ := D.flush w w' p name hin hin' hI.1 hne hfits hdrawn hname hl hallowed hw'
    exact ⟨hG, hK, hI.2.trans hG.advances⟩
  mark w w' p f hin hin' hI hsealed hpos hw' := by
    obtain ⟨hG, hK⟩ := D.mark w w' p f hin hin' hI.1 hsealed hpos hw'
    exact ⟨hG, hK, hI.2.trans hG.advances⟩
  badHeader w p f e hin hI := D.badHeader w p f e hin hI.1
  badPayload w p f length expectedCrc e hin hI := D.badPayload w p f length expectedCrc e hin hI.1
  quarantine w w' p f e size hin hin' hI hnil hf hbad hsource hoffset hw' := by
    obtain ⟨hG, hK⟩ := D.quarantine w w' p f e size hin hin' hI.1 hnil hf hbad hsource hoffset hw'
    exact ⟨hG, hK, hI.2.trans hG.advances⟩
  compact w w' p name merged files hin hin' hI hnodup hmerged hfiles hfooter hne hdrawn hname hl hallowed
      hw' := by
    obtain ⟨hG, hK⟩ := D.compact w w' p name merged files hin hin' hI.1 hnodup hmerged hfiles hfooter hne
      hdrawn hname hl hallowed hw'
    exact ⟨hG, hK, hI.2.trans hG.advances⟩
  delete w w' p f hin hin' hI hnil hsealed hmark hw' := by
    obtain ⟨hG, hK⟩ := D.delete w w' p f hin hin' hI.1 hnil hsealed hmark hw'
    exact ⟨hG, hK, hI.2.trans hG.advances⟩

/-- The lock is given back. -/
theorem Inside.release (hin : Inside libs c w) (D : Durable Stop K) (hc : c.owner = t) (hK : K w p)
    (hstop : Stop w) : Yields libs K t w (w.release c) := by
  have hnone : (w.release c).exclusive = none := by simp [World.release, hin.held]
  have hr := relocked_release w c
  have hkept : K (w.release c) {} := D.relocked (D.drop hK hstop) hr
  refine ⟨⟨hr.fresh hin.fresh, fun c' hc' => ?_, ⟨_, hkept⟩, fun _ => hkept⟩, ?_, fun c' hne hc' => ?_,
    fun c' _ hc' => ?_, hr.advances, hr.trims⟩
  · rw [hnone] at hc'
    cases hc'
  · unfold World.release
    split_ifs <;> exact Nat.le_refl _
  · obtain rfl := Option.some.inj (hin.held.symm.trans hc')
    exact absurd hc hne
  · rw [hnone] at hc'
    cases hc'

section Lock

variable {F : World → Prop} {E : α → World → Prop}

theorem parallel_outside (D : Durable Stop K) (hF : ∀ w w', F w → Advances w w' → F w') :
    Outside t (Undisturbed libs K t) (Yields libs K t) (fun w => Intact libs K w ∧ F w) where
  stable w w' hw hR := ⟨hR.intact hw.1, hF w w' hw.2 hR.advances⟩
  connections _ _ _ hR := hR.connections
  exclusive _ _ c _ hR hc hex := hR.taken c hc hex
  serial _ c hw hc := hw.1.serial c hc
  housekeeping w w' hw h :=
    ⟨hw.1.housekeeping D h, (hw.1.housekeeping (t := t) D h).intact, hF w w' hw.2 h.quiet.advances⟩

theorem parallel_leaves (D : Durable Stop K) (hE : ∀ a w w', E a w → Advances w w' → E a w') :
    Leaves (Op.releases Stop) t (Undisturbed libs K t) (Yields libs K t)
      (fun w => Intact libs K w ∧ F w)
      (fun c r w => Inside libs c w ∧ (∃ p, K w p) ∧ ∀ a, r = .ok a → E a w)
      (fun r w => Intact libs K w ∧ ∀ a, r = .ok a → E a w) where
  held c r hc w w' hw hR := by
    obtain ⟨hin, ⟨p, hK⟩, hok⟩ := hw
    obtain ⟨hex, hframe, hkeep⟩ := hR.held c hc hin.held
    exact ⟨hin.frame hex hframe, ⟨p, hkeep p hK⟩, fun a ha => hE a w w' (hok a ha) hR.advances⟩
  exclusive _ _ _ hw := hw.1.held
  leave c r w hc hw hallowed := by
    obtain ⟨hin, ⟨p, hK⟩, hok⟩ := hw
    have hrelease : Yields libs K t w (w.release c) := hin.release D hc hK (hallowed hin.held)
    exact ⟨hrelease, hrelease.intact, fun a ha => hE a w _ (hok a ha) hrelease.advances⟩
  stable r w w' hw hR := ⟨hR.intact hw.1, fun a ha => hE a w w' (hw.2 a ha) hR.advances⟩
  others _ _ _ c _ hR hc hex := hR.taken c hc hex
  housekeeping r w w' hw h :=
    ⟨hw.1.housekeeping D h, (hw.1.housekeeping (t := t) D h).intact,
      fun a ha => hE a w w' (hw.2 a ha) h.quiet.advances⟩
  fail e w hw := ⟨hw.1, fun a h => by cases h⟩
  raised r e w hw := ⟨hw.1, fun a h => by cases h⟩

/-- A call beside any number of others, from the triple of its body. -/
theorem parallel_lock {body : Call α} (D : Durable Stop K) (hF : ∀ w w', F w → Advances w w' → F w')
    (hE : ∀ a w w', E a w → Advances w w' → E a w')
    (hbody : ∀ c, c.owner = t → Triple (guarded libs settings (Op.releases Stop)) (Undisturbed libs K t)
      (Yields libs K t) (At libs c K {} F) body
      fun r w => Inside libs c w ∧ (∃ p, K w p) ∧ ∀ a, r = .ok a → E a w) :
    Triple (guarded libs settings (Op.releases Stop)) (Undisturbed libs K t) (Yields libs K t)
      (fun w => Intact libs K w ∧ F w) (storageLifecycleLock t body)
      fun r w => Intact libs K w ∧ ∀ a, r = .ok a → E a w := by
  apply (parallel_outside D hF).lock_triple (parallel_leaves D hE) ?_ hbody
  intro c w hc hw hserial hnone
  have hr := relocked_enter w c
  have hin : Inside libs c { w with exclusive := some c } := ⟨rfl, hserial, hr.fresh hw.1.fresh⟩
  have hkept := D.relocked (hw.1.free hnone) hr
  refine ⟨⟨hin.intact hkept, Nat.le_refl _, fun c' _ hc' => ?_, fun c' hne hc' => ?_, hr.advances,
    hr.trims⟩, hin, hkept, hF w _ hw.2 hr.advances⟩
  · rw [hnone] at hc'
    cases hc'
  · obtain rfl := Option.some.inj hc'
    exact absurd hc hne

end Lock

/-- Every call, beside any number of others. -/
theorem IsCall.parallel {p : Call α} (hp : IsCall libs t settings p) (hlibs : FreshNames libs)
    (D : Durable Stop K) (hK : ∀ c, c.owner = t →
      Discipline libs settings (Op.releases Stop) c Eq (fun _ _ => True) K Bad) :
    Triple (guarded libs settings (Op.releases Stop)) (Undisturbed libs K t) (Yields libs K t)
      (Intact libs K) p fun _ => Intact libs K := by
  obtain ⟨body, rfl, hbody⟩ := hp.body hlibs
  have hlock := @parallel_lock libs settings Stop K t α (fun _ => True) (fun _ _ => True) body D
    (fun _ _ _ _ => trivial) (fun _ _ _ _ _ => trivial) fun c hc =>
      (hbody c hc ((hK c hc).parallel hc)).post fun r w hw => by
        obtain ⟨p, hin, hI, -⟩ := hw
        exact ⟨hin, ⟨p, hI⟩, fun _ _ => trivial⟩
  exact hlock.conseq (fun w hw => ⟨hw, trivial⟩) fun r w hw => hw.1

/-- A killed thread gives back its own lock only. -/
theorem Intact.crash (h : Intact libs K w) (D : Durable Stop K) (t : Thread)
    (hstop : ∀ c, w.exclusive = some c → c.owner = t → Stop w) : Yields libs K t w (w.crash t) := by
  obtain ⟨w', hw', hcrash⟩ := w.crash_cases t
  have hhousekeeping : Housekeeping w' (w.crash t) := by
    rcases hcrash with ⟨heq, -⟩ | ⟨depth, -, heq⟩
    · rw [heq]
      exact .refl w'
    · rw [heq]
      exact .setRlock ..
  rcases hw' with ⟨rfl, -⟩ | ⟨c, hex, hc, rfl⟩
  · exact h.housekeeping D hhousekeeping
  · have hin : Inside libs c w := ⟨hex, h.serial c hex, h.fresh⟩
    obtain ⟨p, hK⟩ := h.kept
    have hrelease : Yields libs K t w (w.release c) := hin.release D hc hK (hstop c hex hc)
    have hrest : Yields libs K t (w.release c) (w.crash t) := hrelease.intact.housekeeping D hhousekeeping
    have hnone : (w.crash t).exclusive = none := by
      rw [hhousekeeping.quiet.exclusive]
      simp [World.release, hex]
    refine ⟨hrest.intact, hrelease.connections.trans hrest.connections, fun c' hne hc' => ?_,
      fun c' _ hc' => ?_, hrelease.advances.trans hrest.advances,
      ((relocked_release w c).trans hhousekeeping.relocked).trims⟩
    · obtain rfl := Option.some.inj (hex.symm.trans hc')
      exact absurd hc hne
    · rw [hnone] at hc'
      cases hc'

end Parallel

end Lrcp.Store
