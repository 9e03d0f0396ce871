import Lrcp.Framework.Triple
import Lrcp.Store.FileNames

namespace Lrcp.Store

open Lrcp.Wal Lrcp.Otlp Lrcp.Framework

/-- The names still to be drawn are in use nowhere, and the manifest names no
temporary file. -/
structure Fresh (libs : Libs) (w : World) : Prop where
  unused : ∀ n, w.stamps ≤ n → ∀ f ∈ generated libs n,
    f ∉ w.parquetDir ∧ f ∉ w.control.parquetFiles
  manifest : ∀ f ∈ w.control.parquetFiles, hasSuffix ".tmp" f = false

/-- A segment that is not the last one. -/
def World.Sealed (w : World) (f : String) : Prop :=
  f ∈ w.walDir ∧ ∃ g ∈ w.walDir, parseWalKey f < parseWalKey g

/-- Where the reading of a segment stands: behind the last record in the batch,
or else at the watermark. -/
def World.position (w : World) (b : Batch) (f : String) : Nat := b.offset f (w.maxOffset f)

/-- What everybody else may do while a call is inside the lifecycle lock: the
gateway appends to the last segment and opens new ones, and files that are
neither committed nor about to be may disappear. -/
structure Frame (w w' : World) : Prop where
  control : w'.control = w.control
  stamps : w'.stamps = w.stamps
  connections : w.connections ≤ w'.connections
  history : w'.history = w.history
  segment : ∀ f ∈ w.walDir, f ∈ w'.walDir ∧ w.content f <+: w'.content f
  frozen : ∀ f, w.Sealed f → w'.content f = w.content f
  parquet : ∀ f file, w'.parquetDir.lookup f = some file → w.parquetDir.lookup f = some file
  kept : ∀ f, w.isCommitted f = true ∨ f ∈ w.history.renamed →
    w'.parquetDir.lookup f = w.parquetDir.lookup f

/-- A change that leaves the segments, the watermarks, the manifest and the
files in it alone. -/
structure Quiet (w w' : World) : Prop where
  exclusive : w'.exclusive = w.exclusive
  walDir : w'.walDir = w.walDir
  unlinked : w'.history.unlinked = w.history.unlinked
  unflushed : w'.history.unflushed = w.history.unflushed
  offsets : w'.control.materializedWalOffsets = w.control.materializedWalOffsets
  records : w'.control.materializedWalRecords = w.control.materializedWalRecords
  files : w'.control.parquetFiles = w.control.parquetFiles
  events : w'.control.walCorruptionEvents = w.control.walCorruptionEvents
  stamps : w.stamps ≤ w'.stamps
  connections : w.connections ≤ w'.connections
  committed : ∀ f, w.isCommitted f = true → w'.parquetDir.lookup f = w.parquetDir.lookup f
  known : ∀ f ∈ w.control.parquetFiles,
    w'.parquetDir.lookup f = w.parquetDir.lookup f ∨ w'.parquetDir.lookup f = none

/-- The call with connection `c` is inside the lifecycle lock. -/
structure Inside (libs : Libs) (c : Conn) (w : World) : Prop where
  held : w.exclusive = some c
  serial : c.serial < w.connections
  fresh : Fresh libs w

/-- Which steps of the machine are considered. -/
abbrev Guard := {α : Type} → Op α → World → Prop

/-- The operations with their failures, restricted to the steps that `Allowed` admits. -/
def guarded (libs : Libs) (settings : Settings) (Allowed : Guard) : Machine Op PyError World :=
  (faulty libs settings).guard Allowed

/-- It is the turn of the segment `f`: only segments up to it have been read since
the call, which had made no progress then, loaded the watermarks. -/
def Turn (I : World → Progress → Prop) (w : World) (p : Progress) (f : String) : Prop :=
  ∃ w₀, I w₀ {} ∧ ∀ g, w.position p.batch g = w₀.maxOffset g ∨ parseWalKey g ≤ parseWalKey f

/-- What a family of assertions `I` about the world and the progress of a call
has to satisfy so that the calls under the lifecycle lock keep it. `R` is what
the others do, `G` what every step has to satisfy, and `Bad` what is known of the
bytes of a segment when the reader has raised an error about it. -/
structure Discipline (libs : Libs) (settings : Settings) (Allowed : Guard) (c : Conn)
    (R G : World → World → Prop) (I : World → Progress → Prop)
    (Bad : String → WalCorruptionError → Bytes → Prop) : Prop where
  lasting : ∀ f e data data', Bad f e data → data <+: data' → Bad f e data'
  rely : ∀ w w', w.exclusive = some c → R w w' → w'.exclusive = some c ∧ Frame w w'
  stable : ∀ w w' p, Inside libs c w → I w p → R w w' → I w' p
  neutral : ∀ w w' p, Inside libs c w → Inside libs c w' → I w p → Quiet w w' → G w w' ∧ I w' p
  read : ∀ w p f r rs, Inside libs c w → I w p → f ∈ w.walDir → Turn I w p f →
    p.batch.rows.length < settings.materializeBatchSize → r.start = w.position p.batch f →
    IsRecord settings.maxWalRecordBytes (w.content f) r → rows libs r.payload f r.start = .ok rs →
    I w { p with batch := p.batch.add f r rs }
  flush : ∀ w w' p name, Inside libs c w → Inside libs c w' → I w p → p.batch.rows ≠ [] →
    (∀ row ∈ p.batch.rows, row.fitsSchema = true) → (∃ n, name ∈ generated libs n) →
    name ∉ w.control.parquetFiles → w.parquetDir.lookup name = some ⟨p.batch.rows, true⟩ →
    Allowed (.commitBatch name p.batch.rows.length
      (p.batch.entries.map fun (f, off, _) => (f, off, "")) p.batch.offsets) w →
    w' = (w.exec libs settings (.commitBatch name p.batch.rows.length
      (p.batch.entries.map fun (f, off, _) => (f, off, "")) p.batch.offsets)).2 →
    G w w' ∧ I w' ⟨{}, p.total + p.batch.rows.length⟩
  mark : ∀ w w' p f, Inside libs c w → Inside libs c w' → I w p → w.Sealed f →
    w.position p.batch f = (w.content f).length →
    w' = (w.exec libs settings (.commitMark f (w.content f).length)).2 → G w w' ∧ I w' p
  badHeader : ∀ w p f e, Inside libs c w → I w p → f ∈ w.walDir →
    Allowed (.readHeader f (w.position p.batch f)) w →
    ((w.content f).drop (w.position p.batch f)).take headerSize ≠ [] →
    checkHeader f (w.position p.batch f) (((w.content f).drop (w.position p.batch f)).take headerSize)
      settings.maxWalRecordBytes = .error e → Bad f e (w.content f)
  badPayload : ∀ w p f length expectedCrc e, Inside libs c w → I w p → f ∈ w.walDir →
    Allowed (.readPayload f (w.position p.batch f + headerSize) length) w →
    checkHeader f (w.position p.batch f) (((w.content f).drop (w.position p.batch f)).take headerSize)
      settings.maxWalRecordBytes = .ok (length, expectedCrc) →
    checkPayload f (w.position p.batch f) length expectedCrc
      (((w.content f).drop (w.position p.batch f + headerSize)).take length) = .error e →
    Bad f e (w.content f)
  quarantine : ∀ w w' p f e size, Inside libs c w → Inside libs c w' → I w p → p.batch.rows = [] →
    f ∈ w.walDir → Bad f e (w.content f) → e.sourceFile = f →
    e.offset = w.position p.batch f →
    w' = (w.exec libs settings (.commitQuarantine f e.offset e.message size)).2 → G w w' ∧ I w' p
  compact : ∀ w w' p name merged files, Inside libs c w → Inside libs c w' → I w p →
    merged.Nodup → (∀ f ∈ merged, w.isCommitted f = true) →
    merged.mapM (fun f => w.parquetDir.lookup f) = some files →
    (∀ file ∈ files, file.footer = true) → files.flatMap ParquetFile.rows ≠ [] →
    (∃ n, name ∈ generated libs n) → name ∉ w.control.parquetFiles →
    w.parquetDir.lookup name = some ⟨files.flatMap ParquetFile.rows, true⟩ →
    Allowed (.commitCompaction name (files.flatMap ParquetFile.rows).length merged) w →
    w' = (w.exec libs settings
      (.commitCompaction name (files.flatMap ParquetFile.rows).length merged)).2 → G w w' ∧ I w' p
  delete : ∀ w w' p f, Inside libs c w → Inside libs c w' → I w p → p.batch.rows = [] →
    w.Sealed f → w.isFullyProcessed f = true → w' = (w.exec libs settings (.unlinkWal f)).2 → G w w' ∧ I w' p

namespace Frame

theorem refl (w : World) : Frame w w where
  control := rfl
  stamps := rfl
  connections := Nat.le_refl _
  history := rfl
  segment _ hf := ⟨hf, List.prefix_rfl⟩
  frozen _ _ := rfl
  parquet _ _ h := h
  kept _ _ := rfl

variable {w w' : World}

theorem maxOffset (h : Frame w w') (f : String) : w'.maxOffset f = w.maxOffset f := by
  rw [World.maxOffset, h.control, World.maxOffset]

theorem isFullyProcessed (h : Frame w w') (f : String) :
    w'.isFullyProcessed f = w.isFullyProcessed f := by
  rw [World.isFullyProcessed, h.control, World.isFullyProcessed]

theorem quarantined (h : Frame w w') : w'.quarantined = w.quarantined := by
  rw [World.quarantined, h.control, World.quarantined]

theorem isCommitted (h : Frame w w') (f : String) : w'.isCommitted f = w.isCommitted f := by
  rw [World.isCommitted, h.control, World.isCommitted]

theorem committedNames (h : Frame w w') : w'.committedNames = w.committedNames := by
  have he : w'.isCommitted = w.isCommitted := funext h.isCommitted
  rw [World.committedNames, h.control, he, World.committedNames]

theorem position (h : Frame w w') (b : Batch) (f : String) : w'.position b f = w.position b f := by
  rw [World.position, h.maxOffset, World.position]

theorem sealed (h : Frame w w') {f : String} (hf : w.Sealed f) : w'.Sealed f := by
  obtain ⟨hf, g, hg, hlt⟩ := hf
  exact ⟨(h.segment f hf).1, g, (h.segment g hg).1, hlt⟩

theorem trans {w'' : World} (h : Frame w w') (h' : Frame w' w'') : Frame w w'' where
  control := h'.control.trans h.control
  stamps := h'.stamps.trans h.stamps
  connections := h.connections.trans h'.connections
  history := h'.history.trans h.history
  segment f hf := by
    obtain ⟨hf', hle⟩ := h.segment f hf
    exact ⟨(h'.segment f hf').1, hle.trans (h'.segment f hf').2⟩
  frozen f hf := (h'.frozen f (h.sealed hf)).trans (h.frozen f hf)
  parquet f file hl := h.parquet f file (h'.parquet f file hl)
  kept f hf := by
    have hf' : w'.isCommitted f = true ∨ f ∈ w'.history.renamed := by
      rw [h.isCommitted, h.history]
      exact hf
    exact (h'.kept f hf').trans (h.kept f hf)

theorem fresh {libs : Libs} (h : Frame w w') (hf : Fresh libs w) : Fresh libs w' where
  unused n hn f hg := by
    rw [h.stamps] at hn
    obtain ⟨hdir, hfiles⟩ := hf.unused n hn f hg
    refine ⟨fun hmem => ?_, by rw [h.control]; exact hfiles⟩
    obtain ⟨file, hfile⟩ := Option.isSome_iff_exists.mp (AList.lookup_isSome.mpr hmem)
    exact hdir (AList.lookup_isSome.mp (by rw [h.parquet f file hfile]; rfl))
  manifest f hm := hf.manifest f (by rw [h.control] at hm; exact hm)

end Frame

namespace Quiet

theorem refl (w : World) : Quiet w w where
  exclusive := rfl
  walDir := rfl
  unlinked := rfl
  unflushed := rfl
  offsets := rfl
  records := rfl
  files := rfl
  events := rfl
  stamps := Nat.le_refl _
  connections := Nat.le_refl _
  committed _ _ := rfl
  known _ _ := .inl rfl

variable {w w' : World}

theorem content (h : Quiet w w') (f : String) : w'.content f = w.content f := by
  rw [World.content, h.walDir, World.content]

theorem maxOffset (h : Quiet w w') (f : String) : w'.maxOffset f = w.maxOffset f := by
  rw [World.maxOffset, h.offsets, World.maxOffset]

theorem isFullyProcessed (h : Quiet w w') (f : String) :
    w'.isFullyProcessed f = w.isFullyProcessed f := by
  rw [World.isFullyProcessed, h.offsets, World.isFullyProcessed]

theorem quarantined (h : Quiet w w') : w'.quarantined = w.quarantined := by
  rw [World.quarantined, h.events, World.quarantined]

theorem isCommitted (h : Quiet w w') (f : String) : w'.isCommitted f = w.isCommitted f := by
  rw [World.isCommitted, h.files, World.isCommitted]

theorem position (h : Quiet w w') (b : Batch) (f : String) : w'.position b f = w.position b f := by
  rw [World.position, h.maxOffset, World.position]

theorem sealed (h : Quiet w w') {f : String} (hf : w.Sealed f) : w'.Sealed f := by
  unfold World.Sealed at hf ⊢
  rw [h.walDir]
  exact hf

end Quiet

/-- Inside the lock, with the progress `p`, and knowing `F`. -/
def At (libs : Libs) (c : Conn) (I : World → Progress → Prop) (p : Progress) (F : World → Prop)
    (w : World) : Prop := Inside libs c w ∧ I w p ∧ F w

/-- What is known survives what the others do. -/
def FrameStable (F : World → Prop) : Prop := ∀ w w', Frame w w' → F w → F w'

/-- What is known survives a quiet step. -/
def QuietStable (F : World → Prop) : Prop := ∀ w w', Quiet w w' → F w → F w'

theorem Inside.frame {libs : Libs} {c : Conn} {w w' : World} (h : Inside libs c w)
    (he : w'.exclusive = some c) (hf : Frame w w') : Inside libs c w' :=
  ⟨he, h.serial.trans_le hf.connections, hf.fresh h.fresh⟩

/-- A step inside the lock of which the holder says what it does. -/
theorem Inside.quiet {libs : Libs} {c : Conn} {w w' : World} (h : Inside libs c w)
    (hq : Quiet w w') (hf : Fresh libs w') : Inside libs c w' :=
  ⟨hq.exclusive.trans h.held, h.serial.trans_le hq.connections, hf⟩

namespace Discipline

variable {libs : Libs} {settings : Settings} {Allowed : Guard} {c : Conn}
  {R G : World → World → Prop} {I : World → Progress → Prop}
  {Bad : String → WalCorruptionError → Bytes → Prop} {α : Type} {p : Progress} {F : World → Prop}

theorem at_stable (D : Discipline libs settings Allowed c R G I Bad) (hF : FrameStable F) :
    Stable R (At libs c I p F) := by
  intro w w' hw hR
  obtain ⟨hin, hI, hw⟩ := hw
  obtain ⟨hheld, hframe⟩ := D.rely w w' hin.held hR
  exact ⟨hin.frame hheld hframe, D.stable w w' p hin hI hR, hF w w' hframe hw⟩

theorem guarantee_refl (D : Discipline libs settings Allowed c R G I Bad) {w : World}
    (hin : Inside libs c w) (hI : I w p) : G w w :=
  (D.neutral w w p hin hin hI (Quiet.refl w)).1

/-- One operation inside the lock. -/
theorem perform (D : Discipline libs settings Allowed c R G I Bad) {o : Op α}
    {Q : Except PyError α → World → Prop} (hF : FrameStable F)
    (hok : ∀ w r w', At libs c I p F w → Allowed o w → World.exec libs settings o w = (r, w') →
      G w w' ∧ Q r w')
    (hfault : ∀ w e, At libs c I p F w → Op.fault o = some e → Q (.error e) w) :
    Triple (guarded libs settings Allowed) R G (At libs c I p F) (Prog.perform o) Q := by
  apply Triple.perform (D.at_stable hF)
  intro w r w' hw hstep
  obtain ⟨hallowed, hexec | ⟨e, he, rfl, rfl⟩⟩ := hstep
  · exact hok w r w' hw hallowed hexec
  · exact ⟨D.guarantee_refl hw.1 hw.2.1, hfault w' e hw he⟩

/-- An operation with a quiet effect. -/
theorem quiet (D : Discipline libs settings Allowed c R G I Bad) {o : Op α}
    {K : Except PyError α → World → Prop} (hF : FrameStable F)
    (hok : ∀ w r w', Inside libs c w → F w → Allowed o w → World.exec libs settings o w = (r, w') →
      Quiet w w' ∧ Fresh libs w' ∧ K r w')
    (hfault : ∀ w e, F w → Op.fault o = some e → K (.error e) w) :
    Triple (guarded libs settings Allowed) R G (At libs c I p F) (Prog.perform o)
      fun r => At libs c I p (K r) := by
  apply D.perform hF
  · intro w r w' hw hallowed hexec
    obtain ⟨hin, hI, hF⟩ := hw
    obtain ⟨hquiet, hfresh, hK⟩ := hok w r w' hin hF hallowed hexec
    have hin' := hin.quiet hquiet hfresh
    obtain ⟨hG, hI'⟩ := D.neutral w w' p hin hin' hI hquiet
    exact ⟨hG, hin', hI', hK⟩
  · intro w e hw he
    exact ⟨hw.1, hw.2.1, hfault w e hw.2.2 he⟩

/-- An operation that only asks. -/
theorem ask (D : Discipline libs settings Allowed c R G I Bad) {o : Op α}
    {K : Except PyError α → World → Prop} (hF : FrameStable F)
    (hsame : ∀ w, (World.exec libs settings o w).2 = w)
    (hok : ∀ w, F w → Allowed o w → K (World.exec libs settings o w).1 w)
    (hfault : ∀ w e, F w → Op.fault o = some e → K (.error e) w) :
    Triple (guarded libs settings Allowed) R G (At libs c I p F) (Prog.perform o)
      fun r => At libs c I p (K r) := by
  apply D.quiet hF
  · intro w r w' hin hw hallowed hexec
    have hr : (World.exec libs settings o w).1 = r := by rw [hexec]
    have hw' : (World.exec libs settings o w).2 = w' := by rw [hexec]
    rw [hsame w] at hw'
    subst hw' hr
    exact ⟨Quiet.refl w, hin.fresh, hok w hw hallowed⟩
  · exact hfault

/-- An operation without effect whose answer does not matter. -/
theorem pass (D : Discipline libs settings Allowed c R G I Bad) {o : Op α} (hF : FrameStable F)
    (hsame : ∀ w, (World.exec libs settings o w).2 = w) :
    Triple (guarded libs settings Allowed) R G (At libs c I p F) (Prog.perform o)
      fun _ => At libs c I p F :=
  D.ask (K := fun _ => F) hF hsame (fun _ hw _ => hw) fun _ _ hw _ => hw

/-- Other things may go on, other things be guaranteed and fewer steps be considered, as long as
the assertion is kept. -/
theorem conseq {Allowed' : Guard} {R' G' : World → World → Prop}
    (D : Discipline libs settings Allowed c R G I Bad)
    (hallowed' : ∀ {β : Type} (o : Op β) w, Allowed' o w → Allowed o w)
    (hrely : ∀ w w', w.exclusive = some c → R' w w' → w'.exclusive = some c ∧ Frame w w')
    (hstable : ∀ w w' p, Inside libs c w → I w p → R' w w' → I w' p)
    (hG : ∀ w w' p', Inside libs c w → Inside libs c w' → I w' p' → G w w' → G' w w') :
    Discipline libs settings Allowed' c R' G' I Bad where
  lasting := D.lasting
  rely := hrely
  stable := hstable
  neutral w w' p hin hin' hI hq := by
    obtain ⟨h, hI'⟩ := D.neutral w w' p hin hin' hI hq
    exact ⟨hG w w' p hin hin' hI' h, hI'⟩
  read := D.read
  flush w w' p name hin hin' hI hne hfits hdrawn hname hl hallowed hw' := by
    obtain ⟨h, hI'⟩ :=
      D.flush w w' p name hin hin' hI hne hfits hdrawn hname hl (hallowed' _ w hallowed) hw'
    exact ⟨hG w w' _ hin hin' hI' h, hI'⟩
  mark w w' p f hin hin' hI hsealed hpos hw' := by
    obtain ⟨h, hI'⟩ := D.mark w w' p f hin hin' hI hsealed hpos hw'
    exact ⟨hG w w' p hin hin' hI' h, hI'⟩
  badHeader w p f e hin hI hf hallowed := D.badHeader w p f e hin hI hf (hallowed' _ w hallowed)
  badPayload w p f length expectedCrc e hin hI hf hallowed :=
    D.badPayload w p f length expectedCrc e hin hI hf (hallowed' _ w hallowed)
  quarantine w w' p f e size hin hin' hI hnil hf hbad hsource hoffset hw' := by
    obtain ⟨h, hI'⟩ := D.quarantine w w' p f e size hin hin' hI hnil hf hbad hsource hoffset hw'
    exact ⟨hG w w' p hin hin' hI' h, hI'⟩
  compact w w' p name merged files hin hin' hI hnodup hmerged hfiles hfooter hne hdrawn hname hl hallowed
      hw' := by
    obtain ⟨h, hI'⟩ := D.compact w w' p name merged files hin hin' hI hnodup hmerged hfiles hfooter hne
      hdrawn hname hl (hallowed' _ w hallowed) hw'
    exact ⟨hG w w' p hin hin' hI' h, hI'⟩
  delete w w' p f hin hin' hI hnil hsealed hmark hw' := by
    obtain ⟨h, hI'⟩ := D.delete w w' p f hin hin' hI hnil hsealed hmark hw'
    exact ⟨hG w w' p hin hin' hI' h, hI'⟩

end Discipline

end Lrcp.Store
