import Lrcp.Store.Internal
import Lrcp.Store.Runs

namespace Lrcp.Store

open Lrcp.Wal Lrcp.Otlp Lrcp.Framework

/-- The order of the records: by the key of the segment, then by the offset. -/
def Entry.Before (e e' : Entry) : Prop :=
  parseWalKey e.1 < parseWalKey e'.1 ∨ (e.1 = e'.1 ∧ e.2.start < e'.2.start)

/-- The rows of the records `es` fill at most a batch of size `B` and the rest of the last record. -/
def Bounded (libs : Libs) (B : Nat) (es : List Entry) : Prop :=
  ∃ front last, es = front ++ [last] ∧ rowsOf libs last ≠ [] ∧
    (es.flatMap (rowsOf libs)).length ≤ B - 1 + (rowsOf libs last).length

/-- A file with the records whose rows are in it. -/
abbrev Filed := String × List Entry

/-- The entry of a file in the manifest. -/
def Filed.row (libs : Libs) (file : Filed) : Sigma fun _ : String => ParquetRow :=
  ⟨file.1, (file.2.flatMap (rowsOf libs)).length, .committed⟩

/-- `files` are those committed since `w₀`, in the order of their commits. -/
structure Flushes (libs : Libs) (B : Nat) (w₀ w : World) (files : List Filed) : Prop where
  manifest : w.control.parquetFiles.entries =
    (files.map (Filed.row libs)).reverse ++ w₀.control.parquetFiles.entries
  content : ∀ file ∈ files, w.parquetDir.lookup file.1 = some ⟨file.2.flatMap (rowsOf libs), true⟩
  bounded : ∀ file ∈ files, Bounded libs B file.2

/-- The account of the batches of a call that started at `w₀`. -/
structure Batches (libs : Libs) (B : Nat) (w₀ : World) (C₀ C P : List Entry) (w : World) (p : Progress)
    (files : List Filed) : Prop extends Flushes libs B w₀ w files where
  filed : withRows libs C = withRows libs C₀ ++ files.flatMap Prod.snd
  full : withRows libs P ≠ [] → Bounded libs B (withRows libs P)
  sorted : (files.flatMap Prod.snd ++ withRows libs P).Pairwise Entry.Before
  later : ∀ e ∈ files.flatMap Prod.snd ++ withRows libs P, w₀.maxOffset e.1 ≤ e.2.start
  advanced : ∀ f, w₀.maxOffset f ≤ w.maxOffset f
  untouched : files = [] → p.batch.offsets = ∅ → ∀ f, w.maxOffset f = w₀.maxOffset f

section Rows

variable {libs : Libs} {B : Nat} {C P : List Entry} {e : Entry}

theorem withRows_append : withRows libs (C ++ P) = withRows libs C ++ withRows libs P :=
  List.filter_append C P

theorem Bounded.ne_nil {es : List Entry} (h : Bounded libs B es) : es.flatMap (rowsOf libs) ≠ [] := by
  obtain ⟨front, last, rfl, hne, -⟩ := h
  rw [List.flatMap_append, List.flatMap_singleton]
  exact List.append_ne_nil_of_right_ne_nil _ hne

/-- One more record when the batch was not full. -/
theorem bounded_append (hB : (P.flatMap (rowsOf libs)).length < B)
    (hP : withRows libs P ≠ [] → Bounded libs B (withRows libs P))
    (hne : withRows libs (P ++ [e]) ≠ []) : Bounded libs B (withRows libs (P ++ [e])) := by
  rw [withRows_append] at hne ⊢
  by_cases he : rowsOf libs e = []
  · have hnil : withRows libs [e] = [] := by simp [withRows, he]
    rw [hnil, List.append_nil] at hne ⊢
    exact hP hne
  · have hone : withRows libs [e] = [e] := by simp [withRows, he]
    rw [hone]
    refine ⟨withRows libs P, e, rfl, he, ?_⟩
    rw [List.flatMap_append, List.flatMap_singleton, flatMap_withRows, List.length_append]
    omega

end Rows

/-- Not the transaction of a compaction. -/
def Op.uncompacting : {α : Type} → Op α → Prop
  | _, .commitCompaction .. => False
  | _, _ => True

/-- Only steps without the transaction of a compaction are considered. -/
abbrev Uncompacting : Guard := fun o _ => o.uncompacting

section Batches

variable {libs : Libs} {settings : Settings} {M B : Nat} {w₀ w w' : World} {C₀ C P : List Entry}
  {p : Progress} {files : List Filed} {f name : String} {r : WalRecord} {rs : List Row}

theorem Flushes.committed (h : Flushes libs B w₀ w files) {file : Filed} (hf : file ∈ files) :
    w.isCommitted file.1 = true := by
  have hmem : file.row libs ∈ w.control.parquetFiles.entries := by
    rw [h.manifest]
    exact List.mem_append_left _ (List.mem_reverse.mpr (List.mem_map_of_mem hf))
  have hl : w.control.parquetFiles.lookup file.1 = some (file.row libs).2 := AList.mem_lookup_iff.mpr hmem
  rw [World.isCommitted, hl]
  rfl

namespace Batches

theorem mem_committed (h : Batches libs B w₀ C₀ C P w p files) {e : Entry}
    (he : e ∈ files.flatMap Prod.snd ++ withRows libs P) : e ∈ C ++ P := by
  rcases List.mem_append.mp he with he | he
  · have hC : e ∈ withRows libs C := by
      rw [h.filed]
      exact List.mem_append_right _ he
    exact List.mem_append_left P (mem_withRows.mp hC).1
  · exact List.mem_append_right C (mem_withRows.mp he).1

theorem quiet (h : Batches libs B w₀ C₀ C P w p files) (hq : Quiet w w') :
    Batches libs B w₀ C₀ C P w' p files where
  manifest := by
    rw [hq.files]
    exact h.manifest
  content file hf := by
    rw [hq.committed _ (h.committed hf)]
    exact h.content file hf
  bounded := h.bounded
  filed := h.filed
  full := h.full
  sorted := h.sorted
  later := h.later
  advanced f := by
    rw [hq.maxOffset]
    exact h.advanced f
  untouched hfiles hoffsets f := by
    rw [hq.maxOffset]
    exact h.untouched hfiles hoffsets f

/-- When the call has made no progress, the watermarks are those at its start. -/
theorem start (h : Batches libs B w₀ C₀ C P w {} files)
    (hcount : (C.flatMap (rowsOf libs)).length = (C₀.flatMap (rowsOf libs)).length) (f : String) :
    w.maxOffset f = w₀.maxOffset f := by
  refine h.untouched (List.eq_nil_iff_forall_not_mem.mpr fun file hf => ?_) rfl f
  have hrows : ((files.flatMap Prod.snd).flatMap (rowsOf libs)).length = 0 := by
    rw [← flatMap_withRows libs C, h.filed, List.flatMap_append, flatMap_withRows, List.length_append] at hcount
    omega
  have hall := List.flatMap_eq_nil_iff.mp (List.length_eq_zero_iff.mp hrows)
  apply (h.bounded file hf).ne_nil
  refine List.flatMap_eq_nil_iff.mpr fun e he => hall e ?_
  exact List.mem_flatMap.mpr ⟨file, hf, he⟩

/-- What has been read since the start stands before the next record. -/
theorem before (h : Batches libs B w₀ C₀ C P w p files) (L : Ledger libs M C P w p)
    (hturn : ∀ g, w.position p.batch g = w₀.maxOffset g ∨ parseWalKey g ≤ parseWalKey f)
    (hstart : r.start = w.position p.batch f) {e : Entry}
    (he : e ∈ files.flatMap Prod.snd ++ withRows libs P) : Entry.Before e (f, r) := by
  have hmem := h.mem_committed he
  have hstop := L.stop_le hmem
  have hlt := (L.record e hmem).2.start_lt_stop
  have hlater := h.later e he
  rcases hturn e.1 with hsame | hle
  · omega
  · rcases lt_or_eq_of_le hle with hkey | hkey
    · exact .inl hkey
    · have hf : e.1 = f := parseWalKey_injective hkey
      refine .inr ⟨hf, ?_⟩
      rw [hf] at hstop
      change e.2.start < r.start
      omega

theorem read (h : Batches libs B w₀ C₀ C P w p files) (L : Ledger libs M C P w p)
    (hturn : ∀ g, w.position p.batch g = w₀.maxOffset g ∨ parseWalKey g ≤ parseWalKey f)
    (hroom : p.batch.rows.length < B) (hstart : r.start = w.position p.batch f) :
    Batches libs B w₀ C₀ C (P ++ [(f, r)]) w { p with batch := p.batch.add f r rs } files where
  toFlushes := h.toFlushes
  filed := h.filed
  full hne := by
    rw [L.batch] at hroom
    exact bounded_append hroom h.full hne
  sorted := by
    rw [withRows_append, ← List.append_assoc, List.pairwise_append]
    refine ⟨h.sorted, ?_, fun e he e' he' => ?_⟩
    · unfold withRows
      exact (List.pairwise_singleton _ _).filter _
    · obtain rfl := List.mem_singleton.mp (mem_withRows.mp he').1
      exact h.before L hturn hstart he
  later e he := by
    rw [withRows_append, ← List.append_assoc] at he
    rcases List.mem_append.mp he with he | he
    · exact h.later e he
    · obtain rfl := List.mem_singleton.mp (mem_withRows.mp he).1
      change w₀.maxOffset f ≤ r.start
      rw [hstart]
      exact (h.advanced f).trans (L.maxOffset_le_position f)
  advanced := h.advanced
  untouched _ hoffsets := by
    have hmem : f ∈ p.batch.offsets.insert f r.stop := (AList.mem_insert _).mpr (.inl rfl)
    replace hoffsets : p.batch.offsets.insert f r.stop = ∅ := hoffsets
    rw [hoffsets] at hmem
    exact absurd hmem (AList.notMem_empty f)

/-- The commit of the batch adds a file. -/
theorem flush (h : Batches libs B w₀ C₀ C P w p files) (L : Ledger libs M C P w p)
    (hne : p.batch.rows ≠ []) (hname : name ∉ w.control.parquetFiles)
    (hl : w.parquetDir.lookup name = some ⟨p.batch.rows, true⟩) (entries : List (String × Nat × String)) :
    Batches libs B w₀ C₀ (C ++ P) [] (w.exec libs settings
        (.commitBatch name p.batch.rows.length entries p.batch.offsets)).2
      ⟨{}, p.total + p.batch.rows.length⟩ (files ++ [(name, withRows libs P)]) := by
  have hrows : (withRows libs P).flatMap (rowsOf libs) = p.batch.rows := by
    rw [flatMap_withRows, L.batch]
  have hnonempty : withRows libs P ≠ [] := by
    intro hnil
    rw [hnil] at hrows
    exact hne hrows.symm
  refine
    { manifest := ?_
      content := fun file hf => ?_
      bounded := fun file hf => ?_
      filed := ?_
      full := fun hnil => absurd rfl hnil
      sorted := ?_
      later := fun e he => h.later e ?_
      advanced := fun f => ?_
      untouched := fun hnil => ?_ }
  · change (w.control.parquetFiles.insert name ⟨p.batch.rows.length, .committed⟩).entries = _
    rw [AList.entries_insert_of_notMem hname, h.manifest, List.map_append, List.reverse_append]
    simp only [List.map_cons, List.map_nil, List.reverse_cons, List.reverse_nil, List.nil_append,
      List.cons_append, Filed.row, hrows]
  · rcases List.mem_append.mp hf with hf | hf
    · exact h.content file hf
    · obtain rfl := List.mem_singleton.mp hf
      rw [hrows]
      exact hl
  · rcases List.mem_append.mp hf with hf | hf
    · exact h.bounded file hf
    · obtain rfl := List.mem_singleton.mp hf
      exact h.full hnonempty
  · rw [withRows_append, h.filed, List.flatMap_append, List.flatMap_singleton, List.append_assoc]
  · have hnil : withRows libs [] = [] := rfl
    rw [hnil, List.append_nil, List.flatMap_append, List.flatMap_singleton]
    exact h.sorted
  · have hnil : withRows libs [] = [] := rfl
    rw [hnil, List.append_nil, List.flatMap_append, List.flatMap_singleton] at he
    exact he
  · rw [maxOffset_commitBatch]
    exact (h.advanced f).trans (Nat.le_max_left _ _)
  · simp at hnil

theorem mark (h : Batches libs B w₀ C₀ C P w p files) (L : Ledger libs M C P w p) {size : Nat}
    (hpos : w.position p.batch f = size) :
    Batches libs B w₀ C₀ C P (w.exec libs settings (.commitMark f size)).2 p files where
  manifest := h.manifest
  content := h.content
  bounded := h.bounded
  filed := h.filed
  full := h.full
  sorted := h.sorted
  later := h.later
  advanced g := by
    rw [maxOffset_commitMark]
    split_ifs with hg
    · obtain ⟨rfl, -⟩ := hg
      rw [← hpos]
      exact (h.advanced g).trans (L.maxOffset_le_position g)
    · exact h.advanced g
  untouched hfiles hoffsets g := by
    rw [maxOffset_commitMark]
    split_ifs with hg
    · obtain ⟨rfl, -⟩ := hg
      rw [World.position, Batch.offset, hoffsets] at hpos
      rw [← hpos]
      exact h.untouched hfiles hoffsets g
    · exact h.untouched hfiles hoffsets g

theorem relocked (h : Batches libs B w₀ C₀ C P w p files) (hr : Relocked w w') :
    Batches libs B w₀ C₀ C P w' p files := by
  obtain ⟨e, n, l, renamed, rfl⟩ := hr
  exact ⟨⟨h.manifest, h.content, h.bounded⟩, h.filed, h.full, h.sorted, h.later, h.advanced, h.untouched⟩

theorem delete (h : Batches libs B w₀ C₀ C P w p files) :
    Batches libs B w₀ C₀ C P (w.exec libs settings (.unlinkWal f)).2 p files := by
  cases hl : w.walDir.lookup f with
  | none =>
    simp only [World.exec, hl]
    exact h
  | some bytes =>
    simp only [World.exec, hl]
    exact ⟨⟨h.manifest, h.content, h.bounded⟩, h.filed, h.full, h.sorted, h.later, h.advanced, h.untouched⟩

end Batches

/-- The account of the batches can be kept where nothing is compacted. -/
theorem batches_bookkeeping : Bookkeeping libs settings Uncompacting ⟨w₀.written, C₀⟩
    fun C P w p => ∃ files, Batches libs settings.materializeBatchSize w₀ C₀ C P w p files where
  quiet hX hq := by
    obtain ⟨files, h⟩ := hX
    exact ⟨files, h.quiet hq⟩
  read hX L _ hturn hroom hstart _ _ := by
    obtain ⟨files, h⟩ := hX
    obtain ⟨w₁, ⟨-, C₁, P₁, -, hcount, -, files₁, h₁⟩, hturn⟩ := hturn
    refine ⟨files, h.read L (fun g => ?_) hroom hstart⟩
    rw [← h₁.start hcount]
    exact hturn g
  flush hX L hne _ hname hl := by
    obtain ⟨files, h⟩ := hX
    exact ⟨_, h.flush L hne hname hl _⟩
  mark hX L _ hpos := by
    obtain ⟨files, h⟩ := hX
    exact ⟨files, h.mark L hpos⟩
  quarantine _ hX _ _ _ _ _ := by
    obtain ⟨files, h⟩ := hX
    exact ⟨files, ⟨h.manifest, h.content, h.bounded⟩, h.filed, h.full, h.sorted, h.later, h.advanced,
      h.untouched⟩
  compact _ _ _ _ hallowed := hallowed.elim
  delete hX _ _ _ _ := by
    obtain ⟨files, h⟩ := hX
    exact ⟨files, h.delete⟩

theorem uncompacting_segmentwise {α : Type} {p : Call α} (hp : Only Op.segmentwise p) :
    Only Op.uncompacting p := by
  apply hp.mono
  intro β o ho
  cases o <;> first
    | exact trivial
    | exact ho.elim

theorem uncompacting_lock {α : Type} {t : Thread} {body : Call α} (hbody : Only Op.uncompacting body) :
    Only Op.uncompacting (storageLifecycleLock t body) := by
  unfold storageLifecycleLock
  apply (Only.perform trivial).bind
  intro acquired
  apply Only.cond (.raise _)
  apply (Only.perform trivial).bind
  intro _
  apply Only.finallyDo _ (.perform trivial)
  apply (Only.perform trivial).bind
  intro c
  apply Only.finallyDo
  · apply (Only.perform trivial).bind
    intro _
    apply (Only.perform trivial).bind
    intro _
    apply (Only.perform trivial).bind
    exact fun _ => hbody
  · apply (Only.suppress (.perform trivial)).bind
    exact fun _ => .suppress (.perform trivial)

theorem uncompacting_materialize (t : Thread) : Only Op.uncompacting (materialize libs settings t) := by
  apply uncompacting_lock
  unfold materializeAll
  apply (uncompacting_segmentwise segmentwise_materializeSegments).bind
  intro total
  cases total with
  | none => exact .ret _
  | some total =>
    apply Only.cond _ (.ret _)
    apply Only.bind (uncompacting_lock ?_) fun _ => .ret _
    unfold cleanupSealed
    apply (Only.perform trivial).bind
    intro names
    apply Only.cond (.ret _)
    apply (Only.perform trivial).bind
    intro marked
    apply Only.forEach
    intro deletedFiles f
    apply Only.cond (.ret _)
    apply (Only.attempt (Only.perform trivial)).bind
    intro unlinked
    split
    · exact (Only.perform trivial).bind fun _ => .ret _
    · exact .ret _
    · exact .raise _

end Batches

/-- What a call has committed since `w₀`: `files`, one after the other. Their records,
put together, stand in order and so are in one file each, and their rows are what has
become visible. -/
structure Batched (libs : Libs) (M B : Nat) (w₀ w : World) (files : List Filed) : Prop
    extends Flushes libs B w₀ w files where
  record : ∀ e ∈ files.flatMap Prod.snd, HasRecord M (w₀.written e.1) e.2
  sorted : (files.flatMap Prod.snd).Pairwise Entry.Before
  visible : w.visible.Perm (w₀.visible ++ (files.flatMap Prod.snd).flatMap (rowsOf libs))

/-- Wherever a run of `materialize` has got to, and whatever has failed on its way: the
files it has committed are bounded and in order. -/
theorem materialize_batched {libs : Libs} (hlibs : FreshNames libs) {M : Nat} {Stop : World → Prop}
    {w₀ : World} (h : Reachable libs M Stop w₀) {settings : Settings}
    (hM : settings.maxWalRecordBytes = M) (hsize : 0 < settings.materializeBatchSize) {t : Thread}
    {q : Call Nat} {w : World}
    (hr : Prog.Runs (faulty libs settings) (materialize libs settings t, w₀) (q, w)) :
    ∃ files, Batched libs M settings.materializeBatchSize w₀ w files := by
  subst hM
  have hrest : ∃ C, Rest libs settings.maxWalRecordBytes False False C w₀ := h.rest hlibs False.elim
  obtain ⟨C₀, hC₀⟩ := hrest
  have hrelocked : ∀ w₁ w₂ p, Relocked w₁ w₂ →
      Booked libs settings.maxWalRecordBytes ⟨w₀.written, C₀⟩ (fun C P w p =>
        ∃ files, Batches libs settings.materializeBatchSize w₀ C₀ C P w p files) w₁ p →
      Booked libs settings.maxWalRecordBytes ⟨w₀.written, C₀⟩ (fun C P w p =>
        ∃ files, Batches libs settings.materializeBatchSize w₀ C₀ C P w p files) w₂ p := by
    intro w₁ w₂ p hlocks hI
    apply hlocks.booked _ hI
    intro C P hX
    obtain ⟨files, hX⟩ := hX
    exact ⟨files, hX.relocked hlocks⟩
  have htriple := (amid_encloses (t := t) hrelocked).materialize_triple (d := w₀.walDir)
    (fun c hc => hc ▸ booked_discipline batches_bookkeeping) hlibs hsize
  have hstart : Batches libs settings.materializeBatchSize w₀ C₀ C₀ [] w₀ {} [] :=
    { manifest := rfl
      content := fun _ hf => by cases hf
      bounded := fun _ hf => by cases hf
      filed := (List.append_nil _).symm
      full := fun hnil => absurd rfl hnil
      sorted := List.Pairwise.nil
      later := fun _ he => by cases he
      advanced := fun _ => Nat.le_refl _
      untouched := fun _ _ _ => rfl }
  obtain ⟨⟨-, -, p, hwritten, C, P, -, -, L, files, hfiles⟩, -⟩ := Amid.runs htriple
    ⟨hC₀.fresh, hC₀.unlocked, rfl, fun _ => rfl, C₀, [], List.prefix_rfl, rfl, hC₀.ledger, [], hstart⟩
    ((uncompacting_materialize t).runs hr).1
  refine ⟨files, hfiles.toFlushes, fun e he => ?_, ?_, ?_⟩
  · have hrecord := L.record e (hfiles.mem_committed (List.mem_append_left _ he))
    rw [hwritten] at hrecord
    exact hrecord
  · exact (List.pairwise_append.mp hfiles.sorted).1
  · have hrows : C.flatMap (rowsOf libs) =
        C₀.flatMap (rowsOf libs) ++ (files.flatMap Prod.snd).flatMap (rowsOf libs) := by
      rw [← flatMap_withRows libs C, hfiles.filed, List.flatMap_append, flatMap_withRows]
    refine L.visible.trans ?_
    rw [hrows]
    exact hC₀.ledger.visible.symm.append_right _

/-- Two records with one row each, and room for one row in a batch: two files. -/
theorem materialize_batched_twoFiles : ∃ files, Batched sampleLibs (64 * 1024 * 1024) 1
    (.ofSegments (AList.insert "wal-0.wal" (encodeRecord spanPayload ++ encodeRecord spanPayload) ∅))
    twoFiles files ∧ files.map (fun file => (file.2.flatMap (rowsOf sampleLibs)).length) = [1, 1] := by
  have hreach : Reachable sampleLibs (64 * 1024 * 1024) (fun _ => True) (World.ofSegments
      (AList.insert "wal-0.wal" (encodeRecord spanPayload ++ encodeRecord spanPayload) ∅)) :=
    .start (initial_ofSegments _ _)
  obtain ⟨files, hfiles⟩ := materialize_batched sampleLibs_freshNames hreach rfl (by decide)
    (regular_faulty twoFiles_materialized)
  refine ⟨files, hfiles, ?_⟩
  have hcounts : twoFiles.control.parquetFiles.entries.map (fun entry => entry.2.recordCount) = [1, 1] := by
    decide +kernel
  have hnone : (World.ofSegments (AList.insert "wal-0.wal"
      (encodeRecord spanPayload ++ encodeRecord spanPayload) ∅)).control.parquetFiles.entries = [] := rfl
  rw [hfiles.manifest, hnone, List.append_nil, List.map_reverse, List.map_map, List.reverse_eq_iff] at hcounts
  exact hcounts

end Lrcp.Store
