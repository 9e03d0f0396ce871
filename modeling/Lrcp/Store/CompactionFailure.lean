import Lrcp.Store.Compaction
import Lrcp.Store.Runs

namespace Lrcp.Store

open Lrcp.Wal Lrcp.Otlp Lrcp.Framework

section Readable

variable {libs : Libs} {settings : Settings} {w₀ w : World} {n : Nat} {f name : String}
  {merged : List String} {file : ParquetFile} {recordCount : Nat}

theorem Steady.readable (h : Steady libs w₀ w) : w.readable.Perm w₀.readable := by
  have hw := readable_perm (w := w) nodup_committedNames fun f => mem_committedNames
  have hw₀ := readable_perm (w := w₀) nodup_committedNames fun f => mem_committedNames
  have hsame : w₀.committedNames.flatMap w.readableIn = w₀.committedNames.flatMap w₀.readableIn := by
    apply List.flatMap_congr
    intro f hf
    exact readableIn_congr (h.committed f (mem_committedNames.mp hf))
  rw [h.committedNames, hsame] at hw
  exact hw.trans hw₀.symm

theorem Swapped.isCommitted (h : Swapped libs w₀ merged name file recordCount w)
    (hmerged : ∀ f ∈ merged, w₀.isCommitted f = true) (f : String) :
    w.isCommitted f = (decide (f = name) || (decide (f ∉ merged) && w₀.isCommitted f)) := by
  have hcommit := @isCommitted_commitCompaction libs {} w₀ name h.new recordCount merged hmerged f
  simp only [World.exec, if_neg h.new, World.isCommitted] at hcommit
  simp only [World.isCommitted]
  rw [← hcommit, h.files]

/-- The rows of the files that are merged, and of the others. -/
theorem readable_split (hnodup : merged.Nodup) (hmerged : ∀ f ∈ merged, w.isCommitted f = true) :
    w.readable.Perm (merged.flatMap w.readableIn ++
      (w.committedNames.filter fun f => f ∉ merged).flatMap w.readableIn) := by
  rw [← List.flatMap_append]
  apply readable_perm
  · refine List.nodup_append.mpr ⟨hnodup, nodup_committedNames.filter _, fun f hf g hg => ?_⟩
    intro heq
    subst heq
    simp [hf] at hg
  · intro f
    rw [List.mem_append, List.mem_filter, mem_committedNames]
    by_cases hf : f ∈ merged
    · simp [hf, hmerged f hf]
    · simp [hf]

/-- The rows of the new file, and of the files that have not been merged. -/
theorem Swapped.readable (h : Swapped libs w₀ merged name file recordCount w)
    (hmerged : ∀ f ∈ merged, w₀.isCommitted f = true) :
    w.readable.Perm ((if file.footer then file.rows else []) ++
      (w₀.committedNames.filter fun f => f ∉ merged).flatMap w₀.readableIn) := by
  have hnot : name ∉ w₀.committedNames := fun hmem => h.new (isCommitted_mem (mem_committedNames.mp hmem))
  have hperm : w.readable.Perm
      ((name :: w₀.committedNames.filter fun f => f ∉ merged).flatMap w.readableIn) := by
    apply readable_perm
    · exact List.nodup_cons.mpr ⟨fun hmem => hnot (List.mem_of_mem_filter hmem),
        nodup_committedNames.filter _⟩
    · intro f
      rw [h.isCommitted hmerged, List.mem_cons, List.mem_filter, mem_committedNames]
      simp [and_comm]
  have hname : w.readableIn name = if file.footer then file.rows else [] := by
    rw [World.readableIn, h.stored]
  have hsame : (w₀.committedNames.filter fun f => f ∉ merged).flatMap w.readableIn =
      (w₀.committedNames.filter fun f => f ∉ merged).flatMap w₀.readableIn := by
    apply List.flatMap_congr
    intro f hf
    obtain ⟨hmem, hnotMerged⟩ := List.mem_filter.mp hf
    exact readableIn_congr (h.kept f (mem_committedNames.mp hmem) (by simpa using hnotMerged))
  rw [List.flatMap_cons, hname, hsame] at hperm
  exact hperm

theorem nodup_toMerge : (w.toMerge n).Nodup := nodup_present.sublist (List.take_sublist _ _)

theorem Mergeable.readableIn (h : Mergeable w n) :
    (w.toMerge n).flatMap w.readableIn = w.mergedRows n := by
  apply List.flatMap_congr
  intro f hf
  obtain ⟨file, hfile, hfooter⟩ := h.readable f hf
  rw [World.readableIn, World.rowsIn, hfile]
  exact if_pos hfooter

/-- A compaction leaves what can be read as it was exactly when the close of the
writer has not raised. -/
theorem Compacted.readable_iff {s : Trial} (h : Compacted libs w₀ n s) :
    s.world.readable.Perm w₀.readable ↔ ¬s.closeRaised := by
  obtain ⟨hm, name, file, hswapped, hcomplete, htorn⟩ := h
  have hcommitted : ∀ f ∈ w₀.toMerge n, w₀.isCommitted f = true := fun f hf => (mem_toMerge hf).1
  have hbefore := readable_split nodup_toMerge hcommitted
  have hafter := hswapped.readable hcommitted
  rw [hm.readableIn] at hbefore
  constructor
  · intro hsame hclose
    rw [htorn hclose] at hafter
    have hlength := (hafter.symm.trans (hsame.trans hbefore)).length_eq
    have hrows := List.length_pos_of_ne_nil hm.rows
    simp only [Bool.false_eq_true, if_false, List.nil_append, List.length_append] at hlength
    omega
  · intro hclose
    rw [hcomplete hclose] at hafter
    exact hafter.trans hbefore.symm

end Readable

variable {libs : Libs} {settings : Settings}

/-- Whichever call of `compact_parquet_files` raises, the rows that can be read
are the same afterwards, unless it is the close of the writer of a merged file. -/
theorem readable_compactParquetFiles (hlibs : FreshNames libs) {w : World} (hfresh : Fresh libs w)
    {t : Thread} {n : Nat} {r : Except PyError Nat} {s : Trial}
    (hr : Prog.Runs (trial libs settings) (compactParquetFiles t n, ⟨w, none⟩) (.done r, s)) :
    s.world.readable.Perm w.readable ↔ ¬(s.closeRaised ∧ Mergeable w n) := by
  rcases (compactParquetFiles_runs hlibs hfresh hr).2 r rfl with ⟨hsteady, hlost⟩ | ⟨hcompacted, -, -⟩
  · exact iff_of_true hsteady.readable fun h => (hlost h.2).1 h.1
  · rw [hcompacted.readable_iff]
    simp [hcompacted.1]

/-- The first operation that is `picked` raises and leaves nothing. -/
def Trial.exec (libs : Libs) (settings : Settings) (picked : {α : Type} → Op α → Bool) {α : Type}
    (o : Op α) (s : Trial) : Except PyError α × Trial :=
  match o.raises with
  | some e =>
    if picked o && s.raised.isNone then (.error e, ⟨s.world, some ⟨_, o⟩⟩)
    else ((World.exec libs settings o s.world).1, ⟨(World.exec libs settings o s.world).2, s.raised⟩)
  | none => ((World.exec libs settings o s.world).1, ⟨(World.exec libs settings o s.world).2, s.raised⟩)

theorem Trial.exec_step (picked : {α : Type} → Op α → Bool) {α : Type} {o : Op α} {s s' : Trial}
    {r : Except PyError α} (h : Trial.exec libs settings picked o s = (r, s')) :
    (trial libs settings).step o s r s' := by
  have hregular : ((World.exec libs settings o s.world).1,
      (⟨(World.exec libs settings o s.world).2, s.raised⟩ : Trial)) = (r, s') →
      (trial libs settings).step o s r s' := by
    intro h
    obtain ⟨rfl, rfl⟩ := Prod.mk.inj h
    exact .inl ⟨_, rfl, rfl⟩
  unfold Trial.exec at h
  split at h
  · next e he =>
    split_ifs at h with hpicked
    · obtain ⟨rfl, rfl⟩ := Prod.mk.inj h
      have hnone : s.raised = none := by simpa using (Bool.and_eq_true_iff.mp hpicked).2
      exact .inr ⟨e, s.world, hnone, he, .inl rfl, rfl, rfl⟩
    · exact hregular h
  · exact hregular h

/-- A compaction of `twoFiles` whose first `picked` operation raises. -/
def compactTwoFiles (picked : {α : Type} → Op α → Bool) : Call Nat × Trial :=
  Prog.follow (fun o s => some (Trial.exec sampleLibs {} picked o s)) 60
    (compactParquetFiles ⟨0, 0⟩ 20, ⟨twoFiles, none⟩)

theorem compactTwoFiles_runs (picked : {α : Type} → Op α → Bool) {r : Except PyError Nat}
    (h : (compactTwoFiles picked).1.outcome? = some r) :
    Prog.Runs (trial sampleLibs {}) (compactParquetFiles ⟨0, 0⟩ 20, ⟨twoFiles, none⟩)
      (.done r, (compactTwoFiles picked).2) :=
  Prog.follow_outcome (fun _ _ _ _ h => Trial.exec_step picked (Option.some.inj h)) h

theorem twoFiles_fresh : Fresh sampleLibs twoFiles := by
  have hrest : ∃ C, Rest sampleLibs (64 * 1024 * 1024) False False C twoFiles :=
    twoFiles_reachable.rest sampleLibs_freshNames False.elim
  obtain ⟨C, hC⟩ := hrest
  exact hC.fresh

/-- The rename of the merged file raises. -/
def pickReplace : {α : Type} → Op α → Bool
  | _, .replace .. => true
  | _, _ => false

theorem readable_compactParquetFiles_replace :
    (compactTwoFiles pickReplace).2.world.readable.Perm twoFiles.readable ↔
      ¬((compactTwoFiles pickReplace).2.closeRaised ∧ Mergeable twoFiles 20) :=
  readable_compactParquetFiles sampleLibs_freshNames twoFiles_fresh
    (compactTwoFiles_runs pickReplace
      (r := .error (.osError "[Errno 5] Input/output error")) (by decide +kernel))

/-- The close of the writer raises, which is swallowed: the file without footer is
committed, and the two files with the rows are deleted. -/
theorem not_readable_compactParquetFiles :
    ¬ ∀ (libs : Libs) (settings : Settings) (w : World) (t : Thread) (n : Nat)
      (r : Except PyError Nat) (s : Trial), FreshNames libs → Fresh libs w →
      Prog.Runs (trial libs settings) (compactParquetFiles t n, ⟨w, none⟩) (.done r, s) →
        s.world.readable.Perm w.readable := by
  intro h
  have hlost := h sampleLibs {} twoFiles ⟨0, 0⟩ 20 (.ok 2) _ sampleLibs_freshNames twoFiles_fresh
    (compactTwoFiles_runs Op.isCloseWriter (by decide +kernel))
  have hafter : (compactTwoFiles Op.isCloseWriter).2.world.readable.length = 0 := by decide +kernel
  have hbefore : twoFiles.readable.length = 2 := by decide +kernel
  have hlength := hlost.length_eq
  omega

end Lrcp.Store
