import Lrcp.Store.CompactionFailure

namespace Lrcp.Store

open Lrcp.Wal Lrcp.Otlp Lrcp.Framework

/-- The names to come are new, and every committed file that is there can be read
and has rows. -/
structure Sound (libs : Libs) (w : World) : Prop where
  fresh : Fresh libs w
  stored : ∀ f file, w.isCommitted f = true → w.parquetDir.lookup f = some file →
    file.footer = true ∧ file.rows ≠ []

/-- A store that the locked operations have got to, of whose files some may have
been lost since. -/
inductive Stored (libs : Libs) (M : Nat) : World → Prop
  | lost {w dir} (h : Reachable libs M (fun _ => True) w)
      (hdir : ∀ f file, AList.lookup f dir = some file → w.parquetDir.lookup f = some file) :
      Stored libs M { w with parquetDir := dir }

/-- How a call leaves the store: killed at any moment, or at its end. -/
inductive LeftBy (t : Thread) {α : Type} : Call α → World → World → Prop
  | killed {q w} : LeftBy t q w (w.crash t)
  | ended {r w} : LeftBy t (.done r) w w

/-- A compaction, or the cleanup of files that are not committed, has got from one
state to another. -/
inductive InCall (libs : Libs) (t : Thread) : {α : Type} → World → Call α → World → Prop
  | compact {settings n w q w'} (hn : 2 ≤ n)
      (h : Prog.Runs (regular libs settings) (compactParquetFiles t n, w) (q, w')) :
      InCall libs t w q w'
  | orphans {settings w q w'}
      (h : Prog.Runs (faulty libs settings) (cleanupOrphanedParquetFiles, w) (q, w')) :
      InCall libs t w q w'

/-- Any number of compactions and cleanups, each of which ends or is killed. -/
inductive Recovery (libs : Libs) (w : World) : World → Prop
  | start : Recovery libs w w
  | call {w' w'' w''' t} {α : Type} {q : Call α} (h : Recovery libs w w')
      (hcall : InCall libs t w' q w'') (hleft : LeftBy t q w'' w''') : Recovery libs w w'''

/-- Compactions that return, one after the other. -/
inductive Compactions (libs : Libs) (w : World) : Nat → World → Prop
  | zero : Compactions libs w 0 w
  | succ {j w' w'' t settings n total} (h : Compactions libs w j w') (hn : 2 ≤ n)
      (hr : Prog.Runs (regular libs settings) (compactParquetFiles t n, w') (.ret total, w'')) :
      Compactions libs w (j + 1) w''

/-- Files have been replaced by a new one with their rows. -/
structure Replaced (w : World) (merged : List String) (name : String) (total : Nat) (w' : World) :
    Prop where
  chosen : merged.Sublist w.present
  new : name ∉ w.present
  present : w'.present.Perm (name :: w.present.filter fun f => f ∉ merged)
  recordCount : w'.control.parquetFiles.lookup name = some ⟨total, .committed⟩
  total : total = (merged.flatMap w.readableIn).length
  rows : w'.readableIn name = merged.flatMap w.readableIn
  gone : ∀ f ∈ merged, f ∉ w'.parquetDir

section Sound

variable {libs : Libs} {settings : Settings} {M n : Nat} {w₀ w w' : World} {t : Thread}

theorem Reachable.stored (h : Reachable libs M (fun _ => True) w) : Stored libs M w :=
  .lost h fun _ _ hl => hl

theorem Stored.sound (hlibs : FreshNames libs) (h : Stored libs M w) : Sound libs w := by
  cases h with
  | lost h hdir =>
    have hrest : ∃ C, Rest libs M False False C _ := h.rest hlibs False.elim
    obtain ⟨C, hC⟩ := hrest
    refine ⟨hC.fresh.of_eq (Nat.le_refl _) (fun f hf => ?_) rfl, fun f file hcommitted hfile => ?_⟩
    · obtain ⟨file, hfile⟩ := Option.isSome_iff_exists.mp (AList.lookup_isSome.mpr hf)
      exact AList.lookup_isSome.mp (by rw [hdir f file hfile]; rfl)
    · obtain ⟨file', hfile', hstored⟩ := hC.ledger.stored f hcommitted
      obtain rfl := Option.some.inj ((hdir f file hfile).symm.trans hfile')
      exact hstored

theorem Sound.steady (h : Sound libs w₀) (hw : Steady libs w₀ w) : Sound libs w := by
  refine ⟨hw.fresh, fun f file hcommitted hfile => ?_⟩
  rw [hw.isCommitted] at hcommitted
  rw [hw.committed f hcommitted] at hfile
  exact h.stored f file hcommitted hfile

theorem Sound.relocked (h : Sound libs w) (hw : Relocked w w') : Sound libs w' := by
  have hsteady : Steady libs w w := .refl h.fresh
  exact h.steady (hsteady.relocked hw)

/-- Files that are committed and there can be merged. -/
theorem Sound.mergeable (h : Sound libs w) (hn : 0 < n) (hseveral : 1 < w.present.length) :
    Mergeable w n := by
  have hread : ∀ f ∈ w.toMerge n, ∃ file, w.parquetDir.lookup f = some file ∧
      file.footer = true ∧ file.rows ≠ [] := by
    intro f hf
    obtain ⟨hcommitted, hmem⟩ := mem_toMerge hf
    obtain ⟨file, hfile⟩ := Option.isSome_iff_exists.mp (AList.lookup_isSome.mpr hmem)
    exact ⟨file, hfile, h.stored f file hcommitted hfile⟩
  refine ⟨hseveral, fun f hf => ?_, fun hrows => ?_⟩
  · obtain ⟨file, hfile, hfooter, -⟩ := hread f hf
    exact ⟨file, hfile, hfooter⟩
  · have hne : w.toMerge n ≠ [] := by
      apply List.ne_nil_of_length_pos
      rw [World.toMerge, List.length_take]
      omega
    obtain ⟨f, hf⟩ := List.exists_mem_of_ne_nil _ hne
    obtain ⟨file, hfile, -, hfileRows⟩ := hread f hf
    apply hfileRows
    have hnil := List.flatMap_eq_nil_iff.mp hrows f hf
    rwa [World.rowsIn, hfile] at hnil

theorem Sound.swapped {merged : List String} {name : String} {file : ParquetFile} {recordCount : Nat}
    (h : Sound libs w₀) (hmerged : ∀ f ∈ merged, w₀.isCommitted f = true)
    (hw : Swapped libs w₀ merged name file recordCount w) (hfile : file.footer = true ∧ file.rows ≠ []) :
    Sound libs w := by
  refine ⟨hw.fresh, fun f file' hcommitted hl => ?_⟩
  rw [hw.isCommitted hmerged] at hcommitted
  by_cases hname : f = name
  · subst hname
    obtain rfl := Option.some.inj (hw.stored.symm.trans hl)
    exact hfile
  · simp only [hname, decide_false, Bool.false_or, Bool.and_eq_true, decide_eq_true_eq] at hcommitted
    rw [hw.kept f hcommitted.2 hcommitted.1] at hl
    exact h.stored f file' hcommitted.2 hl

/-- A compaction in which nothing raises keeps what can be read, at every moment. -/
theorem Sound.underway (h : Sound libs w) (hw : Underway libs w n ⟨w', none⟩) :
    Sound libs w' ∧ w'.readable.Perm w.readable := by
  rcases hw with hsteady | hcompacted
  · exact ⟨h.steady hsteady, hsteady.readable⟩
  · have hclose : ¬Trial.closeRaised ⟨w', none⟩ := by simp [Trial.closeRaised]
    refine ⟨?_, hcompacted.readable_iff.mpr hclose⟩
    obtain ⟨hm, name, file, hswapped, hcomplete, -⟩ := hcompacted
    apply h.swapped (fun f hf => (mem_toMerge hf).1) hswapped
    rw [hcomplete hclose]
    exact ⟨rfl, hm.rows⟩

end Sound

section Orphans

variable {libs : Libs} {settings : Settings} {w₀ : World} {α : Type} {o : Op α} {K : World → Prop}
  {L : Except PyError α → World → Prop}

theorem orphan_triple
    (hok : ∀ w r w', Steady libs w₀ w → K w → World.exec libs settings o w = (r, w') →
      Steady libs w₀ w' ∧ L r w')
    (hfail : ∀ w e, K w → L (.error e) w) :
    Triple (faulty libs settings) Eq (fun _ w' => Steady libs w₀ w')
      (fun w => Steady libs w₀ w ∧ K w) (Prog.perform o) fun r w => Steady libs w₀ w ∧ L r w := by
  apply Triple.perform fun w w' hw hR => hR ▸ hw
  intro w r w' hw hstep
  rcases hstep with hexec | ⟨e, -, rfl, rfl⟩
  · have hw' := hok w r w' hw.1 hw.2 hexec
    exact ⟨hw'.1, hw'⟩
  · exact ⟨hw.1, hw.1, hfail w' e hw.2⟩

theorem unlinkEach_orphans (files : List String) (deletedCount : Nat) :
    Triple (faulty libs settings) Eq (fun _ w' => Steady libs w₀ w')
      (fun w => Steady libs w₀ w ∧ ∀ f ∈ files, w₀.isCommitted f = false)
      (unlinkEach files deletedCount) fun _ => Steady libs w₀ := by
  unfold unlinkEach
  apply Triple.forEach (I := fun files _ w => Steady libs w₀ w ∧ ∀ f ∈ files, w₀.isCommitted f = false)
  · intro f files deletedCount
    apply Triple.tryThen (J := fun _ w => Steady libs w₀ w ∧ ∀ g ∈ files, w₀.isCommitted g = false)
    · apply orphan_triple
      · intro w r w' hsteady hfiles hexec
        obtain ⟨-, rfl⟩ := Prod.mk.inj hexec
        exact ⟨hsteady.erase (hfiles f (by simp)), fun g hg => hfiles g (by simp [hg])⟩
      · exact fun w e hfiles g hg => hfiles g (by simp [hg])
    intro result
    split
    · exact Triple.ret fun w hw => hw
    · exact Triple.ret fun w hw => hw
    · exact Triple.raise fun w hw => hw.1
  · exact fun _ w hw => hw.1

/-- The cleanup changes nothing that can be read. -/
theorem cleanupOrphaned_steady :
    Triple (faulty libs settings) Eq (fun _ w' => Steady libs w₀ w') (Steady libs w₀)
      cleanupOrphanedParquetFiles fun _ => Steady libs w₀ := by
  unfold cleanupOrphanedParquetFiles
  apply Triple.bind (J := fun _ => Steady libs w₀)
  · apply (orphan_triple (K := fun _ => True) (L := fun _ _ => True) ?_ fun _ _ _ => trivial).conseq
    · exact fun w hw => ⟨hw, trivial⟩
    · exact fun r w hw => hw.1
    · intro w r w' hsteady _ hexec
      obtain ⟨-, rfl⟩ := Prod.mk.inj hexec
      exact ⟨hsteady, trivial⟩
  swap
  · exact fun _ _ hw => hw
  intro _
  apply Triple.bind (J := fun r w => Steady libs w₀ w ∧
    ∀ files, r = .ok files → ∀ f ∈ files, w₀.isCommitted f = false)
  · apply (orphan_triple (K := fun _ => True) ?_ fun w e _ files h => by cases h).pre
      fun w hw => ⟨hw, trivial⟩
    intro w r w' hsteady _ hexec
    obtain ⟨rfl, rfl⟩ := Prod.mk.inj hexec
    refine ⟨hsteady, fun files h f hf => ?_⟩
    obtain rfl := Except.ok.inj h
    have htmp := (List.mem_filter.mp hf).2
    cases hcommitted : w₀.isCommitted f with
    | false => rfl
    | true =>
      rw [← hsteady.isCommitted] at hcommitted
      rw [hsteady.fresh.manifest f (isCommitted_mem hcommitted)] at htmp
      cases htmp
  swap
  · exact fun _ w hw => hw.1
  intro tmpFiles
  apply Triple.bind ((unlinkEach_orphans tmpFiles 0).pre fun w hw => ⟨hw.1, hw.2 tmpFiles rfl⟩)
  swap
  · exact fun _ w hw => hw
  intro deletedCount
  apply Triple.tryThen (J := fun r w => Steady libs w₀ w ∧
    ∀ names, r = .ok names → names = w₀.committedNames)
  · apply (orphan_triple (K := fun _ => True) ?_ fun w e _ names h => by cases h).pre
      fun w hw => ⟨hw, trivial⟩
    intro w r w' hsteady _ hexec
    obtain ⟨rfl, rfl⟩ := Prod.mk.inj hexec
    exact ⟨hsteady, fun names h => (Except.ok.inj h).symm.trans hsteady.committedNames⟩
  intro result
  split
  · exact Triple.ret fun w hw => hw.1
  · exact Triple.raise fun w hw => hw.1
  rename_i committed
  apply Triple.bind (J := fun _ w => Steady libs w₀ w ∧ committed = w₀.committedNames)
  · apply (orphan_triple (K := fun _ => committed = w₀.committedNames)
      (L := fun _ _ => committed = w₀.committedNames) ?_ fun w e h => h).pre
      fun w hw => ⟨hw.1, hw.2 committed rfl⟩
    intro w r w' hsteady hcommitted hexec
    obtain ⟨-, rfl⟩ := Prod.mk.inj hexec
    exact ⟨hsteady, hcommitted⟩
  swap
  · exact fun _ w hw => hw.1
  intro files
  apply (unlinkEach_orphans _ deletedCount).pre
  intro w hw
  obtain ⟨hsteady, rfl⟩ := hw
  refine ⟨hsteady, fun f hf => ?_⟩
  have hnot : f ∉ w₀.committedNames := by simpa using (List.mem_filter.mp hf).2
  cases hcommitted : w₀.isCommitted f with
  | false => rfl
  | true => exact absurd (mem_committedNames.mpr hcommitted) hnot

end Orphans

section Recovery

variable {libs : Libs} {settings : Settings} {M n : Nat} {w w' w'' : World} {t : Thread} {α : Type}
  {q : Call α}

/-- Every moment of a compaction or a cleanup. -/
theorem Sound.inCall (hlibs : FreshNames libs) (h : Sound libs w) (hcall : InCall libs t w q w') :
    Sound libs w' ∧ w'.readable.Perm w.readable := by
  cases hcall with
  | compact hn hr =>
    exact h.underway (compactParquetFiles_runs hlibs h.fresh (regular_trial hr)).1
  | orphans hr =>
    have hsteady := (cleanupOrphaned_steady.runs (.refl h.fresh) (.refl h.fresh) hr).1
    exact ⟨h.steady hsteady, hsteady.readable⟩

theorem Sound.leftBy (h : Sound libs w) (hleft : LeftBy t q w w') :
    Sound libs w' ∧ w'.readable.Perm w.readable := by
  cases hleft with
  | killed =>
    have hsteady : Steady libs w w := .refl h.fresh
    have hcrash := hsteady.relocked (relocked_crash w t)
    exact ⟨h.steady hcrash, hcrash.readable⟩
  | ended => exact ⟨h, .refl _⟩

theorem Sound.recovery (hlibs : FreshNames libs) (h : Sound libs w) (hr : Recovery libs w w') :
    Sound libs w' ∧ w'.readable.Perm w.readable := by
  induction hr with
  | start => exact ⟨h, .refl _⟩
  | call _ hcall hleft ih =>
    have hmiddle := ih.1.inCall hlibs hcall
    have hend := hmiddle.1.leftBy hleft
    exact ⟨hend.1, hend.2.trans (hmiddle.2.trans ih.2)⟩

/-- The new file has the place of the merged ones. -/
theorem Compacted.replaced (h : Compacted libs w n ⟨w', none⟩)
    (hgone : ∀ f ∈ w.toMerge n, f ∉ w'.parquetDir) :
    ∃ name, Replaced w (w.toMerge n) name (w.mergedRows n).length w' := by
  have hclose : ¬Trial.closeRaised ⟨w', none⟩ := by simp [Trial.closeRaised]
  obtain ⟨hm, name, file, hswapped, hcomplete, -⟩ := h
  obtain rfl := hcomplete hclose
  have hcommitted : ∀ f ∈ w.toMerge n, w.isCommitted f = true := fun f hf => (mem_toMerge hf).1
  have hnew : name ∉ w.present := fun hmem => hswapped.new (isCommitted_mem (mem_present.mp hmem).1)
  have hnot : name ∉ w.toMerge n := fun hmem => hswapped.new (isCommitted_mem (hcommitted name hmem))
  refine ⟨name, List.take_sublist _ _, hnew, ?_, ?_, ?_, ?_, hgone⟩
  · have hnodup : (name :: w.present.filter fun f => f ∉ w.toMerge n).Nodup :=
      List.nodup_cons.mpr ⟨fun hmem => hnew (List.mem_of_mem_filter hmem), nodup_present.filter _⟩
    apply (List.perm_ext_iff_of_nodup nodup_present hnodup).mpr
    intro f
    rw [mem_present, hswapped.isCommitted hcommitted, List.mem_cons, List.mem_filter, mem_present]
    by_cases hf : f = name
    · subst hf
      have hmem : f ∈ w'.parquetDir := AList.lookup_isSome.mp (by rw [hswapped.stored]; rfl)
      simp [hmem]
    · by_cases hmerged : f ∈ w.toMerge n
      · simp [hf, hmerged]
      · by_cases hfc : w.isCommitted f = true
        · have hmem : f ∈ w'.parquetDir ↔ f ∈ w.parquetDir := by
            rw [← AList.lookup_isSome, hswapped.kept f hfc hmerged, AList.lookup_isSome]
          simp [hf, hmerged, hfc, hmem]
        · simp [hf, hfc]
  · rw [hswapped.files]
    unfold ControlStore.commitCompaction
    rw [lookup_foldl_markCompacted, if_neg hnot, AList.lookup_insert]
  · rw [hm.readableIn]
  · rw [World.readableIn, hswapped.stored, hm.readableIn]
    rfl

theorem Sound.compaction (hlibs : FreshNames libs) (h : Sound libs w) (hn : 2 ≤ n) {total : Nat}
    (hr : Prog.Runs (regular libs settings) (compactParquetFiles t n, w) (.ret total, w'))
    (hseveral : 1 < w.present.length) : ∃ name, Replaced w (w.toMerge n) name total w' := by
  have hm := h.mergeable (Nat.lt_of_lt_of_le Nat.zero_lt_two hn) hseveral
  rcases (compactParquetFiles_runs hlibs h.fresh (regular_trial hr)).2 (.ok total) rfl with
    ⟨-, hlost⟩ | ⟨hcompacted, htotal, hgone⟩
  · obtain ⟨-, e, he⟩ := hlost hm
    cases he
  · rw [htotal total rfl]
    exact hcompacted.replaced (hgone rfl)

theorem Replaced.length {merged : List String} {name : String} {total : Nat}
    (h : Replaced w merged name total w') :
    w'.present.length + merged.length = w.present.length + 1 := by
  have hlen := h.present.length_eq
  rw [List.length_cons] at hlen
  have hmerged : (w.present.filter fun f => f ∈ merged).Perm merged := by
    apply (List.perm_ext_iff_of_nodup (nodup_present.filter _) (nodup_present.sublist h.chosen)).mpr
    intro f
    rw [List.mem_filter, decide_eq_true_eq, and_iff_right_iff_imp]
    exact fun hf => h.chosen.subset hf
  have hsplit := List.length_eq_length_filter_add (l := w.present) (fun f => decide (f ∈ merged))
  have hmergedLen := hmerged.length_eq
  simp only [decide_not] at hlen
  omega

theorem Steady.present (h : Steady libs w w') : w'.present = w.present := by
  unfold World.present
  rw [h.committedNames]
  apply List.filter_congr
  intro f hf
  have hcommitted := mem_committedNames.mp ((List.perm_insertionSort _ _).mem_iff.mp hf)
  exact decide_eq_decide.mpr (h.mem hcommitted)

/-- With two files or more a compaction leaves fewer, with one or none it changes nothing. -/
theorem Sound.present_length (hlibs : FreshNames libs) (h : Sound libs w) (hn : 2 ≤ n) {total : Nat}
    (hr : Prog.Runs (regular libs settings) (compactParquetFiles t n, w) (.ret total, w')) :
    (w.present.length ≤ 1 → w'.present.length = w.present.length) ∧
      (1 < w.present.length → 0 < w'.present.length ∧ w'.present.length < w.present.length) := by
  constructor
  · intro hfew
    rcases (compactParquetFiles_runs hlibs h.fresh (regular_trial hr)).1 with hsteady | hcompacted
    · rw [hsteady.present]
    · exact absurd hcompacted.1.several (not_lt_of_ge hfew)
  · intro hseveral
    obtain ⟨name, hreplaced⟩ := h.compaction hlibs hn hr hseveral
    have hlength := hreplaced.length
    rw [World.toMerge, List.length_take] at hlength
    omega

theorem Sound.compactions (hlibs : FreshNames libs) (h : Sound libs w) {j : Nat}
    (hr : Compactions libs w j w') : Sound libs w' ∧ min 1 w.present.length ≤ w'.present.length ∧
      w'.present.length ≤ max (min 1 w.present.length) (w.present.length - j) := by
  induction hr with
  | zero => exact ⟨h, by omega, by omega⟩
  | succ _ hn hr ih =>
    obtain ⟨hsound, hmin, hmax⟩ := ih
    obtain ⟨hfew, hseveral⟩ := hsound.present_length hlibs hn hr
    refine ⟨(hsound.inCall hlibs (.compact hn hr)).1, ?_, ?_⟩ <;> omega

end Recovery

/-- Through compactions that are killed at any moment, cleanups and compactions
that end, the rows that can be read stay the same; a compaction of several files
that returns has replaced as many as it may by one, and enough of them leave one. -/
theorem readable_recovery {libs : Libs} (hlibs : FreshNames libs) {M : Nat} {w w' : World}
    (h : Stored libs M w) (hr : Recovery libs w w') :
    (∀ (t : Thread) (α : Type) (q : Call α) w'', InCall libs t w' q w'' →
      w''.readable.Perm w.readable) ∧
    (∀ (t : Thread) (settings : Settings) (n total : Nat) w'', 2 ≤ n →
      Prog.Runs (regular libs settings) (compactParquetFiles t n, w') (.ret total, w'') →
      1 < w'.present.length → ∃ merged name, merged.length = min w'.present.length n ∧
        Replaced w' merged name total w'') ∧
    (∀ (j : Nat) w'', Compactions libs w' j w'' → w'.present.length ≤ j + 1 →
      w''.present.length = min 1 w'.present.length) := by
  obtain ⟨hsound, hsame⟩ := (h.sound hlibs).recovery hlibs hr
  refine ⟨?_, ?_, ?_⟩
  · intro t α q w'' hcall
    exact (hsound.inCall hlibs hcall).2.trans hsame
  · intro t settings n total w'' hn hrun hseveral
    obtain ⟨name, hreplaced⟩ := hsound.compaction hlibs hn hrun hseveral
    refine ⟨w'.toMerge n, name, ?_, hreplaced⟩
    rw [World.toMerge, List.length_take, Nat.min_comm]
  · intro j w'' hcompactions hj
    obtain ⟨-, hmin, hmax⟩ := hsound.compactions hlibs hcompactions
    omega

/-- A compaction of `twoFiles` has been killed before its commit. -/
def killedCompaction : World :=
  (twoFiles.follow sampleLibs {} 18 (compactParquetFiles ⟨1, 0⟩ 20)).2.crash ⟨1, 0⟩

/-- The file that it had moved into place has been removed since. -/
def recoveredFiles : World := (killedCompaction.follow sampleLibs {} 20 cleanupOrphanedParquetFiles).2

theorem recoveredFiles_recovery : Recovery sampleLibs twoFiles recoveredFiles := by
  have hkilled := @World.follow_runs sampleLibs {} Nat 18 (compactParquetFiles ⟨1, 0⟩ 20) twoFiles
  have hcleaned : Prog.Runs (regular sampleLibs {}) (cleanupOrphanedParquetFiles, killedCompaction)
      (.done (.ok 1), recoveredFiles) := World.follow_outcome (by decide +kernel)
  exact .call (.call .start (.compact (by decide) hkilled) (.killed (t := ⟨1, 0⟩)))
    (.orphans (t := ⟨1, 0⟩) (regular_faulty hcleaned)) .ended

theorem readable_recovery_twoFiles : recoveredFiles.present.length = 2 ∧
    (∀ (t : Thread) (α : Type) (q : Call α) w, InCall sampleLibs t recoveredFiles q w →
      w.readable.Perm twoFiles.readable) ∧
    (∀ (t : Thread) (settings : Settings) (n total : Nat) w, 2 ≤ n →
      Prog.Runs (regular sampleLibs settings) (compactParquetFiles t n, recoveredFiles) (.ret total, w) →
      1 < recoveredFiles.present.length → ∃ merged name, merged.length = min recoveredFiles.present.length n ∧
        Replaced recoveredFiles merged name total w) ∧
    (∀ (j : Nat) w, Compactions sampleLibs recoveredFiles j w → recoveredFiles.present.length ≤ j + 1 →
      w.present.length = min 1 recoveredFiles.present.length) :=
  ⟨by decide +kernel,
    readable_recovery sampleLibs_freshNames twoFiles_reachable.stored recoveredFiles_recovery⟩

end Lrcp.Store
