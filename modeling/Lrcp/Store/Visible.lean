import Lrcp.Store.CompactRules

namespace Lrcp.Store

open Lrcp.Wal Lrcp.Otlp Lrcp.Framework

namespace World

/-- The rows of a file, none when it is not there. -/
def rowsIn (w : World) (f : String) : List Row :=
  ((w.parquetDir.lookup f).map ParquetFile.rows).getD []

/-- The rows of the committed files. -/
def visible (w : World) : List Row := w.committedNames.flatMap w.rowsIn

/-- The files that `get_committed_parquet_files` finds. -/
def present (w : World) : List String := (sortNames w.committedNames).filter fun f => f ∈ w.parquetDir

/-- The rows that can be read from a file, none when it has no footer. -/
def readableIn (w : World) (f : String) : List Row :=
  match w.parquetDir.lookup f with
  | none => []
  | some file => if file.footer then file.rows else []

/-- The rows that can be read through `get_committed_parquet_files`. -/
def readable (w : World) : List Row := w.present.flatMap w.readableIn

end World

section Visible

variable {libs : Libs} {settings : Settings} {w w' : World} {name : String}

theorem nodup_committedNames : w.committedNames.Nodup := w.control.parquetFiles.nodupKeys.filter _

/-- What is visible depends on which files are committed and on the rows in these. -/
theorem visible_congr (hfiles : w'.control.parquetFiles = w.control.parquetFiles)
    (hdir : ∀ f, w.isCommitted f = true → w'.parquetDir.lookup f = w.parquetDir.lookup f) :
    w'.visible = w.visible := by
  have hcommitted : w'.isCommitted = w.isCommitted := by
    funext f
    rw [World.isCommitted, hfiles, World.isCommitted]
  have hnames : w'.committedNames = w.committedNames := by
    rw [World.committedNames, hfiles, hcommitted, World.committedNames]
  unfold World.visible
  rw [hnames]
  apply List.flatMap_congr
  intro f hf
  rw [World.rowsIn, hdir f (mem_committedNames.mp hf), World.rowsIn]

theorem Quiet.visible (h : Quiet w w') : w'.visible = w.visible := visible_congr h.files h.committed

/-- What is visible, up to its order. -/
theorem visible_perm {names : List String} (hnodup : names.Nodup)
    (hnames : ∀ f, f ∈ names ↔ w.isCommitted f = true) : w.visible.Perm (names.flatMap w.rowsIn) := by
  apply List.Perm.flatMap_right
  apply (List.perm_ext_iff_of_nodup nodup_committedNames hnodup).mpr
  intro f
  rw [mem_committedNames, hnames]

theorem isCommitted_commitBatch (n : Nat) (entries : List (String × Nat × String))
    (offsets : Table Nat) (f : String) :
    (w.exec libs settings (.commitBatch name n entries offsets)).2.isCommitted f =
      (decide (f = name) || w.isCommitted f) := by
  simp only [World.exec, World.isCommitted, ControlStore.commitBatch]
  by_cases h : f = name
  · subst h
    simp [AList.lookup_insert]
  · simp [AList.lookup_insert_ne h, h]

/-- The commit of a batch makes its rows visible. -/
theorem visible_commitBatch (hname : name ∉ w.control.parquetFiles) {rows : List Row} {footer : Bool}
    (hl : w.parquetDir.lookup name = some ⟨rows, footer⟩) (n : Nat)
    (entries : List (String × Nat × String)) (offsets : Table Nat) :
    (w.exec libs settings (.commitBatch name n entries offsets)).2.visible.Perm
      (w.visible ++ rows) := by
  have hnot : name ∉ w.committedNames := fun h => hname (isCommitted_mem (mem_committedNames.mp h))
  have hperm : (w.exec libs settings (.commitBatch name n entries offsets)).2.visible.Perm
      ((name :: w.committedNames).flatMap w.rowsIn) := by
    apply visible_perm (List.nodup_cons.mpr ⟨hnot, nodup_committedNames⟩)
    intro f
    rw [isCommitted_commitBatch, List.mem_cons, mem_committedNames]
    simp
  have hrows : w.rowsIn name = rows := by
    rw [World.rowsIn, hl]
    rfl
  rw [List.flatMap_cons, hrows] at hperm
  exact hperm.trans List.perm_append_comm

theorem flatMap_rowsIn {merged : List String} {files : List ParquetFile}
    (h : merged.mapM (fun f => w.parquetDir.lookup f) = some files) :
    merged.flatMap w.rowsIn = files.flatMap ParquetFile.rows := by
  induction merged generalizing files with
  | nil =>
    obtain rfl := Option.some.inj h
    rfl
  | cons f merged ih =>
    rw [List.mapM_cons] at h
    simp only [Option.bind_eq_bind, Option.bind_eq_some_iff, Option.pure_def, Option.some.injEq] at h
    obtain ⟨file, hfile, files', hfiles, rfl⟩ := h
    rw [List.flatMap_cons, List.flatMap_cons, ih hfiles, World.rowsIn, hfile]
    rfl

/-- A compaction changes nothing that is visible. -/
theorem visible_commitCompaction (hname : name ∉ w.control.parquetFiles) {merged : List String}
    {files : List ParquetFile} (hnodup : merged.Nodup) (hmerged : ∀ f ∈ merged, w.isCommitted f = true)
    (hfiles : merged.mapM (fun f => w.parquetDir.lookup f) = some files) {footer : Bool}
    (hl : w.parquetDir.lookup name = some ⟨files.flatMap ParquetFile.rows, footer⟩) (n : Nat) :
    (w.exec libs settings (.commitCompaction name n merged)).2.visible.Perm w.visible := by
  have hdir : (w.exec libs settings (.commitCompaction name n merged)).2.parquetDir = w.parquetDir := by
    simp only [World.exec, if_neg hname]
  have hnot : name ∉ w.committedNames := fun h => hname (isCommitted_mem (mem_committedNames.mp h))
  -- the files that are not merged
  have hkept : (w.committedNames.filter fun f => f ∉ merged).Nodup := nodup_committedNames.filter _
  have hsplit : w.visible.Perm ((merged ++ w.committedNames.filter fun f => f ∉ merged).flatMap w.rowsIn) := by
    apply visible_perm
    · refine List.nodup_append.mpr ⟨hnodup, hkept, fun f hf g hg => ?_⟩
      rintro rfl
      simp [hf] at hg
    · intro f
      rw [List.mem_append, List.mem_filter, mem_committedNames]
      by_cases hf : f ∈ merged
      · simp [hf, hmerged f hf]
      · simp [hf]
  have hnew : (w.exec libs settings (.commitCompaction name n merged)).2.visible.Perm
      ((name :: w.committedNames.filter fun f => f ∉ merged).flatMap
        (w.exec libs settings (.commitCompaction name n merged)).2.rowsIn) := by
    apply visible_perm
    · refine List.nodup_cons.mpr ⟨fun h => hnot (List.mem_of_mem_filter h), hkept⟩
    · intro f
      rw [isCommitted_commitCompaction hname n hmerged, List.mem_cons, List.mem_filter,
        mem_committedNames]
      simp [and_comm]
  have hrowsIn : (w.exec libs settings (.commitCompaction name n merged)).2.rowsIn = w.rowsIn := by
    funext f
    rw [World.rowsIn, hdir, World.rowsIn]
  have hrows : w.rowsIn name = files.flatMap ParquetFile.rows := by
    rw [World.rowsIn, hl]
    rfl
  rw [hrowsIn, List.flatMap_cons, hrows] at hnew
  rw [List.flatMap_append, flatMap_rowsIn hfiles] at hsplit
  exact hnew.trans hsplit.symm

theorem readableIn_of_not_mem {f : String} (h : f ∉ w.parquetDir) : w.readableIn f = [] := by
  rw [World.readableIn, AList.lookup_eq_none.mpr h]

theorem readableIn_congr {f : String} (h : w.parquetDir.lookup f = w'.parquetDir.lookup f) :
    w.readableIn f = w'.readableIn f := by
  rw [World.readableIn, h, World.readableIn]

/-- The order of the files and those that are not there do not matter. -/
theorem readable_perm {names : List String} (hnodup : names.Nodup)
    (hnames : ∀ f, f ∈ names ↔ w.isCommitted f = true) :
    w.readable.Perm (names.flatMap w.readableIn) := by
  have hpresent : (names.filter fun f => f ∈ w.parquetDir).flatMap w.readableIn =
      names.flatMap w.readableIn := by
    clear hnodup hnames
    induction names with
    | nil => rfl
    | cons f names ih =>
      rw [List.flatMap_cons, ← ih, List.filter_cons]
      split_ifs with h
      · rw [List.flatMap_cons]
      · rw [readableIn_of_not_mem (by simpa using h), List.nil_append]
  have hsort : (sortNames w.committedNames).Perm names := by
    refine (List.perm_insertionSort _ _).trans ?_
    apply (List.perm_ext_iff_of_nodup nodup_committedNames hnodup).mpr
    intro f
    rw [mem_committedNames, hnames]
  rw [← hpresent]
  exact (hsort.filter _).flatMap_right _

/-- Where every committed file has its footer, everything visible can be read. -/
theorem readable_visible (h : ∀ f file, w.isCommitted f = true → w.parquetDir.lookup f = some file →
    file.footer = true) : w.readable.Perm w.visible := by
  have hsame : w.committedNames.flatMap w.readableIn = w.visible := by
    apply List.flatMap_congr
    intro f hf
    rw [World.readableIn, World.rowsIn]
    cases hl : w.parquetDir.lookup f with
    | none => rfl
    | some file =>
      simp only [h f file (mem_committedNames.mp hf) hl, if_pos]
      rfl
  rw [← hsame]
  exact readable_perm nodup_committedNames fun f => mem_committedNames

end Visible

end Lrcp.Store
