import Lrcp.Framework.Triple
import Lrcp.Wal.Reader
import Lrcp.Wal.Segment

namespace Lrcp.Gateway

open Lrcp.Framework Lrcp.Wal

/-- What the gateway asks of its operating system. -/
inductive Op : Type → Type
  | now : Op Int
  | fetchAdd : Op Nat
  | openSegment (path : String) : Op Unit
  | write (path : String) (data : Bytes) : Op Nat
  | fsync (path : String) : Op Unit

/-- A program of the gateway. Its exceptions are the texts of `std::strerror`. -/
abbrev Call := Prog Op String

/-- The WAL directory and the counter from which segment names are made. -/
structure Disk where
  walDir : Table Bytes
  sequence : Nat

namespace Disk

def content (d : Disk) (path : String) : Bytes := (d.walDir.lookup path).getD []

/-- `open` with `O_CREAT | O_APPEND`: a file that is there keeps its bytes. -/
def create (d : Disk) (path : String) : Disk :=
  { d with walDir := d.walDir.insert path (d.content path) }

/-- Bytes written through a handle in append mode. -/
def append (d : Disk) (path : String) (data : Bytes) : Disk :=
  { d with walDir := d.walDir.insert path (d.content path ++ data) }

/-- No segment loses or changes a byte. -/
def Grows (d d' : Disk) : Prop := ∀ path, d.content path <+: d'.content path

end Disk

/-- What an operation may do and answer. The clock reads anything, a segment is
opened under a name for which `New` holds, and a write takes a non-empty part of
its data. With `faults`, every `open`, `write` and `fsync` may also fail, a write
after any part of its data. -/
def Effect (faults : Prop) (New : Table Bytes → String → Prop) : {α : Type} → Op α → Disk → Except String α → Disk → Prop
  | _, .now, d, r, d' => ∃ t, r = .ok t ∧ d' = d
  | _, .fetchAdd, d, r, d' => r = .ok d.sequence ∧ d' = { d with sequence := d.sequence + 1 }
  | _, .openSegment path, d, r, d' =>
    (New d.walDir path ∧ r = .ok () ∧ d' = d.create path) ∨
      faults ∧ (∃ error, r = .error error) ∧ d' = d
  | _, .write path data, d, r, d' =>
    (∃ n, 0 < n ∧ n ≤ data.length ∧ r = .ok n ∧ d' = d.append path (data.take n)) ∨
      faults ∧ ∃ error n, r = .error error ∧ d' = d.append path (data.take n)
  | _, .fsync _, d, r, d' => (r = .ok () ∨ faults ∧ ∃ error, r = .error error) ∧ d' = d

def machine (faults : Prop) (New : Table Bytes → String → Prop) : Machine Op String Disk where
  step o d r d' := Effect faults New o d r d'

/-- A name that no segment in the directory has. -/
def Unused (walDir : Table Bytes) (path : String) : Prop := path ∉ walDir

/-- The members of `WalWriter`. `handle` tells whether `handle_` is open. -/
structure WalWriter where
  maxFileBytes : Nat
  currentPath : String
  currentFileSize : Nat
  handle : Bool
  deriving DecidableEq

/-- `write_all` -/
def writeAll (path : String) (data : Bytes) : Call Unit :=
  .repeatUntil (fun remaining => if remaining = [] then .ret (.inr ())
    else do
      let written ← Prog.perform (.write path remaining)
      .ret (.inl (remaining.drop written))) data

namespace WalWriter

/-- `open_new_segment`. When it throws, the handle is closed and the path is
already that of the segment that could not be opened. -/
def openNewSegment (writer : WalWriter) : Call (WalWriter × Except String Unit) := do
  let now ← Prog.perform .now
  let sequence ← Prog.perform .fetchAdd
  let path := segmentName now sequence
  let opened ← (Prog.perform (.openSegment path)).attempt
  match opened with
  | .ok () => .ret ({ writer with currentPath := path, handle := true, currentFileSize := 0 }, .ok ())
  | .error error =>
    .ret ({ writer with currentPath := path, handle := false },
      .error ("open WAL segment " ++ path ++ ": " ++ error))

/-- The constructor, which throws when the first segment cannot be opened. -/
def construct (maxFileBytes : Nat) : Call WalWriter := do
  let (writer, opened) ← openNewSegment ⟨maxFileBytes, "", 0, false⟩
  match opened with
  | .ok () => .ret writer
  | .error error => .raise error

/-- An append of that many bytes goes to a new segment. -/
def rotates (writer : WalWriter) (recordSize : Nat) : Bool :=
  !writer.handle ||
    (0 < writer.currentFileSize && writer.maxFileBytes < writer.currentFileSize + recordSize)

/-- Header, payload and `fsync`. -/
def writeRecord (path : String) (payload : Bytes) : Call Unit := do
  writeAll path (writeLittleEndian (BitVec.ofNat 32 payload.length) (crc32 payload))
  writeAll path payload
  Prog.perform (.fsync path)

/-- `WalWriter::append`: the members after the call, and its result. -/
def append (writer : WalWriter) (payload : Bytes) : Call (WalWriter × Except String Unit) :=
  if payload.length > 2 ^ 32 - 1 then .ret (writer, .error "payload exceeds WAL record limit")
  else do
    let recordSize := 8 + payload.length
    let (writer, opened) ←
      (if writer.rotates recordSize then writer.openNewSegment else .ret (writer, .ok ()))
    match opened with
    | .error error => .ret (writer, .error error)
    | .ok () =>
      let result ← (writeRecord writer.currentPath payload).attempt
      match result with
      | .error error => .ret (writer, .error error)
      | .ok () =>
        .ret ({ writer with currentFileSize := writer.currentFileSize + recordSize }, .ok ())

end WalWriter

namespace Disk

@[simp] theorem content_create (d : Disk) (path f : String) :
    (d.create path).content f = d.content f := by
  unfold create content
  by_cases h : f = path
  · subst h
    simp [AList.lookup_insert]
  · simp [AList.lookup_insert_ne h]

theorem content_append_self (d : Disk) (path : String) (data : Bytes) :
    (d.append path data).content path = d.content path ++ data := by
  simp [append, content, AList.lookup_insert]

theorem content_append_of_ne (d : Disk) {path f : String} (data : Bytes) (h : f ≠ path) :
    (d.append path data).content f = d.content f := by
  simp [append, content, AList.lookup_insert_ne h]

theorem content_of_unused {d : Disk} {path : String} (h : Unused d.walDir path) :
    d.content path = [] := by
  rw [content, AList.lookup_eq_none.mpr h]
  rfl

theorem Grows.refl (d : Disk) : d.Grows d := fun _ => List.prefix_rfl

theorem Grows.trans {d d' d'' : Disk} (h : d.Grows d') (h' : d'.Grows d'') : d.Grows d'' :=
  fun path => (h path).trans (h' path)

theorem grows_append (d : Disk) (path : String) (data : Bytes) : d.Grows (d.append path data) := by
  intro f
  by_cases h : f = path
  · subst h
    rw [content_append_self]
    exact List.prefix_append _ _
  · rw [content_append_of_ne d data h]

end Disk

/-- Every operation of the gateway only adds bytes. -/
theorem Effect.grows {faults : Prop} {New : Table Bytes → String → Prop} {α : Type} {o : Op α}
    {d d' : Disk} {r : Except String α} (h : Effect faults New o d r d') : d.Grows d' := by
  cases o with
  | now =>
    obtain ⟨_, -, rfl⟩ := h
    exact Disk.Grows.refl _
  | fetchAdd =>
    obtain ⟨-, rfl⟩ := h
    exact fun _ => List.prefix_rfl
  | openSegment path =>
    rcases h with ⟨-, -, rfl⟩ | ⟨-, -, rfl⟩
    · exact fun f => by rw [Disk.content_create]
    · exact Disk.Grows.refl _
  | write path data =>
    rcases h with ⟨n, -, -, -, rfl⟩ | ⟨-, _, n, -, rfl⟩
    · exact d.grows_append _ _
    · exact d.grows_append _ _
  | fsync path =>
    obtain ⟨-, rfl⟩ := h
    exact Disk.Grows.refl _

section Specification

variable {faults : Prop} {New : Table Bytes → String → Prop} {G : Disk → Disk → Prop}
  {K : String → Disk → Prop}

/-- `write_all` appends a part of its data, and all of it when it returns true.
`K` is whatever else is known about the segment that is written. -/
theorem writeAll_triple {path : String} {data c : Bytes}
    (hK : ∀ d x, K path d → K path (d.append path x))
    (hG : ∀ d part x, K path d → part ++ x <+: data → d.content path = c ++ part →
      G d (d.append path x)) :
    Triple (machine faults New) Eq G (fun d => K path d ∧ d.content path = c) (writeAll path data)
      fun r d => ∃ part, part <+: data ∧ K path d ∧ d.content path = c ++ part ∧
        (r = .ok () → part = data) ∧ (r ≠ .ok () → faults) := by
  unfold writeAll
  apply Triple.pre (H := fun d => ∃ part, data = part ++ data ∧ K path d ∧ d.content path = c ++ part)
    fun d hd => ⟨[], rfl, hd.1, by rw [hd.2, List.append_nil]⟩
  apply Triple.repeatUntil
    (I := fun remaining d => ∃ part, data = part ++ remaining ∧ K path d ∧ d.content path = c ++ part)
  intro remaining
  by_cases hr : remaining = []
  · subst hr
    rw [if_pos rfl]
    apply Triple.ret
    rintro d ⟨part, hpart, hk, hd⟩
    rw [List.append_nil] at hpart
    exact ⟨part, hpart ▸ List.prefix_rfl, hk, hd, fun _ => hpart.symm, fun h => absurd rfl h⟩
  · rw [if_neg hr]
    apply Triple.bind (J := fun r d => ∃ part, data = part ++ remaining ∧ K path d ∧ match r with
      | .ok n => d.content path = c ++ (part ++ remaining.take n)
      | .error _ => faults ∧ ∃ n, d.content path = c ++ (part ++ remaining.take n))
    · apply Triple.perform
      · rintro d d' hd rfl
        exact hd
      · rintro d r d' ⟨part, hpart, hk, hd⟩ heff
        have hpre : ∀ n, part ++ remaining.take n <+: data := by
          intro n
          rw [hpart]
          exact (List.prefix_append_right_inj part).mpr (List.take_prefix _ _)
        rcases heff with ⟨n, -, -, rfl, rfl⟩ | ⟨hf, error, n, rfl, rfl⟩
        · refine ⟨hG d part _ hk (hpre n) hd, part, hpart, hK _ _ hk, ?_⟩
          dsimp only
          rw [Disk.content_append_self, hd, List.append_assoc]
        · refine ⟨hG d part _ hk (hpre n) hd, part, hpart, hK _ _ hk, hf, n, ?_⟩
          rw [Disk.content_append_self, hd, List.append_assoc]
    · intro n
      apply Triple.ret
      rintro d ⟨part, hpart, hk, hd⟩
      refine ⟨part ++ remaining.take n, ?_, hk, hd⟩
      rw [hpart, List.append_assoc, List.take_append_drop]
    · rintro e d ⟨part, hpart, hk, hf, n, hd⟩
      refine ⟨part ++ remaining.take n, ?_, hk, hd, (fun h => by cases h), fun _ => hf⟩
      rw [hpart]
      exact (List.prefix_append_right_inj part).mpr (List.take_prefix _ _)

/-- A record is appended in part, and in full when all three steps succeed. -/
theorem writeRecord_triple {path : String} {payload c : Bytes} (hrefl : ∀ d, G d d)
    (hK : ∀ d x, K path d → K path (d.append path x))
    (hG : ∀ d part x, K path d → part ++ x <+: encodeRecord payload →
      d.content path = c ++ part → G d (d.append path x)) :
    Triple (machine faults New) Eq G (fun d => K path d ∧ d.content path = c)
      (WalWriter.writeRecord path payload)
      fun r d => ∃ part, part <+: encodeRecord payload ∧ K path d ∧ d.content path = c ++ part ∧
        (r = .ok () → part = encodeRecord payload) ∧ (r ≠ .ok () → faults) := by
  set header := writeLittleEndian (BitVec.ofNat 32 payload.length) (crc32 payload) with hheader
  have hencode : encodeRecord payload = header ++ payload := rfl
  have hwhole : ∀ {part : Bytes}, part <+: payload → header ++ part <+: encodeRecord payload := by
    intro part hpart
    rw [hencode]
    exact (List.prefix_append_right_inj _).mpr hpart
  have hfront : header <+: encodeRecord payload := hencode ▸ List.prefix_append _ _
  unfold WalWriter.writeRecord
  apply Triple.bind (writeAll_triple (c := c) hK fun d part x hk hpart hd =>
    hG d part x hk (hpart.trans hfront) hd)
  · intro _
    apply Triple.bind (J := fun r d => ∃ part, part <+: payload ∧ K path d ∧
      d.content path = (c ++ header) ++ part ∧ (r = .ok () → part = payload) ∧ (r ≠ .ok () → faults))
    · apply (writeAll_triple (c := c ++ header) hK fun d part x hk hpart hd => ?_).pre
      · rintro d ⟨part, -, hk, hd, hok, -⟩
        exact ⟨hk, by rw [hd, hok rfl]⟩
      · apply hG d (header ++ part) x hk
        · rw [List.append_assoc]
          exact hwhole hpart
        · rw [hd, List.append_assoc]
    · intro _
      apply Triple.perform
      · rintro d d' hd rfl
        exact hd
      · rintro d r d' ⟨part, -, hk, hd, hok, -⟩ ⟨hr, rfl⟩
        obtain rfl := hok rfl
        refine ⟨hrefl d', header ++ part, List.prefix_rfl, hk, ?_, fun _ => rfl, fun h => ?_⟩
        · rw [hd, List.append_assoc]
        · exact (hr.resolve_left h).1
    · rintro e d ⟨part, hpart, hk, hd, -, hf⟩
      exact ⟨header ++ part, hwhole hpart, hk, by rw [hd, List.append_assoc], (fun h => by cases h),
        fun _ => hf (fun h => by cases h)⟩
  · rintro e d ⟨part, hpart, hk, hd, -, hf⟩
    exact ⟨part, hpart.trans hfront, hk, hd, (fun h => by cases h), fun _ => hf (fun h => by cases h)⟩

/-- A new segment is opened under a name that is new, or the handle is closed. -/
theorem openNewSegment_triple {writer : WalWriter} {d₀ : Disk} (hrefl : ∀ d, G d d)
    (hseq : ∀ d, G d { d with sequence := d.sequence + 1 })
    (hopen : ∀ (d : Disk) path, d.walDir = d₀.walDir → New d.walDir path → G d (d.create path))
    (hK : ∀ (d : Disk) path, d.walDir = d₀.walDir → New d.walDir path → K path (d.create path)) :
    Triple (machine faults New) Eq G (fun d => d = d₀) writer.openNewSegment
      fun r d => ∃ writer' opened, r = .ok (writer', opened) ∧
        (∀ f, d.content f = d₀.content f) ∧ writer'.maxFileBytes = writer.maxFileBytes ∧
        match opened with
        | .ok () => New d₀.walDir writer'.currentPath ∧ K writer'.currentPath d ∧
            writer'.handle = true ∧ writer'.currentFileSize = 0
        | .error _ => faults ∧ writer'.handle = false := by
  unfold WalWriter.openNewSegment
  apply Triple.bind (J := fun r d => d = d₀ ∧ ∃ t, r = .ok t)
  · apply Triple.perform
    · rintro d d' hd rfl
      exact hd
    · rintro d r d' rfl ⟨t, rfl, rfl⟩
      exact ⟨hrefl _, rfl, t, rfl⟩
  · intro now
    apply Triple.bind (J := fun r d => d.walDir = d₀.walDir ∧ ∃ n, r = .ok n)
    · apply Triple.perform
      · rintro d d' hd rfl
        exact hd
      · rintro d r d' ⟨rfl, -⟩ ⟨rfl, rfl⟩
        exact ⟨hseq _, rfl, _, rfl⟩
    · intro sequence
      apply Triple.bind (J := fun r d => ∃ opened, r = .ok opened ∧
        (∀ f, d.content f = d₀.content f) ∧ match opened with
          | .ok () => New d₀.walDir (segmentName now sequence) ∧ K (segmentName now sequence) d
          | .error _ => faults)
      · apply Triple.attempt (J := fun opened d =>
          (∀ f, d.content f = d₀.content f) ∧ match opened with
            | .ok () => New d₀.walDir (segmentName now sequence) ∧ K (segmentName now sequence) d
            | .error _ => faults)
        · apply Triple.perform
          · rintro d d' hd rfl
            exact hd
          · rintro d r d' ⟨hd, -⟩ heff
            have hc : ∀ f, d.content f = d₀.content f := fun f => by rw [Disk.content, hd, Disk.content]
            rcases heff with ⟨hnew, rfl, rfl⟩ | ⟨hf, ⟨error, rfl⟩, rfl⟩
            · refine ⟨hopen d _ hd hnew, fun f => by rw [Disk.content_create, hc], ?_, hK d _ hd hnew⟩
              rw [← hd]
              exact hnew
            · exact ⟨hrefl _, hc, hf⟩
        · intro opened d hd
          exact ⟨opened, rfl, hd⟩
      · rintro (error | ⟨⟩)
        · apply Triple.ret
          rintro d ⟨opened, h, hc, hd⟩
          obtain rfl := Except.ok.inj h
          exact ⟨_, _, rfl, hc, rfl, hd, rfl⟩
        · apply Triple.ret
          rintro d ⟨opened, h, hc, hd⟩
          obtain rfl := Except.ok.inj h
          exact ⟨_, _, rfl, hc, rfl, hd.1, hd.2, rfl, rfl⟩
      · rintro e d ⟨opened, h, -⟩
        cases h
    · rintro e d ⟨-, n, h⟩
      cases h
  · rintro e d ⟨-, t, h⟩
    cases h

/-- `append` adds one whole record to the current segment, which is the one it
had before or a new one, or reports an error. -/
theorem append_triple {writer : WalWriter} {payload : Bytes} {d₀ : Disk} (hrefl : ∀ d, G d d)
    (hseq : ∀ d, G d { d with sequence := d.sequence + 1 })
    (hopen : ∀ (d : Disk) path, d.walDir = d₀.walDir → New d.walDir path → G d (d.create path))
    (hnew : ∀ (d : Disk) path, d.walDir = d₀.walDir → New d.walDir path → K path (d.create path))
    (hK : ∀ path d x, K path d → K path (d.append path x))
    (hwrite : ∀ path d part x, K path d →
      (writer.rotates (8 + payload.length) = false ∧ path = writer.currentPath ∨
        New d₀.walDir path) →
      part ++ x <+: encodeRecord payload → d.content path = d₀.content path ++ part →
      G d (d.append path x)) :
    Triple (machine faults New) Eq G
      (fun d => d = d₀ ∧ (writer.handle = true → K writer.currentPath d₀)) (writer.append payload)
      fun r d => ∃ writer' result, r = .ok (writer', result) ∧
        writer'.maxFileBytes = writer.maxFileBytes ∧
        (writer'.handle = true → K writer'.currentPath d) ∧
        (¬faults → payload.length < 2 ^ 32 → result = .ok ()) ∧
        (result = .ok () → payload.length < 2 ^ 32 ∧ K writer'.currentPath d ∧
          (writer.rotates (8 + payload.length) = false ∧ writer'.currentPath = writer.currentPath ∨
            New d₀.walDir writer'.currentPath) ∧
          d.content writer'.currentPath =
            d₀.content writer'.currentPath ++ encodeRecord payload) := by
  unfold WalWriter.append
  apply Triple.cond
  · intro hlarge
    apply Triple.ret
    rintro d ⟨rfl, hk⟩
    exact ⟨_, _, rfl, rfl, hk, fun _ h => by omega, fun h => by cases h⟩
  intro hsize
  dsimp only
  apply Triple.bind (J := fun r d => ∃ writer' opened, r = .ok (writer', opened) ∧
    (∀ f, d.content f = d₀.content f) ∧ writer'.maxFileBytes = writer.maxFileBytes ∧
    match opened with
    | .ok () => K writer'.currentPath d ∧
        (writer.rotates (8 + payload.length) = false ∧ writer'.currentPath = writer.currentPath ∨
          New d₀.walDir writer'.currentPath)
    | .error _ => faults ∧ writer'.handle = false)
  · apply Triple.cond
    · intro _
      apply ((openNewSegment_triple (K := K) hrefl hseq hopen hnew).pre fun d hd => hd.1).post
      rintro r d ⟨writer', opened, rfl, hc, hmax, h⟩
      refine ⟨writer', opened, rfl, hc, hmax, ?_⟩
      rcases opened with error | ⟨⟩
      · exact h
      · exact ⟨h.2.1, .inr h.1⟩
    · intro hrot
      have hrot : writer.rotates (8 + payload.length) = false := by simpa using hrot
      have hhandle : writer.handle = true := by
        unfold WalWriter.rotates at hrot
        cases hh : writer.handle
        · simp [hh] at hrot
        · rfl
      apply Triple.ret
      rintro d ⟨rfl, hk⟩
      exact ⟨_, _, rfl, fun _ => rfl, rfl, hk hhandle, .inl ⟨hrot, rfl⟩⟩
  · rintro ⟨writer', error | ⟨⟩⟩
    · apply Triple.ret
      rintro d ⟨_, _, h, hc, hmax, hd⟩
      obtain ⟨rfl, rfl⟩ := Prod.mk.inj (Except.ok.inj h)
      refine ⟨_, _, rfl, hmax, fun h => ?_, fun hf => absurd hd.1 hf, fun h => by cases h⟩
      rw [hd.2] at h
      cases h
    · dsimp only
      apply (Triple.assume (A := writer'.maxFileBytes = writer.maxFileBytes ∧
        (writer.rotates (8 + payload.length) = false ∧ writer'.currentPath = writer.currentPath ∨
          New d₀.walDir writer'.currentPath))
        (P := fun d => K writer'.currentPath d ∧
          d.content writer'.currentPath = d₀.content writer'.currentPath) ?_).pre
      · rintro d ⟨_, _, h, hc, hmax, hd⟩
        obtain ⟨rfl, rfl⟩ := Prod.mk.inj (Except.ok.inj h)
        exact ⟨⟨hmax, hd.2⟩, hd.1, hc _⟩
      rintro ⟨hmax, hpath⟩
      apply Triple.bind (J := fun r d => ∃ result, r = .ok result ∧ K writer'.currentPath d ∧
        (result ≠ .ok () → faults) ∧ (result = .ok () → d.content writer'.currentPath =
          d₀.content writer'.currentPath ++ encodeRecord payload))
      · apply Triple.attempt (writeRecord_triple hrefl (hK _) fun d part x hk hpart hd =>
          hwrite _ d part x hk hpath hpart hd)
        rintro r d ⟨part, -, hk, hd, hok, hf⟩
        exact ⟨r, rfl, hk, hf, fun h => by rw [hd, hok h]⟩
      · rintro (error | ⟨⟩)
        · apply Triple.ret
          rintro d ⟨_, h, hk, hf, -⟩
          obtain rfl := Except.ok.inj h
          have hf : faults := hf fun h => by cases h
          exact ⟨_, _, rfl, hmax, fun _ => hk, fun hn => absurd hf hn, fun h => by cases h⟩
        · apply Triple.ret
          rintro d ⟨_, h, hk, -, hd⟩
          obtain rfl := Except.ok.inj h
          exact ⟨_, _, rfl, hmax, fun _ => hk, fun _ _ => rfl, fun _ => ⟨by omega, hk, hpath, hd rfl⟩⟩
      · rintro e d ⟨_, h, -⟩
        cases h
  · rintro e d ⟨_, _, h, -⟩
    cases h

end Specification

/-- From `d₀` to `d` only the segment `path` has been written. -/
structure Disk.OnlyTouched (d₀ : Disk) (path : String) (d : Disk) : Prop where
  content : ∀ f, f ≠ path → d.content f = d₀.content f
  kept : ∀ f, f ∈ d₀.walDir → f ∈ d.walDir

theorem Disk.OnlyTouched.append {d₀ d : Disk} {path : String} (h : d₀.OnlyTouched path d)
    (data : Bytes) : d₀.OnlyTouched path (d.append path data) where
  content f hf := by rw [Disk.content_append_of_ne d data hf, h.content f hf]
  kept f hf := (AList.mem_insert _).mpr (.inr (h.kept f hf))

theorem Disk.OnlyTouched.create {d₀ d : Disk} (path : String) (h : d.walDir = d₀.walDir) :
    d₀.OnlyTouched path (d.create path) where
  content f _ := by rw [Disk.content_create, Disk.content, h, Disk.content]
  kept f hf := (AList.mem_insert _).mpr (.inr (h ▸ hf))

section Runs

variable {faults : Prop} {New : Table Bytes → String → Prop} {d d' : Disk}

/-- The operations of a program of the gateway only add bytes. -/
theorem grows_of_runs {α : Type} {p p' : Call α}
    (h : Prog.Runs (machine faults New) (p, d) (p', d')) : d.Grows d' := by
  have key : ∀ c : Call α × Disk, Prog.Runs (machine faults New) (p, d) c → d.Grows c.2 := by
    intro c hc
    induction hc with
    | refl => exact Disk.Grows.refl d
    | tail _ hstep ih =>
      cases hstep with
      | call hm => exact ih.trans (Effect.grows hm)
      | loop => exact ih
  exact key _ h

/-- What the constructor has done when it returns. -/
theorem construct_runs {maxFileBytes : Nat} {writer : WalWriter}
    (h : Prog.Runs (machine faults New) (WalWriter.construct maxFileBytes, d) (.ret writer, d')) :
    New d.walDir writer.currentPath ∧ d.OnlyTouched writer.currentPath d' ∧
      ∀ f, d'.content f = d.content f := by
  have htriple : Triple (machine faults New) Eq (fun _ _ => True) (fun x => x = d)
      (WalWriter.construct maxFileBytes) fun r x => ∀ writer, r = .ok writer →
        New d.walDir writer.currentPath ∧ d.OnlyTouched writer.currentPath x ∧
          ∀ f, x.content f = d.content f := by
    unfold WalWriter.construct
    apply Triple.bind (openNewSegment_triple (K := fun path x => d.OnlyTouched path x)
      (fun _ => trivial) (fun _ => trivial) (fun _ _ _ _ => trivial)
      fun x path hx _ => Disk.OnlyTouched.create path hx)
    · rintro ⟨writer, error | ⟨⟩⟩
      · apply Triple.raise
        intro x _ w hw
        cases hw
      · apply Triple.ret
        rintro x ⟨_, _, e, hc, -, hx⟩ w hw
        obtain ⟨rfl, rfl⟩ := Prod.mk.inj (Except.ok.inj e)
        obtain rfl := Except.ok.inj hw
        exact ⟨hx.1, hx.2.1, hc⟩
    · intro e x _ w hw
      cases hw
  obtain ⟨-, hpost⟩ := htriple.runs (I := fun _ => True) rfl trivial h
  exact hpost (.ok writer) rfl writer rfl

/-- What `append` has done when it returns. -/
theorem append_runs {writer writer' : WalWriter} {payload : Bytes} {result : Except String Unit}
    (h : Prog.Runs (machine faults New) (writer.append payload, d) (.ret (writer', result), d')) :
    (¬faults → payload.length < 2 ^ 32 → result = .ok ()) ∧
    (result = .ok () → payload.length < 2 ^ 32 ∧ d.OnlyTouched writer'.currentPath d' ∧
      (writer.rotates (8 + payload.length) = false ∧ writer'.currentPath = writer.currentPath ∨
        New d.walDir writer'.currentPath) ∧
      d'.content writer'.currentPath = d.content writer'.currentPath ++ encodeRecord payload) := by
  have htriple := @append_triple faults New (fun _ _ => True) (fun path x => d.OnlyTouched path x)
    writer payload d (fun _ => trivial) (fun _ => trivial) (fun _ _ _ _ => trivial)
    (fun x path hx _ => Disk.OnlyTouched.create path hx) (fun path x data hx => hx.append data)
    (fun _ _ _ _ _ _ _ _ => trivial)
  obtain ⟨-, hpost⟩ := htriple.runs (I := fun _ => True)
    ⟨rfl, fun _ => ⟨fun _ _ => rfl, fun _ hf => hf⟩⟩ trivial h
  obtain ⟨_, _, e, -, -, hnf, hok⟩ := hpost (.ok (writer', result)) rfl
  obtain ⟨rfl, rfl⟩ := Prod.mk.inj (Except.ok.inj e)
  exact ⟨hnf, hok⟩

/-- One way for the operations to go: all succeed at once, except that a write
fails after `torn` bytes when there is such a number. -/
def exec (torn : Option Nat) : {α : Type} → Op α → Disk → Option (Except String α × Disk)
  | _, .now, d => some (.ok 1, d)
  | _, .fetchAdd, d => some (.ok d.sequence, { d with sequence := d.sequence + 1 })
  | _, .openSegment path, d => if path ∈ d.walDir then none else some (.ok (), d.create path)
  | _, .write path data, d =>
    match torn with
    | none => if data = [] then none else some (.ok data.length, d.append path data)
    | some n => some (.error "No space left on device", d.append path (data.take n))
  | _, .fsync _, d => some (.ok (), d)

theorem exec_effect {torn : Option Nat} (ht : torn = none ∨ faults) {α : Type} (o : Op α)
    (r : Except String α) (h : exec torn o d = some (r, d')) : Effect faults Unused o d r d' := by
  cases o with
  | now =>
    obtain ⟨rfl, rfl⟩ := Prod.mk.inj (Option.some.inj h)
    exact ⟨1, rfl, rfl⟩
  | fetchAdd =>
    obtain ⟨rfl, rfl⟩ := Prod.mk.inj (Option.some.inj h)
    exact ⟨rfl, rfl⟩
  | openSegment path =>
    by_cases hp : path ∈ d.walDir
    · simp [exec, hp] at h
    · simp only [exec, if_neg hp] at h
      obtain ⟨rfl, rfl⟩ := Prod.mk.inj (Option.some.inj h)
      exact .inl ⟨hp, rfl, rfl⟩
  | write path data =>
    rcases torn with _ | n
    · by_cases hd : data = []
      · simp [exec, hd] at h
      · simp only [exec, if_neg hd] at h
        obtain ⟨rfl, rfl⟩ := Prod.mk.inj (Option.some.inj h)
        have hlen : 0 < data.length := List.length_pos_of_ne_nil hd
        exact .inl ⟨data.length, hlen, Nat.le_refl _, rfl, by rw [List.take_length]⟩
    · obtain ⟨rfl, rfl⟩ := Prod.mk.inj (Option.some.inj h)
      exact .inr ⟨ht.resolve_left (by simp), _, n, rfl, rfl⟩
  | fsync path =>
    obtain ⟨rfl, rfl⟩ := Prod.mk.inj (Option.some.inj h)
    exact ⟨.inl rfl, rfl⟩

theorem exec_runs (torn : Option Nat) (ht : torn = none ∨ faults) (n : Nat) {α : Type}
    (c : Call α × Disk) : Prog.Runs (machine faults Unused) c (Prog.follow (exec torn) n c) :=
  Prog.follow_runs (fun o _ r _ h => exec_effect ht o r h) n c

end Runs

end Lrcp.Gateway
