import Lrcp.Store.Materializer

namespace Lrcp.Store

open Lrcp.Wal (Bytes)
open Lrcp.Otlp

/-- The names that one draw of a timestamp and an identifier can give to a file. -/
def generated (libs : Libs) (n : Nat) : List String :=
  [spansFilename (libs.timestamp n) (libs.uuid4Hex n),
   spansTempPath (libs.timestamp n) (libs.uuid4Hex n),
   compactedFilename (libs.timestamp n) (libs.uuid4Hex n),
   compactedTempPath (libs.timestamp n) (libs.uuid4Hex n)]

/-- Every draw gives new names. -/
structure FreshNames (libs : Libs) : Prop where
  nodup : ∀ n, (generated libs n).Nodup
  disjoint : ∀ n m, n ≠ m → (generated libs n).Disjoint (generated libs m)

section Stamped

variable {a b x y : List Char}

theorem stamped_inj (ha : '-' ∉ a) (hb : '-' ∉ b) (h : a ++ '-' :: x = b ++ '-' :: y) : a = b := by
  induction a generalizing b with
  | nil =>
    cases b with
    | nil => rfl
    | cons d b =>
      obtain ⟨rfl, -⟩ := List.cons.inj h
      simp at hb
  | cons c a ih =>
    cases b with
    | nil =>
      obtain ⟨rfl, -⟩ := List.cons.inj h
      simp at ha
    | cons d b =>
      obtain ⟨rfl, hrest⟩ := List.cons.inj h
      rw [List.mem_cons, not_or] at ha hb
      rw [ih ha.2 hb.2 hrest]

/-- The characters of a timestamp such as `20250131T235959000001Z`. -/
def Plain (cs : List Char) : Prop := ∀ c ∈ cs, c.isDigit ∨ c.isUpper

/-- What the names of one kind begin with. -/
inductive Stem : List Char → Prop
  | spans : Stem ['s', 'p', 'a', 'n', 's', '-']
  | temp : Stem ['t', 'm', 'p', '-']
  | compacted : Stem ['s', 'p', 'a', 'n', 's', '-', 'c', 'o', 'm', 'p', 'a', 'c', 't', 'e', 'd', '-']
  | compactedTemp : Stem ['t', 'm', 'p', '-', 's', 'p', 'a', 'n', 's', '-',
      'c', 'o', 'm', 'p', 'a', 'c', 't', 'e', 'd', '-']

theorem Plain.not_mem_dash (h : Plain a) : '-' ∉ a := by
  intro hm
  have := h '-' hm
  revert this
  decide

theorem Plain.ne_cons (h : Plain a) {c : Char} (hc : c.isDigit = false ∧ c.isUpper = false ∧ c ≠ '-') :
    a ++ '-' :: x ≠ c :: y := by
  intro he
  cases a with
  | nil => exact hc.2.2 (List.cons.inj he).1.symm
  | cons d a =>
    obtain ⟨rfl, -⟩ := List.cons.inj he
    have := h d (by simp)
    rw [hc.1, hc.2.1] at this
    simp at this

/-- A name tells its kind and its timestamp. -/
theorem stem_inj {k l : List Char} (hk : Stem k) (hl : Stem l) (ha : Plain a) (hb : Plain b)
    (h : k ++ (a ++ '-' :: x) = l ++ (b ++ '-' :: y)) : k = l ∧ a = b := by
  have hsame : ∀ k : List Char, k ++ (a ++ '-' :: x) = k ++ (b ++ '-' :: y) → a = b := fun k h =>
    stamped_inj ha.not_mem_dash hb.not_mem_dash (List.append_cancel_left h)
  have hc : 'c'.isDigit = false ∧ 'c'.isUpper = false ∧ 'c' ≠ '-' := by decide
  have hs : 's'.isDigit = false ∧ 's'.isUpper = false ∧ 's' ≠ '-' := by decide
  cases hk <;> cases hl <;>
    simp only [List.cons_append, List.nil_append, List.cons.injEq, Char.reduceEq, true_and, false_and] at h
  all_goals first
    | exact h.elim
    | exact ⟨rfl, stamped_inj ha.not_mem_dash hb.not_mem_dash h⟩
    | exact (ha.ne_cons hc h).elim
    | exact (hb.ne_cons hc h.symm).elim
    | exact (ha.ne_cons hs h).elim
    | exact (hb.ne_cons hs h.symm).elim

/-- The name begins with `k` and the timestamp. -/
def Stamped (timestamp name : String) (k : List Char) : Prop :=
  Stem k ∧ ∃ x, name.toList = k ++ (timestamp.toList ++ '-' :: x)

theorem stamped_append {k : List Char} (stem timestamp rest : String) (hk : stem.toList = k)
    (hstem : Stem k) : Stamped timestamp (stem ++ timestamp ++ "-" ++ rest) k := by
  refine ⟨hstem, rest.toList, ?_⟩
  have hdash : "-".toList = ['-'] := rfl
  rw [String.toList_append, String.toList_append, String.toList_append, hk, hdash, List.append_assoc,
    List.append_assoc, List.singleton_append]

theorem stamped_compactedTempPath (timestamp uuid : String) :
    Stamped timestamp (compactedTempPath timestamp uuid)
      ['t', 'm', 'p', '-', 's', 'p', 'a', 'n', 's', '-', 'c', 'o', 'm', 'p', 'a', 'c', 't', 'e', 'd',
        '-'] := by
  have htoList : (compactedTempPath timestamp uuid).toList = "tmp-".toList ++
      ("spans-compacted-".toList ++ (timestamp.toList ++ ("-".toList ++
        ((hexPrefix 8 uuid).toList ++ (".parquet".toList ++ ".tmp".toList))))) := by
    unfold compactedTempPath compactedFilename
    iterate 6 rw [String.toList_append]
    simp only [List.append_assoc]
  have htmp : "tmp-".toList = ['t', 'm', 'p', '-'] := rfl
  have hstem : "spans-compacted-".toList =
      ['s', 'p', 'a', 'n', 's', '-', 'c', 'o', 'm', 'p', 'a', 'c', 't', 'e', 'd', '-'] := rfl
  have hdash : "-".toList = ['-'] := rfl
  rw [htmp, hstem, hdash] at htoList
  exact ⟨.compactedTemp, _, htoList⟩

end Stamped

variable {libs : Libs}

/-- The names of a draw, kind by kind. -/
theorem generated_stamped (n : Nat) :
    List.Forall₂ (Stamped (libs.timestamp n)) (generated libs n)
      [['s', 'p', 'a', 'n', 's', '-'], ['t', 'm', 'p', '-'],
        ['s', 'p', 'a', 'n', 's', '-', 'c', 'o', 'm', 'p', 'a', 'c', 't', 'e', 'd', '-'],
        ['t', 'm', 'p', '-', 's', 'p', 'a', 'n', 's', '-', 'c', 'o', 'm', 'p', 'a', 'c', 't', 'e', 'd',
          '-']] := by
  have hspans := stamped_append (k := ['s', 'p', 'a', 'n', 's', '-']) "spans-" (libs.timestamp n)
    (hexPrefix 12 (libs.uuid4Hex n) ++ ".parquet") rfl .spans
  have htemp := stamped_append (k := ['t', 'm', 'p', '-']) "tmp-" (libs.timestamp n)
    (hexPrefix 12 (libs.uuid4Hex n) ++ ".parquet.tmp") rfl .temp
  have hcompacted := stamped_append (k := ['s', 'p', 'a', 'n', 's', '-', 'c', 'o', 'm', 'p', 'a', 'c',
    't', 'e', 'd', '-']) "spans-compacted-" (libs.timestamp n)
    (hexPrefix 8 (libs.uuid4Hex n) ++ ".parquet") rfl .compacted
  unfold generated
  refine .cons ?_ (.cons ?_ (.cons ?_ (.cons ?_ .nil)))
  · rw [← String.append_assoc] at hspans
    exact hspans
  · rw [← String.append_assoc] at htemp
    exact htemp
  · rw [← String.append_assoc] at hcompacted
    exact hcompacted
  · exact stamped_compactedTempPath _ _

theorem Stamped.mem {timestamp name : String} {names : List String} {ks : List (List Char)}
    (h : List.Forall₂ (Stamped timestamp) names ks) (hname : name ∈ names) :
    ∃ k ∈ ks, Stamped timestamp name k := by
  induction h with
  | nil => cases hname
  | @cons a k names ks hak _ ih =>
    rcases List.mem_cons.mp hname with rfl | hname
    · exact ⟨k, by simp, hak⟩
    · obtain ⟨l, hl, hs⟩ := ih hname
      exact ⟨l, by simp [hl], hs⟩

theorem Stamped.nodup {timestamp : String} (hplain : Plain timestamp.toList) {names : List String}
    {ks : List (List Char)} (h : List.Forall₂ (Stamped timestamp) names ks) (hks : ks.Nodup) :
    names.Nodup := by
  induction h with
  | nil => exact List.nodup_nil
  | @cons a k names ks hak hrest ih =>
    rw [List.nodup_cons] at hks ⊢
    refine ⟨fun hmem => hks.1 ?_, ih hks.2⟩
    obtain ⟨l, hl, hs⟩ := Stamped.mem hrest hmem
    obtain ⟨hk, x, hx⟩ := hak
    obtain ⟨hl', y, hy⟩ := hs
    rw [hx] at hy
    exact (stem_inj hk hl' hplain hplain hy).1 ▸ hl

/-- Different timestamps give different names. -/
theorem freshNames (hplain : ∀ n, Plain (libs.timestamp n).toList)
    (hinj : Function.Injective libs.timestamp) : FreshNames libs where
  nodup n := Stamped.nodup (hplain n) (generated_stamped n) (by decide)
  disjoint n m hnm f hf hg := by
    obtain ⟨k, -, hk, x, hx⟩ := Stamped.mem (generated_stamped n) hf
    obtain ⟨l, -, hl, y, hy⟩ := Stamped.mem (generated_stamped m) hg
    rw [hx] at hy
    have heq := (stem_inj hk hl (hplain n) (hplain m) hy).2
    exact hnm (hinj (String.toList_injective heq))

/-- A span whose fields are all unset. -/
def bareSpan : Span where
  traceId := []
  spanId := []
  parentSpanId := []
  name := ""
  kind := 0
  startTimeUnixNano := 0
  endTimeUnixNano := 0
  attributes := []
  events := []
  links := []
  statusCode := 0
  statusMessage := ""
  traceState := ""
  flags := 0
  droppedAttributesCount := 0
  droppedEventsCount := 0
  droppedLinksCount := 0

def spanRequest (span : Span) : Request := ⟨[⟨[], [⟨"", "", [span]⟩]⟩]⟩

/-- The encoding of a request with one bare span. -/
def spanPayload : Bytes := [0x0a, 0x04, 0x12, 0x02, 0x12, 0x00]

/-- The same with `start_time_unix_nano` set to `2 ^ 63`. -/
def lateSpanPayload : Bytes :=
  [0x0a, 0x0d, 0x12, 0x0b, 0x12, 0x09, 0x39, 0x00, 0x00, 0x00, 0x00, 0x00, 0x00, 0x00, 0x80]

/-- The encoding of a request with one empty `ResourceSpans`. -/
def spanlessPayload : Bytes := [0x0a, 0x00]

/-- The libraries as they behave on these payloads. -/
def sampleLibs : Libs where
  parseFromString payload :=
    if payload = [] then some ⟨[]⟩
    else if payload = spanlessPayload then some ⟨[⟨[], []⟩]⟩
    else if payload = spanPayload then some (spanRequest bareSpan)
    else if payload = lateSpanPayload then
      some (spanRequest { bareSpan with startTimeUnixNano := 0x8000000000000000 })
    else none
  jsonDumps value :=
    match value with
    | .dict [] => "\x7b\x7d"
    | _ => "[]"
  strOf _ := ""
  conversionError := .overflowError "Python int too large to convert to C long"
  timestamp n := .ofList (List.replicate n 'T')
  uuid4Hex _ := "0123456789abcdef0123456789abcdef"

theorem sampleLibs_freshNames : FreshNames sampleLibs := by
  apply freshNames
  · intro n c hc
    change c ∈ (String.ofList (List.replicate n 'T')).toList at hc
    rw [String.toList_ofList] at hc
    rw [List.eq_of_mem_replicate hc]
    exact .inr (by decide)
  · intro n m h
    have hof : String.ofList (List.replicate n 'T') = String.ofList (List.replicate m 'T') := h
    have hlists : List.replicate n 'T' = List.replicate m 'T' := by
      rw [← String.toList_ofList (l := List.replicate n 'T'), hof, String.toList_ofList]
    simpa using congrArg List.length hlists

end Lrcp.Store
