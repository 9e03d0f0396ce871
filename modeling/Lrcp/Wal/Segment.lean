import Lrcp.Wal.Crc32
import Mathlib.Data.List.AList
import Mathlib.Data.List.Sort
import Mathlib.Data.Prod.Lex
import Mathlib.Data.String.Basic

namespace Lrcp.Wal

/-- A table with a primary key, or a directory: at most one value for each name. -/
abbrev Table (α : Type) := AList fun _ : String => α

/-- The characters of value zero of the Unicode decimal digits, which `\d` and
`int` take in whole blocks of ten. -/
def decimalZeros : List Nat :=
  [0x30, 0x660, 0x6F0, 0x7C0, 0x966, 0x9E6, 0xA66, 0xAE6, 0xB66, 0xBE6, 0xC66, 0xCE6, 0xD66, 0xDE6,
   0xE50, 0xED0, 0xF20, 0x1040, 0x1090, 0x17E0, 0x1810, 0x1946, 0x19D0, 0x1A80, 0x1A90, 0x1B50,
   0x1BB0, 0x1C40, 0x1C50, 0xA620, 0xA8D0, 0xA900, 0xA9D0, 0xA9F0, 0xAA50, 0xABF0, 0xFF10, 0x104A0,
   0x10D30, 0x11066, 0x110F0, 0x11136, 0x111D0, 0x112F0, 0x11450, 0x114D0, 0x11650, 0x116C0,
   0x11730, 0x118E0, 0x11950, 0x11C50, 0x11D50, 0x11DA0, 0x11F50, 0x16A60, 0x16AC0, 0x16B50,
   0x1D7CE, 0x1D7D8, 0x1D7E2, 0x1D7EC, 0x1D7F6, 0x1E140, 0x1E2F0, 0x1E4F0, 0x1E950, 0x1FBF0]

def decimalDigit (c : Char) : Option Nat :=
  (decimalZeros.find? fun z => z ≤ c.toNat && c.toNat < z + 10).map fun z => c.toNat - z

/-- `int(match.group(i))` for a group `(\d+)` -/
def parseDigits (cs : List Char) : Option Nat :=
  if cs = [] then none
  else cs.foldlM (fun n c => (decimalDigit c).map (n * 10 + ·)) 0

/-- `path.name.endswith(suffix)`, which is what the patterns `*.wal`, `*.tmp` and
`*.parquet` ask for. -/
def hasSuffix (suffix name : String) : Bool := suffix.toList.isSuffixOf name.toList

/-- What stands between `wal-` and `.wal`, cut at the dashes. -/
def walKeyParts (name : String) : List (List Char) :=
  let cs := name.toList
  if "wal-".toList.isPrefixOf cs && ".wal".toList.isSuffixOf cs then
    ((cs.drop 4).take (cs.length - 8)).splitOn '-'
  else []

/-- The keys by which segments are sorted, in lexicographic order. -/
abbrev WalKey := Nat ×ₗ Nat ×ₗ String

/-- `_parse_wal_key`. The names are those that `*.wal` matches, so no line feed
follows the suffix. -/
def parseWalKey (name : String) : WalKey :=
  match walKeyParts name with
  | [timestamp, sequence] =>
    match parseDigits timestamp, parseDigits sequence with
    | some t, some s => toLex (t, toLex (s, name))
    | _, _ => toLex (0, toLex (0, name))
  | [sequence] =>
    match parseDigits sequence with
    | some s => toLex (0, toLex (s, name))
    | none => toLex (0, toLex (0, name))
  | _ => toLex (0, toLex (0, name))

/-- `sorted(wal_dir.glob("*.wal"), key=_parse_wal_key)` -/
def sortSegments (names : List String) : List String :=
  names.insertionSort fun a b => parseWalKey a ≤ parseWalKey b

/-- The name that `WalWriter::open_new_segment` makes of a clock reading and a sequence number. -/
def segmentName (now : Int) (sequence : Nat) : String := s!"wal-{now}-{sequence}.wal"

theorem parseWalKey_name (name : String) : (ofLex (ofLex (parseWalKey name)).2).2 = name := by
  unfold parseWalKey
  split
  · split <;> rfl
  · split <;> rfl
  · rfl

theorem parseWalKey_injective : Function.Injective parseWalKey := by
  intro a b h
  rw [← parseWalKey_name a, h, parseWalKey_name]

theorem mem_sortSegments {f : String} {names : List String} : f ∈ sortSegments names ↔ f ∈ names :=
  (List.perm_insertionSort _ names).mem_iff

theorem nodup_sortSegments {names : List String} (h : names.Nodup) : (sortSegments names).Nodup :=
  (List.perm_insertionSort _ names).nodup_iff.mpr h

theorem sorted_sortSegments {names : List String} (h : names.Nodup) :
    (sortSegments names).Pairwise fun f g => parseWalKey f < parseWalKey g := by
  have hsorted : (sortSegments names).Pairwise fun f g => parseWalKey f ≤ parseWalKey g :=
    List.pairwise_insertionSort _ names
  refine (hsorted.and (nodup_sortSegments h)).imp fun {f g} hfg => ?_
  exact lt_of_le_of_ne hfg.1 fun hkey => hfg.2 (parseWalKey_injective hkey)

/-- Every segment but the last one has a segment with a larger key. -/
theorem lt_getLast_sortSegments {f active : String} {names : List String} (hf : f ∈ names)
    (ha : (sortSegments names).getLast? = some active) (hne : f ≠ active) :
    active ∈ names ∧ parseWalKey f < parseWalKey active := by
  have hmem : active ∈ sortSegments names := List.mem_of_getLast? ha
  refine ⟨mem_sortSegments.mp hmem, ?_⟩
  have hsorted : (sortSegments names).Pairwise fun a b => parseWalKey a ≤ parseWalKey b :=
    List.pairwise_insertionSort _ names
  obtain ⟨front, hfront⟩ : ∃ front, sortSegments names = front ++ [active] := by
    obtain ⟨front, h⟩ := List.getLast?_eq_some_iff.mp ha
    exact ⟨front, h⟩
  rw [hfront, List.pairwise_append] at hsorted
  have hf' : f ∈ front := by
    have h := mem_sortSegments.mpr hf
    rw [hfront] at h
    simpa [hne] using h
  have hle := hsorted.2.2 f hf' active (by simp)
  refine lt_of_le_of_ne hle fun h => hne (parseWalKey_injective h)

theorem decimalDigit_digitChar {d : Nat} (h : d < 10) : decimalDigit (Nat.digitChar d) = some d := by
  have hall : ∀ d < 10, decimalDigit (Nat.digitChar d) = some d := by decide
  exact hall d h

theorem parseDigits_toDigits (n : Nat) : parseDigits (Nat.toDigits 10 n) = some n := by
  have hfold : (Nat.toDigits 10 n).foldlM (fun n c => (decimalDigit c).map (n * 10 + ·)) 0 = some n := by
    induction n using Nat.strongRecOn with
    | ind n ih =>
      rw [Nat.toDigits_eq_if (by decide)]
      split_ifs with h
      · simp [decimalDigit_digitChar h]
      · have hlast : n % 10 < 10 := Nat.mod_lt _ (by decide)
        rw [List.foldlM_append, ih (n / 10) (by omega)]
        simp [decimalDigit_digitChar hlast]
        omega
  rw [parseDigits, if_neg Nat.toDigits_ne_nil, hfold]

theorem toList_segmentName (now sequence : Nat) : (segmentName now sequence).toList =
    ['w', 'a', 'l', '-'] ++ (Nat.toDigits 10 now ++ '-' :: Nat.toDigits 10 sequence) ++
      ['.', 'w', 'a', 'l'] := by
  have hnow : toString (now : Int) = String.ofList (Nat.toDigits 10 now) := Nat.toString_eq_ofList_toDigits
  unfold segmentName
  rw [hnow, Nat.toString_eq_ofList_toDigits]
  iterate 4 rw [String.toList_append]
  have hwal : (toString "wal-").toList = ['w', 'a', 'l', '-'] := rfl
  have hdash : (toString "-").toList = ['-'] := rfl
  have hsuffix : (toString ".wal").toList = ['.', 'w', 'a', 'l'] := rfl
  rw [String.toList_ofList, String.toList_ofList, hwal, hdash, hsuffix]
  simp

theorem dash_notMem_toDigits (n : Nat) : '-' ∉ Nat.toDigits 10 n := by
  intro h
  have hdigit := Nat.isDigit_of_mem_toDigits (by decide) (by decide) h
  revert hdigit
  decide

/-- The reader's key of a segment is what the writer made its name of. -/
theorem parseWalKey_segmentName (now sequence : Nat) : parseWalKey (segmentName now sequence) =
    toLex (now, toLex (sequence, segmentName now sequence)) := by
  have hparts : walKeyParts (segmentName now sequence) =
      [Nat.toDigits 10 now, Nat.toDigits 10 sequence] := by
    have hwal : "wal-".toList = ['w', 'a', 'l', '-'] := rfl
    have hsuffix : ".wal".toList = ['.', 'w', 'a', 'l'] := rfl
    have hmiddle : ∀ cs : List Char, (('w' :: 'a' :: 'l' :: '-' :: (cs ++ ['.', 'w', 'a', 'l'])).drop 4).take
        (('w' :: 'a' :: 'l' :: '-' :: (cs ++ ['.', 'w', 'a', 'l'])).length - 8) = cs := by
      intro cs
      simp
    have hsplit : (Nat.toDigits 10 now ++ '-' :: Nat.toDigits 10 sequence).splitOn '-' =
        [Nat.toDigits 10 now, Nat.toDigits 10 sequence] := by
      have h := @List.splitOn_intercalate _ [Nat.toDigits 10 now, Nat.toDigits 10 sequence] _ _ '-'
        (by simp [dash_notMem_toDigits]) (by simp)
      simpa [List.intercalate] using h
    have hname : (segmentName now sequence).toList = 'w' :: 'a' :: 'l' :: '-' ::
        ((Nat.toDigits 10 now ++ '-' :: Nat.toDigits 10 sequence) ++ ['.', 'w', 'a', 'l']) := by
      rw [toList_segmentName]
      simp
    have hfront : "wal-".toList.isPrefixOf (segmentName now sequence).toList = true := by
      rw [hname, hwal]
      rfl
    have hends : ".wal".toList.isSuffixOf (segmentName now sequence).toList = true := by
      rw [List.isSuffixOf_iff_suffix, hname, hsuffix]
      exact ⟨'w' :: 'a' :: 'l' :: '-' :: (Nat.toDigits 10 now ++ '-' :: Nat.toDigits 10 sequence), by simp⟩
    unfold walKeyParts
    dsimp only
    rw [hfront, hends, if_pos (by rfl), hname, hmiddle, hsplit]
  unfold parseWalKey
  rw [hparts]
  simp only [parseDigits_toDigits]

theorem segmentName_inj {now : Int} {now' sequence sequence' : Nat}
    (h : segmentName now sequence = segmentName now' sequence') : now = now' ∧ sequence = sequence' := by
  cases now with
  | ofNat n =>
    have hkey := congrArg parseWalKey h
    rw [Int.ofNat_eq_natCast, parseWalKey_segmentName, parseWalKey_segmentName] at hkey
    obtain ⟨hnow, hrest⟩ := Prod.mk.inj (toLex.injective hkey)
    obtain ⟨hsequence, -⟩ := Prod.mk.inj (toLex.injective hrest)
    exact ⟨congrArg _ hnow, hsequence⟩
  | negSucc n =>
    have hlist := congrArg String.toList h
    rw [toList_segmentName] at hlist
    unfold segmentName at hlist
    have hnow : toString (Int.negSucc n) = "-" ++ toString (n + 1) := rfl
    have hwal : (toString "wal-").toList = ['w', 'a', 'l', '-'] := rfl
    have hdash : "-".toList = ['-'] := rfl
    rw [hnow] at hlist
    simp only [String.toList_append, hwal, hdash, List.append_assoc, List.cons_append, List.nil_append,
      List.cons.injEq, true_and] at hlist
    obtain ⟨d, ds, hdigits⟩ := List.exists_cons_of_ne_nil (Nat.toDigits_ne_nil (b := 10) (n := now'))
    rw [hdigits, List.cons_append, List.cons.injEq] at hlist
    have hmem : '-' ∈ Nat.toDigits 10 now' := by
      rw [hdigits, hlist.1]
      exact List.mem_cons_self
    exact absurd hmem (dash_notMem_toDigits now')

example : parseWalKey "wal-7-2.wal" < parseWalKey "wal-7-10.wal" := by decide

example : sortSegments ["wal-10.wal", "wal-9-0.wal", "x.wal"] = ["x.wal", "wal-10.wal", "wal-9-0.wal"] := by
  decide

end Lrcp.Wal
