import Lrcp.Otlp.Rows
import Mathlib.Data.List.Nodup
import Mathlib.Data.List.Sort

namespace Lrcp.Otlp

mutual

/-- The keys within each list are distinct, at every depth. -/
def AnyValue.Keyed : AnyValue → Prop
  | .array values => KeyedItems values
  | .kvlist values => (values.map Prod.fst).Nodup ∧ KeyedPairs values
  | _ => True

def KeyedItems : List AnyValue → Prop
  | [] => True
  | v :: vs => v.Keyed ∧ KeyedItems vs

def KeyedPairs : List (String × AnyValue) → Prop
  | [] => True
  | (_, v) :: kvs => v.Keyed ∧ KeyedPairs kvs

end

mutual

/-- Equal up to the order of the keys within a list, at every depth. -/
def AnyValue.Same : AnyValue → AnyValue → Prop
  | .array vs, .array ws => SameItems vs ws
  | .kvlist kvs, .kvlist kws => ∃ kvs', kvs'.Perm kws ∧ SamePairs kvs kvs'
  | v, w => v = w

def SameItems : List AnyValue → List AnyValue → Prop
  | [], [] => True
  | v :: vs, w :: ws => v.Same w ∧ SameItems vs ws
  | _, _ => False

def SamePairs : List (String × AnyValue) → List (String × AnyValue) → Prop
  | [], [] => True
  | (k, v) :: kvs, (k', w) :: kws => k = k' ∧ v.Same w ∧ SamePairs kvs kws
  | _, _ => False

end

mutual

/-- Equal up to the order of the items of dictionaries, at every depth. -/
def PyValue.Same : PyValue → PyValue → Prop
  | .list s, .list t => SameList s t
  | .dict s, .dict t => ∃ s', s'.Perm t ∧ SameDict s s'
  | s, t => s = t

def SameList : List PyValue → List PyValue → Prop
  | [], [] => True
  | s :: ss, t :: ts => s.Same t ∧ SameList ss ts
  | _, _ => False

def SameDict : List (String × PyValue) → List (String × PyValue) → Prop
  | [], [] => True
  | (k, s) :: ss, (k', t) :: ts => k = k' ∧ s.Same t ∧ SameDict ss ts
  | _, _ => False

end

mutual

/-- A value as its text shows it: a value that is not set as the empty string, and
bytes as the string of their hexadecimal digits. -/
def AnyValue.shown : AnyValue → AnyValue
  | .unset => .string ""
  | .bytes b => .string (String.ofList (hexDigits b))
  | .array values => .array (shownItems values)
  | .kvlist values => .kvlist (shownPairs values)
  | v => v

def shownItems : List AnyValue → List AnyValue
  | [] => []
  | v :: vs => v.shown :: shownItems vs

def shownPairs : List (String × AnyValue) → List (String × AnyValue)
  | [] => []
  | (k, v) :: kvs => (k, v.shown) :: shownPairs kvs

end

mutual

/-- The value that a Python value is read back as. -/
def PyValue.readBack : PyValue → AnyValue
  | .str s => .string s
  | .bool b => .bool b
  | .int i => .int (Int64.ofInt i)
  | .float bits => .double bits
  | .list items => .array (readBackItems items)
  | .dict items => .kvlist (readBackPairs items)

def readBackItems : List PyValue → List AnyValue
  | [] => []
  | s :: ss => s.readBack :: readBackItems ss

def readBackPairs : List (String × PyValue) → List (String × AnyValue)
  | [] => []
  | (k, s) :: ss => (k, s.readBack) :: readBackPairs ss

end

section Dictionaries

variable {α : Type}

theorem dictSet_new {key : String} {value : α} : ∀ {d : List (String × α)},
    key ∉ d.map Prod.fst → dictSet key value d = d ++ [(key, value)]
  | [], _ => rfl
  | (k, v) :: d, h => by
    simp only [List.map_cons, List.mem_cons, not_or] at h
    simp only [dictSet, if_neg (Ne.symm h.1), List.cons_append, dictSet_new h.2]

private theorem foldl_dictSet : ∀ (items d : List (String × α)),
    ((d ++ items).map Prod.fst).Nodup →
      items.foldl (fun d kv => dictSet kv.1 kv.2 d) d = d ++ items
  | [], d, _ => (List.append_nil d).symm
  | (k, v) :: items, d, h => by
    have hnew : k ∉ d.map Prod.fst := by
      intro hk
      rw [List.map_append, List.nodup_append] at h
      exact h.2.2 k hk k (by simp) rfl
    rw [List.foldl_cons, dictSet_new hnew, foldl_dictSet items (d ++ [(k, v)]) (by simpa using h)]
    simp

/-- Distinct keys are kept with their order. -/
theorem dictOf_nodup {items : List (String × α)} (h : (items.map Prod.fst).Nodup) :
    dictOf items = items := by
  unfold dictOf
  rw [foldl_dictSet items [] (by simpa using h), List.nil_append]

end Dictionaries

theorem attributePairs_keys : ∀ kvs : List (String × AnyValue),
    (attributePairs kvs).map Prod.fst = kvs.map Prod.fst
  | [] => by simp [attributePairs]
  | (k, v) :: kvs => by simp [attributePairs, attributePairs_keys kvs]

theorem readBackPairs_eq_map : ∀ items : List (String × PyValue),
    readBackPairs items = items.map fun kv => (kv.1, kv.2.readBack)
  | [] => by simp [readBackPairs]
  | (k, s) :: ss => by simp [readBackPairs, readBackPairs_eq_map ss]

mutual

/-- Reading back undoes `_attribute_value` as far as it can be undone. -/
theorem readBack_attributeValue : ∀ v : AnyValue, v.Keyed → (attributeValue v).readBack = v.shown
  | .unset, _ => by simp [attributeValue, PyValue.readBack, AnyValue.shown]
  | .string s, _ => by simp [attributeValue, PyValue.readBack, AnyValue.shown]
  | .bool b, _ => by simp [attributeValue, PyValue.readBack, AnyValue.shown]
  | .int i, _ => by simp [attributeValue, PyValue.readBack, AnyValue.shown]
  | .double bits, _ => by simp [attributeValue, PyValue.readBack, AnyValue.shown]
  | .bytes b, _ => by simp [attributeValue, PyValue.readBack, AnyValue.shown]
  | .array values, h => by
    simp only [AnyValue.Keyed] at h
    simp only [attributeValue, PyValue.readBack, AnyValue.shown, readBack_attributeItems values h]
  | .kvlist values, h => by
    simp only [AnyValue.Keyed] at h
    have hdict : dictOf (attributePairs values) = attributePairs values :=
      dictOf_nodup (by rw [attributePairs_keys]; exact h.1)
    simp only [attributeValue, PyValue.readBack, AnyValue.shown, hdict,
      readBack_attributePairs values h.2]

theorem readBack_attributeItems : ∀ vs : List AnyValue, KeyedItems vs →
    readBackItems (attributeItems vs) = shownItems vs
  | [], _ => by simp [attributeItems, readBackItems, shownItems]
  | v :: vs, h => by
    simp only [KeyedItems] at h
    simp only [attributeItems, readBackItems, shownItems, readBack_attributeValue v h.1,
      readBack_attributeItems vs h.2]

theorem readBack_attributePairs : ∀ kvs : List (String × AnyValue), KeyedPairs kvs →
    readBackPairs (attributePairs kvs) = shownPairs kvs
  | [], _ => by simp [attributePairs, readBackPairs, shownPairs]
  | (k, v) :: kvs, h => by
    simp only [KeyedPairs] at h
    simp only [attributePairs, readBackPairs, shownPairs, readBack_attributeValue v h.1,
      readBack_attributePairs kvs h.2]

end

mutual

theorem PyValue.Same.readBack : ∀ {s t : PyValue}, s.Same t → s.readBack.Same t.readBack
  | .str s, t, h => by cases t <;> simp_all [PyValue.Same, PyValue.readBack, AnyValue.Same]
  | .bool b, t, h => by cases t <;> simp_all [PyValue.Same, PyValue.readBack, AnyValue.Same]
  | .int i, t, h => by cases t <;> simp_all [PyValue.Same, PyValue.readBack, AnyValue.Same]
  | .float bits, t, h => by cases t <;> simp_all [PyValue.Same, PyValue.readBack, AnyValue.Same]
  | .list ss, t, h => by
    cases t with
    | list ts =>
      simp only [PyValue.Same] at h
      simp only [PyValue.readBack, AnyValue.Same]
      exact sameList_readBack h
    | _ => simp [PyValue.Same] at h
  | .dict ss, t, h => by
    cases t with
    | dict ts =>
      simp only [PyValue.Same] at h
      simp only [PyValue.readBack, AnyValue.Same]
      obtain ⟨ss', hperm, hsame⟩ := h
      refine ⟨readBackPairs ss', ?_, sameDict_readBack hsame⟩
      rw [readBackPairs_eq_map, readBackPairs_eq_map]
      exact hperm.map _
    | _ => simp [PyValue.Same] at h

theorem sameList_readBack : ∀ {ss ts : List PyValue}, SameList ss ts →
    SameItems (readBackItems ss) (readBackItems ts)
  | [], [], _ => by simp [readBackItems, SameItems]
  | s :: ss, t :: ts, h => by
    simp only [SameList] at h
    simp only [readBackItems, SameItems]
    exact ⟨h.1.readBack, sameList_readBack h.2⟩

theorem sameDict_readBack : ∀ {ss ts : List (String × PyValue)}, SameDict ss ts →
    SamePairs (readBackPairs ss) (readBackPairs ts)
  | [], [], _ => by simp [readBackPairs, SamePairs]
  | (k, s) :: ss, (k', t) :: ts, h => by
    simp only [SameDict] at h
    simp only [readBackPairs, SamePairs]
    exact ⟨h.1, h.2.1.readBack, sameDict_readBack h.2.2⟩

end

variable (libs : Libs)

/-- `json.dumps(_attributes(attributes), sort_keys=True)` -/
def attributesJson (attrs : List KeyValue) : String := libs.jsonDumps (.dict (attributes attrs))

variable {libs}

theorem spanRow_attributesJson {sourceFile : String} {recordOffset : Nat}
    {resourceAttributes : List (String × PyValue)}
    {serviceName projectId scopeName scopeVersion : Option String} {span : Span} :
    (spanRow libs sourceFile recordOffset resourceAttributes serviceName projectId scopeName
      scopeVersion span).attributesJson = attributesJson libs span.attributes := rfl

/-- The text of attributes determines them up to the order of keys, where a value that is
not set is read as the empty string and bytes as the string of their digits. -/
theorem attributes_determined {attrs attrs' : List KeyValue}
    (hkeyed : (AnyValue.kvlist attrs).Keyed) (hkeyed' : (AnyValue.kvlist attrs').Keyed)
    (hdumps : libs.jsonDumps (.dict (attributes attrs)) = libs.jsonDumps (.dict (attributes attrs')) →
      (PyValue.dict (attributes attrs)).Same (.dict (attributes attrs')))
    (htext : attributesJson libs attrs = attributesJson libs attrs') :
    (AnyValue.kvlist attrs).shown.Same (AnyValue.kvlist attrs').shown := by
  have hread : (PyValue.dict (attributes attrs)).readBack = (AnyValue.kvlist attrs).shown :=
    readBack_attributeValue (.kvlist attrs) hkeyed
  have hread' : (PyValue.dict (attributes attrs')).readBack = (AnyValue.kvlist attrs').shown :=
    readBack_attributeValue (.kvlist attrs') hkeyed'
  have hsame := hdumps htext
  rw [← hread, ← hread']
  exact hsame.readBack

section Example

def jsonString (s : String) : String :=
  String.ofList ('"' :: s.toList.flatMap (fun c =>
    if c = '"' ∨ c = '\\' then ['\\', c] else [c]) ++ ['"'])

mutual

/-- `json.dumps(value, sort_keys=True)` for texts of printable ASCII, with a given `repr`
of floats. -/
def jsonDumps (repr : UInt64 → String) : PyValue → String
  | .str s => jsonString s
  | .bool b => if b then "true" else "false"
  | .int i => toString i
  | .float bits => repr bits
  | .list items => "[" ++ ", ".intercalate (jsonItems repr items) ++ "]"
  | .dict items => "\x7b" ++ ", ".intercalate (((jsonMembers repr items).insertionSort
      fun m m' => m.1 ≤ m'.1).map fun m => jsonString m.1 ++ ": " ++ m.2) ++ "\x7d"

def jsonItems (repr : UInt64 → String) : List PyValue → List String
  | [] => []
  | v :: vs => jsonDumps repr v :: jsonItems repr vs

def jsonMembers (repr : UInt64 → String) : List (String × PyValue) → List (String × String)
  | [] => []
  | (k, v) :: kvs => (k, jsonDumps repr v) :: jsonMembers repr kvs

end

def jsonLibs : Libs where
  parseFromString _ := none
  jsonDumps := jsonDumps fun _ => "0.0"
  strOf _ := ""
  conversionError := .overflowError "Python int too large to convert to C long"
  timestamp _ := ""
  uuid4Hex _ := ""

def nestedAttributes : List KeyValue :=
  [("k", .kvlist [("a", .unset), ("b", .bytes [0xff])]), ("n", .int (-3))]

/-- The same text, from another order and other kinds. -/
def reorderedAttributes : List KeyValue :=
  [("n", .int (-3)), ("k", .kvlist [("b", .string "ff"), ("a", .string "")])]

theorem attributes_determined_reordered :
    attributesJson jsonLibs nestedAttributes =
      "\x7b\"k\": \x7b\"a\": \"\", \"b\": \"ff\"\x7d, \"n\": -3\x7d" ∧
    (AnyValue.kvlist nestedAttributes).shown.Same (AnyValue.kvlist reorderedAttributes).shown := by
  have htext : attributesJson jsonLibs nestedAttributes =
      attributesJson jsonLibs reorderedAttributes := by decide +kernel
  have htrees : (PyValue.dict (attributes nestedAttributes)).Same
      (.dict (attributes reorderedAttributes)) := by
    have hleft : attributes nestedAttributes =
        [("k", .dict [("a", .str ""), ("b", .str "ff")]), ("n", .int (-3))] := by rfl
    have hright : attributes reorderedAttributes =
        [("n", .int (-3)), ("k", .dict [("b", .str "ff"), ("a", .str "")])] := by rfl
    rw [hleft, hright]
    simp only [PyValue.Same]
    refine ⟨[("k", .dict [("b", .str "ff"), ("a", .str "")]), ("n", .int (-3))], .swap _ _ _, ?_⟩
    simp only [SameDict, PyValue.Same, and_true, true_and]
    exact ⟨[("a", .str ""), ("b", .str "ff")], .swap _ _ _, by simp [SameDict, PyValue.Same]⟩
  refine ⟨by decide +kernel, attributes_determined ?_ ?_ (fun _ => htrees) htext⟩
  · simp [nestedAttributes, AnyValue.Keyed, KeyedPairs]
  · simp [reorderedAttributes, AnyValue.Keyed, KeyedPairs]

end Example

/-- A value that is not set and the empty string have the same text. -/
theorem not_attributes_determined : ∃ attrs attrs' : List KeyValue,
    (AnyValue.kvlist attrs).Keyed ∧ (AnyValue.kvlist attrs').Keyed ∧
      (∀ libs, attributesJson libs attrs = attributesJson libs attrs') ∧
      ¬(AnyValue.kvlist attrs).Same (.kvlist attrs') := by
  refine ⟨[("k", .unset)], [("k", .string "")], ?_, ?_, fun libs => rfl, ?_⟩
  · simp [AnyValue.Keyed, KeyedPairs]
  · simp [AnyValue.Keyed, KeyedPairs]
  · intro h
    simp only [AnyValue.Same] at h
    obtain ⟨kvs, hperm, hsame⟩ := h
    rw [List.perm_singleton] at hperm
    simp [hperm, SamePairs, AnyValue.Same] at hsame

end Lrcp.Otlp
