import Mathlib.Data.List.Sort
import Mathlib.Data.Multiset.Bind
import Mathlib.Data.Multiset.Dedup
import Mathlib.Data.Multiset.Lattice
import Mathlib.Data.Multiset.MapFold
import Mathlib.Order.WithBot
import Mathlib.Algebra.BigOperators.Group.Multiset.Defs
import Mathlib.Algebra.Ring.Int.Defs

namespace Lrcp.Framework.Sql

universe u v

variable {α : Type u} {β κ : Type v}

/-- `GROUP BY`: for each value of the key the rows that have it. -/
def groupBy [DecidableEq κ] (key : α → κ) (rows : Multiset α) : Multiset (κ × Multiset α) :=
  (rows.map key).dedup.map fun k => (k, rows.filter fun a => key a = k)

/-- `ORDER BY`: rows that are equal with respect to the order stand in any order. -/
def Ordered (le : α → α → Prop) (rows : Multiset α) (out : List α) : Prop :=
  (out : Multiset α) = rows ∧ out.Pairwise le

/-- `ORDER BY` and `LIMIT` -/
def Limited (le : α → α → Prop) (n : Nat) (rows : Multiset α) (out : List α) : Prop :=
  ∃ all, Ordered le rows all ∧ out = all.take n

/-- `DISTINCT`: in any order. -/
def Distinct [DecidableEq α] (rows : Multiset α) (out : List α) : Prop := (out : Multiset α) = rows.dedup

/-- The values of a column that are not `NULL`. -/
def known (values : Multiset (Option α)) : Multiset α := values.filterMap id

/-- `SUM`, which is `NULL` when no value is known. -/
def sumOf (values : Multiset (Option Int)) : Option Int :=
  if known values = 0 then none else some (known values).sum

/-- `MAX`, which is `NULL` when no value is known. -/
def maxOf [LinearOrder α] (values : Multiset (Option α)) : Option α :=
  (values.map fun v => (v : WithBot α)).sup

/-- `MIN`, which is `NULL` when no value is known. -/
def minOf [LinearOrder α] (values : Multiset (Option α)) : Option α :=
  (values.map fun v => (v : WithTop α)).inf

/-- `COUNT(DISTINCT ..)` -/
def countDistinct [DecidableEq α] (values : Multiset (Option α)) : Nat := (known values).dedup.card

section Rules

variable {rows : Multiset α} {out : List α} {le : α → α → Prop} {n : Nat}

theorem groupBy_zero [DecidableEq κ] (key : α → κ) : groupBy key 0 = 0 := rfl

/-- A group is not empty, and it consists of rows with its key. -/
theorem of_mem_groupBy [DecidableEq κ] {key : α → κ} {group : κ × Multiset α}
    (h : group ∈ groupBy key rows) :
    group.2 ≤ rows ∧ group.2 ≠ 0 ∧ ∀ a ∈ group.2, key a = group.1 := by
  obtain ⟨k, hk, rfl⟩ := Multiset.mem_map.mp h
  obtain ⟨a, ha, hkey⟩ := Multiset.mem_map.mp (Multiset.mem_dedup.mp hk)
  refine ⟨Multiset.filter_le _ _, fun hzero => ?_, fun b hb => (Multiset.mem_filter.mp hb).2⟩
  have hmem : a ∈ rows.filter fun a => key a = k := Multiset.mem_filter.mpr ⟨ha, hkey⟩
  simp only at hzero
  rw [hzero] at hmem
  exact Multiset.notMem_zero a hmem

theorem filter_of_mem_groupBy [DecidableEq κ] {key : α → κ} {group : κ × Multiset α}
    (h : group ∈ groupBy key rows) : group.2 = rows.filter fun a => key a = group.1 := by
  obtain ⟨k, hk, rfl⟩ := Multiset.mem_map.mp h
  rfl

/-- The rows of some keys, key by key. -/
theorem bind_filter [DecidableEq κ] (key : α → κ) {keys : Multiset κ} (h : keys.Nodup) :
    (keys.bind fun k => rows.filter fun a => key a = k) = rows.filter fun a => key a ∈ keys := by
  induction keys using Multiset.induction with
  | empty => simp
  | cons k keys ih =>
    obtain ⟨hk, hkeys⟩ := Multiset.nodup_cons.mp h
    have hnone : (rows.filter fun a => key a = k ∧ key a ∈ keys) = 0 := by
      apply Multiset.filter_eq_nil.mpr
      intro a _ hand
      exact hk (hand.1 ▸ hand.2)
    rw [Multiset.cons_bind, ih hkeys, Multiset.filter_add_filter, hnone, add_zero]
    simp only [Multiset.mem_cons]

/-- Every row is in exactly one group. -/
theorem groupBy_bind [DecidableEq κ] (key : α → κ) (rows : Multiset α) :
    (groupBy key rows).bind Prod.snd = rows := by
  rw [groupBy, Multiset.bind_map, bind_filter key (Multiset.nodup_dedup _)]
  apply Multiset.filter_eq_self.mpr
  intro a ha
  exact Multiset.mem_dedup.mpr (Multiset.mem_map_of_mem key ha)

theorem map_fst_groupBy [DecidableEq κ] (key : α → κ) (rows : Multiset α) :
    (groupBy key rows).map Prod.fst = (rows.map key).dedup := by
  rw [groupBy, Multiset.map_map]
  exact Multiset.map_id _

/-- A sum over all rows, group by group. -/
theorem groupBy_sum [DecidableEq κ] {M : Type u} [AddCommMonoid M] (key : α → κ) (value : α → M)
    (rows : Multiset α) :
    ((groupBy key rows).map fun group => (group.2.map value).sum).sum = (rows.map value).sum := by
  have hbind := congrArg (fun rows => (rows.map value).sum) (groupBy_bind key rows)
  simp only [Multiset.map_bind, Multiset.sum_bind] at hbind
  exact hbind

theorem known_some {value : α → β} : known (rows.map fun a => some (value a)) = rows.map value := by
  rw [known, Multiset.filterMap_map]
  exact Multiset.filterMap_eq_map value ▸ rfl

theorem mem_known {values : Multiset (Option α)} {a : α} : a ∈ known values ↔ some a ∈ values := by
  simp [known]

/-- What is computed of every row in the same way is the same table. -/
theorem map_of_rel {γ : Type u} {r : α → β → Prop} {table : Multiset β} {f : α → γ} {g : β → γ}
    (h : Multiset.Rel r rows table) (hfg : ∀ a b, r a b → f a = g b) : rows.map f = table.map g := by
  induction h with
  | zero => rfl
  | cons hab _ ih => rw [Multiset.map_cons, Multiset.map_cons, hfg _ _ hab, ih]

theorem maxOf_some [LinearOrder κ] {key : α → κ} {a : α} (ha : a ∈ rows)
    (hmax : ∀ b ∈ rows, key b ≤ key a) : maxOf (rows.map fun b => some (key b)) = some (key a) := by
  have hcolumn : maxOf (rows.map fun b => some (key b)) = (rows.map fun b => (key b : WithBot κ)).sup :=
    congrArg (@Multiset.sup (WithBot κ) _ _) (Multiset.map_map _ _ rows)
  rw [hcolumn]
  show (rows.map fun b => (key b : WithBot κ)).sup = (key a : WithBot κ)
  apply le_antisymm
  · apply Multiset.sup_le.mpr
    intro v hv
    obtain ⟨b, hb, hbv⟩ := Multiset.mem_map.mp hv
    rw [← hbv]
    exact WithBot.coe_le_coe.mpr (hmax b hb)
  · exact Multiset.le_sup (Multiset.mem_map.mpr ⟨a, ha, rfl⟩)

theorem minOf_some [LinearOrder κ] {key : α → κ} {a : α} (ha : a ∈ rows)
    (hmin : ∀ b ∈ rows, key a ≤ key b) : minOf (rows.map fun b => some (key b)) = some (key a) := by
  have hcolumn : minOf (rows.map fun b => some (key b)) = (rows.map fun b => (key b : WithTop κ)).inf :=
    congrArg (@Multiset.inf (WithTop κ) _ _) (Multiset.map_map _ _ rows)
  rw [hcolumn]
  show (rows.map fun b => (key b : WithTop κ)).inf = (key a : WithTop κ)
  apply le_antisymm
  · exact Multiset.inf_le (Multiset.mem_map.mpr ⟨a, ha, rfl⟩)
  · apply Multiset.le_inf.mpr
    intro v hv
    obtain ⟨b, hb, hbv⟩ := Multiset.mem_map.mp hv
    rw [← hbv]
    exact WithTop.coe_le_coe.mpr (hmin b hb)

theorem sumOf_some {value : α → Int} (h : rows ≠ 0) :
    sumOf (rows.map fun a => some (value a)) = some (rows.map value).sum := by
  rw [sumOf, known_some, if_neg (by simpa using h)]

theorem ordered_zero : Ordered le 0 out ↔ out = [] := by
  constructor
  · intro h
    exact (Multiset.coe_eq_zero out).mp h.1
  · intro h
    rw [h]
    exact ⟨rfl, List.Pairwise.nil⟩

theorem limited_zero : Limited le n 0 out ↔ out = [] := by
  constructor
  · intro ⟨all, hall, hout⟩
    rw [hout, ordered_zero.mp hall, List.take_nil]
  · intro h
    exact ⟨[], ordered_zero.mpr rfl, by rw [h, List.take_nil]⟩

theorem Limited.length (h : Limited le n rows out) : out.length = min n rows.card := by
  obtain ⟨all, hall, rfl⟩ := h
  rw [List.length_take, ← hall.1, Multiset.coe_card]

/-- A limit that is not reached leaves every row. -/
theorem Limited.ordered (h : Limited le n rows out) (hn : rows.card ≤ n) : Ordered le rows out := by
  obtain ⟨all, hall, rfl⟩ := h
  have hlength : all.length ≤ n := by
    rw [← hall.1, Multiset.coe_card] at hn
    exact hn
  rw [List.take_of_length_le hlength]
  exact hall

theorem Limited.le_rows (h : Limited le n rows out) : (out : Multiset α) ≤ rows := by
  obtain ⟨all, hall, rfl⟩ := h
  rw [← hall.1]
  exact Multiset.coe_le.mpr (List.take_sublist n all).subperm

theorem distinct_zero [DecidableEq α] : Distinct 0 out ↔ out = [] := by
  rw [Distinct, Multiset.dedup_zero, Multiset.coe_eq_zero]

theorem Ordered.mem (h : Ordered le rows out) {a : α} (ha : a ∈ out) : a ∈ rows := by
  rw [← h.1]
  exact Multiset.mem_coe.mpr ha

theorem Limited.mem (h : Limited le n rows out) {a : α} (ha : a ∈ out) : a ∈ rows := by
  obtain ⟨all, hall, hout⟩ := h
  rw [hout] at ha
  exact hall.mem (List.mem_of_mem_take ha)

/-- Rows can be ordered by any key. -/
theorem exists_ordered [LinearOrder β] (key : α → β) (rows : Multiset α) :
    ∃ out, Ordered (fun a b => key a ≤ key b) rows out := by
  obtain ⟨all, rfl⟩ := Quot.exists_rep rows
  have htotal : Std.Total fun a b => key a ≤ key b := ⟨fun a b => le_total (key a) (key b)⟩
  have htrans : IsTrans α fun a b => key a ≤ key b := ⟨fun _ _ _ h h' => h.trans h'⟩
  exact ⟨all.insertionSort fun a b => key a ≤ key b, Multiset.coe_eq_coe.mpr (List.perm_insertionSort _ _),
    List.pairwise_insertionSort _ _⟩

theorem exists_distinct [DecidableEq α] (rows : Multiset α) : ∃ out, Distinct rows out :=
  Quot.exists_rep rows.dedup

/-- A table can be computed group by group. -/
theorem exists_rel {r : α → β → Prop} (h : ∀ a ∈ rows, ∃ b, r a b) :
    ∃ table : Multiset β, Multiset.Rel r rows table := by
  induction rows using Multiset.induction with
  | empty => exact ⟨0, .zero⟩
  | cons a rows ih =>
    obtain ⟨b, hb⟩ := h a (Multiset.mem_cons_self a rows)
    obtain ⟨table, htable⟩ := ih fun c hc => h c (Multiset.mem_cons_of_mem hc)
    exact ⟨b ::ₘ table, .cons hb htable⟩

end Rules

end Lrcp.Framework.Sql
