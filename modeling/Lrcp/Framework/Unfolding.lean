import Mathlib.Algebra.BigOperators.Group.List.Basic
import Mathlib.Algebra.GroupWithZero.Nat
import Mathlib.Data.List.Count
import Mathlib.Data.List.Perm.Subperm
import Mathlib.Logic.Relation

namespace Lrcp.Framework

universe u

variable {α : Type u} (children : α → List α)

/-- One of the children of `a`. -/
def Child (a b : α) : Prop := b ∈ children a

/-- What an unfolding from `roots` has at a depth: every node as often as paths lead to it. -/
def level (roots : List α) : Nat → List α
  | 0 => roots
  | depth + 1 => (level roots depth).flatMap children

/-- The levels of an unfolding down to a depth, which is left out. -/
def levels (roots : List α) : Nat → List α
  | 0 => []
  | depth + 1 => levels roots depth ++ level children roots depth

section Sums

variable {β : Type u}

theorem sum_map_swap (as : List α) (bs : List β) (f : α → β → Nat) :
    (as.map fun a => (bs.map fun b => f a b).sum).sum =
      (bs.map fun b => (as.map fun a => f a b).sum).sum := by
  induction as with
  | nil => simp
  | cons a as ih =>
    simp only [List.map_cons, List.sum_cons]
    rw [ih, List.sum_map_add]

theorem countP_eq_sum (as : List α) (p : α → Bool) :
    as.countP p = (as.map fun a => if p a then 1 else 0).sum := by
  induction as with
  | nil => rfl
  | cons a as ih =>
    rw [List.countP_cons, ih, List.map_cons, List.sum_cons, Nat.add_comm]

/-- Of two positions one counts for nothing, and none for more than one. -/
theorem sum_map_le_one {as : List α} {f : α → Nat} (h : as.Pairwise fun a b => f a = 0 ∨ f b = 0)
    (hf : ∀ a ∈ as, f a ≤ 1) : (as.map f).sum ≤ 1 := by
  induction as with
  | nil => exact Nat.zero_le 1
  | cons a as ih =>
    obtain ⟨ha, has⟩ := List.pairwise_cons.mp h
    rw [List.map_cons, List.sum_cons]
    by_cases hzero : f a = 0
    · rw [hzero, Nat.zero_add]
      exact ih has fun b hb => hf b (List.mem_cons_of_mem a hb)
    · have hrest : (as.map f).sum = 0 := by
        rw [List.sum_eq_zero_iff_forall_eq_nat]
        intro n hn
        obtain ⟨b, hb, rfl⟩ := List.mem_map.mp hn
        exact (ha b hb).resolve_left hzero
      rw [hrest, Nat.add_zero]
      exact hf a List.mem_cons_self

end Sums

section Unfolding

variable {children} {roots : List α} {r x : α} {depth n : Nat}

theorem level_succ (roots : List α) (depth : Nat) :
    level children roots (depth + 1) = level children (roots.flatMap children) depth := by
  induction depth with
  | zero => rfl
  | succ depth ih => rw [level, ih, level]

theorem level_append (xs ys : List α) (depth : Nat) :
    level children (xs ++ ys) depth = level children xs depth ++ level children ys depth := by
  induction depth with
  | zero => rfl
  | succ depth ih => simp only [level, ih, List.flatMap_append]

theorem levels_succ (roots : List α) (depth : Nat) :
    levels children roots (depth + 1) = roots ++ levels children (roots.flatMap children) depth := by
  induction depth with
  | zero => simp [levels, level]
  | succ depth ih => rw [levels, ih, level_succ, levels, List.append_assoc]

theorem levels_append (xs ys : List α) (depth : Nat) : (levels children (xs ++ ys) depth).Perm
    (levels children xs depth ++ levels children ys depth) := by
  induction depth with
  | zero => exact .nil
  | succ depth ih =>
    simp only [levels, level_append]
    refine (ih.append_right _).trans ?_
    simp only [List.append_assoc]
    refine .append_left _ ?_
    simp only [← List.append_assoc]
    exact .append_right _ List.perm_append_comm

/-- A level down, what is there has been unfolded from what was there before. -/
theorem levels_unfold (roots : List α) (depth : Nat) : (levels children roots (depth + 1)).Perm
    (roots ++ (levels children roots depth).flatMap children) := by
  induction depth with
  | zero => simp [levels, level]
  | succ depth ih =>
    rw [levels]
    refine (ih.append_right _).trans ?_
    rw [levels, List.flatMap_append, level, List.append_assoc]

theorem level_eq_nil_of_le {m : Nat} (h : level children roots n = []) (hm : n ≤ m) :
    level children roots m = [] := by
  obtain ⟨k, rfl⟩ := Nat.exists_eq_add_of_le hm
  clear hm
  induction k with
  | zero => exact h
  | succ k ih => rw [← Nat.add_assoc, level, ih, List.flatMap_nil]

theorem levels_eq_of_le {m : Nat} (h : level children roots n = []) (hm : n ≤ m) :
    levels children roots m = levels children roots n := by
  obtain ⟨k, rfl⟩ := Nat.exists_eq_add_of_le hm
  clear hm
  induction k with
  | zero => rfl
  | succ k ih =>
    have hnil := level_eq_nil_of_le h (Nat.le_add_right n k)
    rw [← Nat.add_assoc, levels, ih, hnil, List.append_nil]

theorem exists_mem_level (hr : r ∈ roots) (hx : Relation.ReflTransGen (Child children) r x) :
    ∃ depth, x ∈ level children roots depth := by
  induction hx with
  | refl => exact ⟨0, hr⟩
  | tail _ hstep ih =>
    obtain ⟨depth, hdepth⟩ := ih
    exact ⟨depth + 1, List.mem_flatMap.mpr ⟨_, hdepth, hstep⟩⟩

/-- A chain of children leads further down. -/
theorem exists_level_of_transGen {y : α} (hx : x ∈ level children roots depth)
    (h : Relation.TransGen (Child children) x y) :
    ∃ deeper, depth < deeper ∧ y ∈ level children roots deeper := by
  induction h with
  | single hstep => exact ⟨depth + 1, Nat.lt_succ_self _, List.mem_flatMap.mpr ⟨x, hx, hstep⟩⟩
  | tail _ hstep ih =>
    obtain ⟨deeper, hlt, hmem⟩ := ih
    exact ⟨deeper + 1, Nat.lt_succ_of_lt hlt, List.mem_flatMap.mpr ⟨_, hmem, hstep⟩⟩

/-- An unfolding that ends never comes back to a node. -/
theorem not_returning (h : level children roots n = []) (hr : r ∈ roots)
    (hx : Relation.ReflTransGen (Child children) r x) : ¬Relation.TransGen (Child children) x x := by
  intro hcycle
  have hdeep : ∀ m, ∃ depth, m ≤ depth ∧ x ∈ level children roots depth := by
    intro m
    induction m with
    | zero =>
      obtain ⟨depth, hdepth⟩ := exists_mem_level hr hx
      exact ⟨depth, Nat.zero_le _, hdepth⟩
    | succ m ih =>
      obtain ⟨depth, hle, hdepth⟩ := ih
      obtain ⟨deeper, hlt, hmem⟩ := exists_level_of_transGen hdepth hcycle
      exact ⟨deeper, Nat.lt_of_le_of_lt hle hlt, hmem⟩
  obtain ⟨depth, hle, hmem⟩ := hdeep n
  rw [level_eq_nil_of_le h hle] at hmem
  cases hmem

theorem exists_root (hx : x ∈ level children roots depth) :
    ∃ r ∈ roots, Relation.ReflTransGen (Child children) r x := by
  induction depth generalizing x with
  | zero => exact ⟨x, hx, .refl⟩
  | succ depth ih =>
    obtain ⟨y, hy, hstep⟩ := List.mem_flatMap.mp hx
    obtain ⟨r, hr, hreach⟩ := ih hy
    exact ⟨r, hr, hreach.tail hstep⟩

theorem exists_root_of_levels (hx : x ∈ levels children roots n) :
    ∃ r ∈ roots, Relation.ReflTransGen (Child children) r x := by
  induction n with
  | zero => cases hx
  | succ n ih => exact (List.mem_append.mp hx).elim ih exists_root

/-- The nodes on a path down to `x`, the last one first. -/
theorem exists_path (hx : x ∈ level children roots depth) :
    ∃ path : List α, path.length = depth + 1 ∧
      (∀ y ∈ path, Relation.ReflTransGen (Child children) y x ∧
        ∃ r ∈ roots, Relation.ReflTransGen (Child children) r y) ∧
      path.Pairwise fun b a => Relation.TransGen (Child children) a b := by
  induction depth generalizing x with
  | zero => exact ⟨[x], rfl, by simpa using ⟨.refl, x, hx, .refl⟩, List.pairwise_singleton _ _⟩
  | succ depth ih =>
    obtain ⟨y, hy, hstep⟩ := List.mem_flatMap.mp hx
    have hchild : Child children y x := hstep
    obtain ⟨path, hlength, hpath, hpairwise⟩ := ih hy
    refine ⟨x :: path, by rw [List.length_cons, hlength], ?_, ?_⟩
    · intro z hz
      rcases List.mem_cons.mp hz with rfl | hz
      · obtain ⟨r, hr, hreach⟩ := exists_root hy
        exact ⟨.refl, r, hr, hreach.tail hchild⟩
      · exact ⟨(hpath z hz).1.tail hchild, (hpath z hz).2⟩
    · exact List.pairwise_cons.mpr ⟨fun z hz => .tail' (hpath z hz).1 hchild, hpairwise⟩

/-- Where nothing comes back to itself, the unfolding is no deeper than there are nodes. -/
theorem level_eq_nil {nodes : List α}
    (hnodes : ∀ r ∈ roots, ∀ x, Relation.ReflTransGen (Child children) r x → x ∈ nodes)
    (hacyclic : ∀ r ∈ roots, ∀ x, Relation.ReflTransGen (Child children) r x →
      ¬Relation.TransGen (Child children) x x) : level children roots nodes.length = [] := by
  apply List.eq_nil_iff_forall_not_mem.mpr
  intro x hx
  obtain ⟨path, hlength, hpath, hpairwise⟩ := exists_path hx
  have hnodup : path.Nodup := by
    refine hpairwise.imp_of_mem fun {a b} ha _ hab heq => ?_
    obtain ⟨-, r, hr, hreach⟩ := hpath a ha
    subst heq
    exact hacyclic r hr a hreach hab
  have hsubset : path ⊆ nodes := by
    intro y hy
    obtain ⟨-, r, hr, hreach⟩ := hpath y hy
    exact hnodes r hr y hreach
  have hle := (hnodup.subperm hsubset).length_le
  omega

/-- As long as no level is empty, each has a node. -/
theorem length_le_levels (h : ∀ depth < n, level children roots depth ≠ []) :
    n ≤ (levels children roots n).length := by
  induction n with
  | zero => exact Nat.zero_le _
  | succ n ih =>
    have hlength := List.length_pos_of_ne_nil (h n (Nat.lt_succ_self n))
    have hle := ih fun depth hdepth => h depth (Nat.lt_succ_of_lt hdepth)
    rw [levels, List.length_append]
    omega

end Unfolding

end Lrcp.Framework
