import Lrcp.Viewer.TraceViewer
import Mathlib.Algebra.Order.BigOperators.Group.List
import Mathlib.Data.List.Induction

namespace Lrcp.Viewer

open Lrcp.Framework

section Definitions

variable (initialSpans : List Span)

/-- The listings that a span may mean when it names its parent. -/
def parents (s : Span) : List Span :=
  initialSpans.filter fun p => parentOf (spanMap initialSpans) s = some p.spanId

/-- How many lines of at most `n` listings lead to a span: each begins with a
listing that is put under no parent, and goes on with one whose parent is the one before. -/
def lines : Nat → Span → Nat
  | 0, _ => 0
  | n + 1, s =>
    if parentOf (spanMap initialSpans) s = none then 1
    else ((parents initialSpans s).map (lines n)).sum

/-- The lines of at most one listing more than there are that lead to a listing. -/
def linesTo (s : Span) : Nat := lines initialSpans (initialSpans.length + 1) s

end Definitions

section Hierarchy

variable {initialSpans : List Span} {map : JsMap Span} {s : Span} {id : String}

theorem spanMap_concat (spans : List Span) (s : Span) :
    spanMap (spans ++ [s]) = (spanMap spans).insert s.spanId s := by
  rw [spanMap, List.foldl_append]
  rfl

theorem mem_spanMap : id ∈ spanMap initialSpans ↔ ∃ s ∈ initialSpans, s.spanId = id := by
  induction initialSpans using List.reverseRecOn with
  | nil => simp [spanMap]
  | append_singleton spans s ih =>
    rw [spanMap_concat, AList.mem_insert, ih]
    simp only [List.mem_append, List.mem_singleton]
    constructor
    · rintro (rfl | ⟨t, ht, rfl⟩)
      · exact ⟨s, .inr rfl, rfl⟩
      · exact ⟨t, .inl ht, rfl⟩
    · rintro ⟨t, ht | rfl, rfl⟩
      · exact .inr ⟨t, ht, rfl⟩
      · exact .inl rfl

theorem lookup_spanMap (h : (spanMap initialSpans).lookup id = some s) :
    s ∈ initialSpans ∧ s.spanId = id := by
  induction initialSpans using List.reverseRecOn with
  | nil => simp [spanMap] at h
  | append_singleton spans t ih =>
    rw [spanMap_concat] at h
    by_cases hid : id = t.spanId
    · subst hid
      rw [AList.lookup_insert] at h
      obtain rfl := Option.some.inj h
      exact ⟨by simp, rfl⟩
    · rw [AList.lookup_insert_ne hid] at h
      exact ⟨List.mem_append_left _ (ih h).1, (ih h).2⟩

theorem rootIds_foldl (spans : List Span) :
    (spans.foldl (Hierarchy.add map) {}).rootIds =
      (spans.filter fun s => parentOf map s = none).map Span.spanId := by
  induction spans using List.reverseRecOn with
  | nil => rfl
  | append_singleton spans s ih =>
    rw [List.foldl_append, List.filter_append, List.map_append, ← ih]
    unfold Hierarchy.add
    cases hp : parentOf map s <;> simp [hp]

theorem childrenMap_foldl (spans : List Span) (id : String) :
    ((spans.foldl (Hierarchy.add map) {}).childrenMap.lookup id).getD [] =
      (spans.filter fun s => parentOf map s = some id).map Span.spanId := by
  induction spans using List.reverseRecOn with
  | nil => rfl
  | append_singleton spans s ih =>
    rw [List.foldl_append, List.filter_append, List.map_append, ← ih]
    simp only [List.foldl_cons, List.foldl_nil]
    generalize spans.foldl (Hierarchy.add map) {} = h
    unfold Hierarchy.add
    cases hp : parentOf map s with
    | none => simp [hp]
    | some parentId =>
      by_cases hid : id = parentId
      · subst hid
        simp [hp, AList.lookup_insert]
      · have hne : parentId ≠ id := fun e => hid e.symm
        simp [hp, AList.lookup_insert_ne hid, hne]

theorem sortByStart_perm (map : JsMap Span) (ids : List String) : (sortByStart map ids).Perm ids :=
  List.perm_insertionSort _ _

theorem rootIds_perm : (rootIds initialSpans).Perm ((initialSpans.filter fun s =>
    parentOf (spanMap initialSpans) s = none).map Span.spanId) := by
  refine (sortByStart_perm _ _).trans ?_
  rw [hierarchy, rootIds_foldl]

theorem childIds_perm (id : String) : (childIds initialSpans id).Perm ((initialSpans.filter fun s =>
    parentOf (spanMap initialSpans) s = some id).map Span.spanId) := by
  refine (sortByStart_perm _ _).trans ?_
  rw [hierarchy, childrenMap_foldl]

theorem mem_rootIds : id ∈ rootIds initialSpans ↔
    ∃ s ∈ initialSpans, s.spanId = id ∧ parentOf (spanMap initialSpans) s = none := by
  rw [rootIds_perm.mem_iff]
  simp only [List.mem_map, List.mem_filter, decide_eq_true_eq]
  constructor
  · rintro ⟨s, ⟨hs, hp⟩, rfl⟩
    exact ⟨s, hs, rfl, hp⟩
  · rintro ⟨s, hs, rfl, hp⟩
    exact ⟨s, ⟨hs, hp⟩, rfl⟩

theorem mem_childIds {parent : String} : id ∈ childIds initialSpans parent ↔
    ∃ t ∈ initialSpans, t.spanId = id ∧ parentOf (spanMap initialSpans) t = some parent := by
  rw [(childIds_perm _).mem_iff]
  simp only [List.mem_map, List.mem_filter, decide_eq_true_eq]
  constructor
  · rintro ⟨t, ⟨ht, hp⟩, rfl⟩
    exact ⟨t, ht, rfl, hp⟩
  · rintro ⟨t, ht, rfl, hp⟩
    exact ⟨t, ⟨ht, hp⟩, rfl⟩

/-- The parent is listed. -/
theorem mem_of_parentOf (h : parentOf map s = some id) : id ∈ map := by
  unfold parentOf at h
  have hcond := (Option.filter_eq_some_iff.mp h).2
  simp only [ne_eq, decide_eq_true_eq] at hcond
  exact hcond.2

end Hierarchy

section Lines

variable {initialSpans : List Span}

theorem parents_eq_nil {s : Span} (h : parentOf (spanMap initialSpans) s = none) :
    parents initialSpans s = [] := by
  unfold parents
  simp [h]

/-- In an unfolding of the tree an id stands as often as lines lead to its listings. -/
theorem countP_levels (n : Nat) (q : String → Bool) :
    (levels (childIds initialSpans) (rootIds initialSpans) n).countP q =
      ((initialSpans.filter fun s => q s.spanId).map (lines initialSpans n)).sum := by
  induction n generalizing q with
  | zero => simp [levels, lines]
  | succ n ih =>
    have hids : ∀ parent : Option String, ((initialSpans.filter fun s =>
        parentOf (spanMap initialSpans) s = parent).map Span.spanId).countP q =
        ((initialSpans.filter fun s => q s.spanId).map fun s =>
          if parentOf (spanMap initialSpans) s = parent then 1 else 0).sum := by
      intro parent
      have hsum := countP_eq_sum (initialSpans.filter fun s => q s.spanId)
        fun s => decide (parentOf (spanMap initialSpans) s = parent)
      simp only [decide_eq_true_eq] at hsum
      rw [← hsum, List.countP_map, List.countP_filter, List.countP_filter]
      exact List.countP_congr fun s _ => by simp [and_comm]
    have hchildren : ((levels (childIds initialSpans) (rootIds initialSpans) n).flatMap
        (childIds initialSpans)).countP q = ((initialSpans.filter fun s => q s.spanId).map fun s =>
          ((parents initialSpans s).map (lines initialSpans n)).sum).sum := by
      rw [List.countP_flatMap]
      have hone : ∀ id, (childIds initialSpans id).countP q =
          ((initialSpans.filter fun s => q s.spanId).map fun s =>
            if parentOf (spanMap initialSpans) s = some id then 1 else 0).sum := by
        intro id
        rw [(childIds_perm id).countP_eq, hids]
      have hlevels : (levels (childIds initialSpans) (rootIds initialSpans) n).map
          (List.countP q ∘ childIds initialSpans) =
          (levels (childIds initialSpans) (rootIds initialSpans) n).map fun id =>
            ((initialSpans.filter fun s => q s.spanId).map fun s =>
              if parentOf (spanMap initialSpans) s = some id then 1 else 0).sum :=
        List.map_congr_left fun id _ => hone id
      rw [hlevels, sum_map_swap]
      congr 1
      apply List.map_congr_left
      intro s _
      have hcount := ih fun id => decide (parentOf (spanMap initialSpans) s = some id)
      rw [countP_eq_sum] at hcount
      simp only [decide_eq_true_eq] at hcount
      exact hcount
    rw [(levels_unfold _ n).countP_eq, List.countP_append, hchildren, rootIds_perm.countP_eq, hids,
      ← List.sum_map_add]
    congr 1
    apply List.map_congr_left
    intro s _
    rw [lines]
    split_ifs with hroot
    · rw [parents_eq_nil hroot]
      rfl
    · exact Nat.zero_add _

theorem length_levels (n : Nat) : (levels (childIds initialSpans) (rootIds initialSpans) n).length =
    (initialSpans.map (lines initialSpans n)).sum := by
  have hcount := @countP_levels initialSpans n fun _ => true
  rw [List.countP_true, List.filter_true] at hcount
  exact hcount

end Lines

section Build

variable {initialSpans : List Span} {id : String} {ids : List String} {node : SpanNode}
  {nodes : List SpanNode} {fuel depth : Nat}

/-- The nodes that calls for the given ids build. -/
def Builds (initialSpans : List Span) (fuel depth : Nat) : List String → List SpanNode → Prop :=
  List.Forall₂ fun id node => buildNode initialSpans fuel id depth = some node

theorem mapM_eq_some {α β : Type} {f : α → Option β} {xs : List α} {ys : List β} :
    xs.mapM f = some ys ↔ List.Forall₂ (fun x y => f x = some y) xs ys := by
  induction xs generalizing ys with
  | nil => simp [eq_comm]
  | cons x xs ih =>
    simp only [List.mapM_cons, Option.bind_eq_bind, Option.bind_eq_some_iff, Option.pure_def,
      Option.some.injEq, List.forall₂_cons_left_iff, ih]
    constructor
    · rintro ⟨y, hy, zs, hzs, rfl⟩
      exact ⟨y, zs, hy, hzs, rfl⟩
    · rintro ⟨y, zs, hy, hzs, rfl⟩
      exact ⟨y, hy, zs, hzs, rfl⟩

theorem buildNode_succ : buildNode initialSpans (fuel + 1) id depth = some node ↔
    ∃ span children, (spanMap initialSpans).lookup id = some span ∧
      Builds initialSpans fuel (depth + 1) (childIds initialSpans id) children ∧
      node = ⟨span, children, depth⟩ := by
  rw [buildNode]
  simp only [Option.bind_eq_bind, Option.bind_eq_some_iff, mapM_eq_some, Option.some.injEq]
  constructor
  · rintro ⟨span, hspan, children, hchildren, rfl⟩
    exact ⟨span, children, hspan, hchildren, rfl⟩
  · rintro ⟨span, children, hspan, hchildren, rfl⟩
    exact ⟨span, hspan, children, hchildren, rfl⟩

theorem mem_allNodes {nodes : List SpanNode} :
    node ∈ allNodes nodes ↔ ∃ top ∈ nodes, node ∈ top.traverse fun _ => false := by
  unfold allNodes visibleNodes
  induction nodes with
  | nil => simp [traverseEach]
  | cons top nodes ih => simp [traverseEach, ih]

theorem traverse_all (span : Span) (children : List SpanNode) (depth : Nat) :
    SpanNode.traverse (fun _ => false) ⟨span, children, depth⟩ =
      ⟨span, children, depth⟩ :: allNodes children := by
  simp [SpanNode.traverse, allNodes, visibleNodes]

theorem allNodes_cons (top : SpanNode) (nodes : List SpanNode) :
    allNodes (top :: nodes) = top.traverse (fun _ => false) ++ allNodes nodes := rfl

mutual

/-- A node of a tree is its top or a child of one of its nodes. -/
theorem eq_or_child : ∀ top : SpanNode, node ∈ top.traverse (fun _ => false) →
    node = top ∨ ∃ parent ∈ top.traverse fun _ => false, node ∈ parent.children
  | ⟨span, children, depth⟩, h => by
    rw [traverse_all] at h ⊢
    rcases List.mem_cons.mp h with rfl | h
    · exact .inl rfl
    · rcases mem_or_child children h with h | ⟨parent, hparent, h⟩
      · exact .inr ⟨_, List.mem_cons_self, h⟩
      · exact .inr ⟨parent, List.mem_cons_of_mem _ hparent, h⟩

theorem mem_or_child : ∀ nodes : List SpanNode, node ∈ allNodes nodes →
    node ∈ nodes ∨ ∃ parent ∈ allNodes nodes, node ∈ parent.children
  | [], h => by cases h
  | top :: nodes, h => by
    rw [allNodes_cons] at h ⊢
    rcases List.mem_append.mp h with h | h
    · rcases eq_or_child top h with rfl | ⟨parent, hparent, h⟩
      · exact .inl List.mem_cons_self
      · exact .inr ⟨parent, List.mem_append_left _ hparent, h⟩
    · rcases mem_or_child nodes h with h | ⟨parent, hparent, h⟩
      · exact .inl (List.mem_cons_of_mem _ h)
      · exact .inr ⟨parent, List.mem_append_right _ hparent, h⟩

end

/-- What has been built stands for the unfolding from the ids, which has ended. -/
theorem Builds.unfolding (h : Builds initialSpans fuel depth ids nodes) :
    level (childIds initialSpans) ids fuel = [] ∧
      ((allNodes nodes).map fun node => node.span.spanId).Perm
        (levels (childIds initialSpans) ids fuel) := by
  induction fuel generalizing depth ids nodes with
  | zero =>
    cases h with
    | nil => exact ⟨rfl, .nil⟩
    | cons h => cases h
  | succ fuel ih =>
    induction h with
    | nil =>
      have hnil : ∀ n, level (childIds initialSpans) [] n = [] := fun n => level_eq_nil_of_le rfl (Nat.zero_le n)
      have hlevels : levels (childIds initialSpans) [] (fuel + 1) = [] :=
        levels_eq_of_le (n := 0) rfl (Nat.zero_le _)
      exact ⟨hnil _, by rw [hlevels]; exact .nil⟩
    | @cons id node ids nodes hnode _ ihs =>
      obtain ⟨span, children, hspan, hchildren, rfl⟩ := buildNode_succ.mp hnode
      obtain ⟨hnil, hperm⟩ := ih hchildren
      have hid : span.spanId = id := (lookup_spanMap hspan).2
      rw [← List.singleton_append]
      constructor
      · rw [level_append, ihs.1, List.append_nil, level_succ, List.flatMap_singleton]
        exact hnil
      · rw [allNodes_cons, List.map_append, traverse_all, List.map_cons]
        refine ((hperm.cons _).append ihs.2).trans ?_
        refine List.Perm.trans ?_ (levels_append _ _ _).symm
        rw [levels_succ [id], List.flatMap_singleton]
        show (span.spanId :: _ ++ _).Perm _
        rw [hid]
        exact .refl _

/-- Where the unfolding ends, the calls return. -/
theorem exists_builds (depth : Nat) (hids : ∀ id ∈ ids, id ∈ spanMap initialSpans)
    (h : level (childIds initialSpans) ids fuel = []) : ∃ nodes, Builds initialSpans fuel depth ids nodes := by
  induction fuel generalizing depth ids with
  | zero =>
    obtain rfl : ids = [] := h
    exact ⟨[], .nil⟩
  | succ fuel ih =>
    induction ids with
    | nil => exact ⟨[], .nil⟩
    | cons id ids ihs =>
      rw [← List.singleton_append, level_append] at h
      obtain ⟨hone, hrest⟩ := List.append_eq_nil_iff.mp h
      obtain ⟨nodes, hnodes⟩ := ihs (fun x hx => hids x (by simp [hx])) hrest
      rw [level_succ, List.flatMap_singleton] at hone
      obtain ⟨span, hspan⟩ := Option.isSome_iff_exists.mp (AList.lookup_isSome.mpr (hids id (by simp)))
      have hlisted : ∀ x ∈ childIds initialSpans id, x ∈ spanMap initialSpans := fun x hx => by
        obtain ⟨t, ht, rfl, -⟩ := mem_childIds.mp hx
        exact mem_spanMap.mpr ⟨t, ht, rfl⟩
      obtain ⟨children, hchildren⟩ := ih (depth + 1) hlisted hone
      exact ⟨⟨span, children, depth⟩ :: nodes,
        .cons (buildNode_succ.mpr ⟨span, children, hspan, hchildren, rfl⟩) hnodes⟩

end Build

section Size

variable {initialSpans : List Span}

/-- The construction ends, no chain of calls comes back to an id, and there are
no more nodes than spans. -/
def BuiltWithin (initialSpans : List Span) : Prop :=
  (∀ r ∈ rootIds initialSpans, ∀ id, Relation.ReflTransGen (Child (childIds initialSpans)) r id →
    ¬Relation.TransGen (Child (childIds initialSpans)) id id) ∧
  ∃ fuel tree, buildTree initialSpans fuel = some tree ∧ (allNodes tree).length ≤ initialSpans.length

theorem listed_of_reached {r id : String} (hr : r ∈ rootIds initialSpans)
    (h : Relation.ReflTransGen (Child (childIds initialSpans)) r id) :
    id ∈ initialSpans.map Span.spanId := by
  rcases Relation.ReflTransGen.cases_tail h with rfl | ⟨parent, -, hchild⟩
  · obtain ⟨s, hs, rfl, -⟩ := mem_rootIds.mp hr
    exact List.mem_map_of_mem hs
  · obtain ⟨s, hs, rfl, -⟩ := mem_childIds.mp hchild
    exact List.mem_map_of_mem hs

theorem listed_of_rootIds {id : String} (h : id ∈ rootIds initialSpans) : id ∈ spanMap initialSpans := by
  obtain ⟨s, hs, rfl, -⟩ := mem_rootIds.mp h
  exact mem_spanMap.mpr ⟨s, hs, rfl⟩

/-- A tree of that size has all that the unfolding ever gets. -/
theorem BuiltWithin.length_levels_le (h : BuiltWithin initialSpans) :
    (levels (childIds initialSpans) (rootIds initialSpans) (initialSpans.length + 1)).length ≤
      initialSpans.length := by
  obtain ⟨hacyclic, fuel, tree, htree, hsize⟩ := h
  obtain ⟨hend, hperm⟩ := Builds.unfolding (mapM_eq_some.mp htree)
  have hbound := level_eq_nil (fun r hr x hx => listed_of_reached hr hx) hacyclic
  rw [List.length_map] at hbound
  have hnodes := hperm.length_eq
  rw [List.length_map] at hnodes
  have hsame : levels (childIds initialSpans) (rootIds initialSpans) (initialSpans.length + 1) =
      levels (childIds initialSpans) (rootIds initialSpans) fuel := by
    rcases Nat.le_total fuel (initialSpans.length + 1) with hle | hle
    · exact levels_eq_of_le hend hle
    · exact (levels_eq_of_le (level_eq_nil_of_le hbound (Nat.le_succ _)) hle).symm
  rw [hsame, ← hnodes]
  exact hsize

/-- As many lines as there are spans at most, and the construction ends in time. -/
theorem level_eq_nil_of_lines
    (h : (initialSpans.map (linesTo initialSpans)).sum ≤ initialSpans.length) :
    level (childIds initialSpans) (rootIds initialSpans) (initialSpans.length + 1) = [] := by
  have hempty : ∃ depth < initialSpans.length + 1,
      level (childIds initialSpans) (rootIds initialSpans) depth = [] := by
    by_contra hne
    push Not at hne
    have hle := length_le_levels hne
    rw [length_levels] at hle
    exact absurd (hle.trans h) (Nat.not_succ_le_self _)
  obtain ⟨depth, hdepth, hnil⟩ := hempty
  exact level_eq_nil_of_le hnil (Nat.le_of_lt hdepth)

/-- The nodes of the tree are the lines that lead to the listings. -/
theorem builtWithin_iff (initialSpans : List Span) :
    BuiltWithin initialSpans ↔ (initialSpans.map (linesTo initialSpans)).sum ≤ initialSpans.length := by
  have hlength : (levels (childIds initialSpans) (rootIds initialSpans)
      (initialSpans.length + 1)).length = (initialSpans.map (linesTo initialSpans)).sum :=
    length_levels _
  constructor
  · intro h
    rw [← hlength]
    exact h.length_levels_le
  · intro h
    have hend := level_eq_nil_of_lines h
    obtain ⟨tree, htree⟩ := exists_builds 0 (fun id => listed_of_rootIds) hend
    refine ⟨fun r hr id hreach => not_returning hend hr hreach, _, tree, mapM_eq_some.mpr htree, ?_⟩
    have hnodes := htree.unfolding.2.length_eq
    rw [List.length_map, hlength] at hnodes
    rw [hnodes]
    exact h

/-- Going from a listing to one of its parent, again and again, leads to one that is put under no parent. -/
def Rooted (initialSpans : List Span) (s : Span) : Prop :=
  ∃ root, Relation.ReflTransGen (Child (parents initialSpans)) s root ∧
    parentOf (spanMap initialSpans) root = none

/-- No id that has children is listed twice below the roots. -/
def SingleParents (initialSpans : List Span) : Prop :=
  initialSpans.Pairwise fun s t => s.spanId = t.spanId → Rooted initialSpans s → Rooted initialSpans t →
    ∀ child ∈ initialSpans, parentOf (spanMap initialSpans) child ≠ some s.spanId

theorem mem_parents {s p : Span} : p ∈ parents initialSpans s ↔
    p ∈ initialSpans ∧ parentOf (spanMap initialSpans) s = some p.spanId := by
  simp [parents]

theorem lines_of_parent {s p : Span} (h : p ∈ parents initialSpans s) (n : Nat) :
    lines initialSpans (n + 1) s = ((parents initialSpans s).map (lines initialSpans n)).sum := by
  rw [lines, if_neg]
  rw [(mem_parents.mp h).2]
  exact Option.some_ne_none _

theorem lines_mono {m n : Nat} (h : m ≤ n) (s : Span) : lines initialSpans m s ≤ lines initialSpans n s := by
  induction m generalizing n s with
  | zero => exact Nat.zero_le _
  | succ m ih =>
    obtain ⟨n, rfl⟩ := Nat.exists_eq_add_of_le' (Nat.one_le_of_lt h)
    rw [lines, lines]
    split_ifs
    · exact Nat.le_refl _
    · exact List.sum_le_sum fun p _ => ih (Nat.le_of_succ_le_succ h) p

theorem Rooted.of_lines {n : Nat} {s : Span} (h : lines initialSpans n s ≠ 0) : Rooted initialSpans s := by
  induction n generalizing s with
  | zero => exact absurd rfl h
  | succ n ih =>
    rw [lines] at h
    split_ifs at h with hroot
    · exact ⟨s, .refl, hroot⟩
    · rw [ne_eq, List.sum_eq_zero_iff_forall_eq_nat] at h
      push Not at h
      obtain ⟨m, hm, hne⟩ := h
      obtain ⟨p, hp, rfl⟩ := List.mem_map.mp hm
      obtain ⟨root, hchain, hroot⟩ := ih hne
      exact ⟨root, .head hp hchain, hroot⟩

/-- What a chain leads to stands in the unfolding at the depth of the chain. -/
theorem Rooted.exists_level {s : Span} (h : Rooted initialSpans s) (hs : s ∈ initialSpans) :
    ∃ depth, 0 < lines initialSpans (depth + 1) s ∧
      s.spanId ∈ level (childIds initialSpans) (rootIds initialSpans) depth := by
  obtain ⟨root, hchain, hroot⟩ := h
  induction hchain using Relation.ReflTransGen.head_induction_on with
  | refl =>
    refine ⟨0, ?_, mem_rootIds.mpr ⟨root, hs, rfl, hroot⟩⟩
    rw [lines, if_pos hroot]
    exact Nat.one_pos
  | @head s p hparent _ ih =>
    obtain ⟨hp, hid⟩ := mem_parents.mp hparent
    obtain ⟨depth, hlines, hlevel⟩ := ih hp
    refine ⟨depth + 1, ?_, List.mem_flatMap.mpr ⟨p.spanId, hlevel, mem_childIds.mpr ⟨s, hs, rfl, hid⟩⟩⟩
    rw [lines_of_parent hparent]
    exact hlines.trans_le (List.single_le_sum (fun _ _ => Nat.zero_le _) _ (List.mem_map_of_mem hparent))

/-- Where the ids with children are listed once, at most one line leads to a listing. -/
theorem SingleParents.lines_le (h : SingleParents initialSpans) (n : Nat) {s : Span} (hs : s ∈ initialSpans) :
    lines initialSpans n s ≤ 1 := by
  induction n generalizing s with
  | zero => exact Nat.zero_le _
  | succ n ih =>
    rw [lines]
    split_ifs with hroot
    · exact Nat.le_refl _
    · apply sum_map_le_one
      · refine (h.sublist List.filter_sublist).imp_of_mem fun {p q} hp hq hpq => ?_
        obtain ⟨-, hpid⟩ := mem_parents.mp hp
        obtain ⟨-, hqid⟩ := mem_parents.mp hq
        by_contra hne
        push Not at hne
        have hsame : p.spanId = q.spanId := Option.some.inj (hpid.symm.trans hqid)
        exact hpq hsame (.of_lines hne.1) (.of_lines hne.2) s hs hpid
      · exact fun p hp => ih (mem_parents.mp hp).1

theorem SingleParents.linesTo_sum_le (h : SingleParents initialSpans) :
    (initialSpans.map (linesTo initialSpans)).sum ≤ initialSpans.length := by
  have hle := List.sum_le_card_nsmul (initialSpans.map (linesTo initialSpans)) 1 fun n hn => by
    obtain ⟨s, hs, rfl⟩ := List.mem_map.mp hn
    exact h.lines_le _ hs
  simpa using hle

/-- Where all listings are below the roots, the tree has a node for each, and no room for another. -/
theorem BuiltWithin.singleParents (h : BuiltWithin initialSpans)
    (hrooted : ∀ s ∈ initialSpans, Rooted initialSpans s) : SingleParents initialSpans := by
  have hend := level_eq_nil (fun r hr x hx => listed_of_reached hr hx) h.1
  rw [List.length_map] at hend
  have hpos : ∀ s ∈ initialSpans, 0 < lines initialSpans initialSpans.length s := by
    intro s hs
    obtain ⟨depth, hlines, hlevel⟩ := (hrooted s hs).exists_level hs
    have hdepth : depth < initialSpans.length := by
      by_contra hle
      rw [level_eq_nil_of_le hend (Nat.le_of_not_lt hle)] at hlevel
      cases hlevel
    exact hlines.trans_le (lines_mono hdepth s)
  have hline : ∀ s ∈ initialSpans, 1 ≤ linesTo initialSpans s := fun s hs =>
    (hpos s hs).trans_le (lines_mono (Nat.le_succ _) s)
  have hone : ∀ s ∈ initialSpans, linesTo initialSpans s ≤ 1 := by
    by_contra hmore
    push Not at hmore
    have hlt := List.sum_lt_sum (fun _ => 1) (linesTo initialSpans) hline hmore
    have hsum := (builtWithin_iff initialSpans).mp h
    simp at hlt
    omega
  apply List.pairwise_iff_forall_sublist.mpr
  intro s t hst hsame _ _ child hchild hparent
  have hparents : [s, t].Sublist (parents initialSpans child) := by
    have hfilter := hst.filter fun p => decide (parentOf (spanMap initialSpans) child = some p.spanId)
    rwa [List.filter_cons_of_pos (by simpa using hparent),
      List.filter_cons_of_pos (by simpa [← hsame] using hparent), List.filter_nil] at hfilter
  have hlines : (parents initialSpans child).length ≤ linesTo initialSpans child := by
    rw [linesTo, lines_of_parent (hparents.subset List.mem_cons_self)]
    have hall := List.length_le_sum_of_one_le
      ((parents initialSpans child).map (lines initialSpans initialSpans.length))
    rw [List.length_map] at hall
    apply hall
    intro n hn
    obtain ⟨p, hp, rfl⟩ := List.mem_map.mp hn
    exact hpos p (mem_parents.mp hp).1
  have hlength := hparents.length_le
  have hle := hone child hchild
  simp only [List.length_cons, List.length_nil] at hlength
  omega

/-- The tree of the viewer is finite and no larger than the list where the ids with children are
listed once below the roots, and, if all listings are below the roots, only there. -/
theorem builtWithin_of_singleParents (initialSpans : List Span) :
    (SingleParents initialSpans → BuiltWithin initialSpans) ∧
      ((∀ s ∈ initialSpans, Rooted initialSpans s) → BuiltWithin initialSpans → SingleParents initialSpans) :=
  ⟨fun h => (builtWithin_iff initialSpans).mpr h.linesTo_sum_le, fun hrooted h => h.singleParents hrooted⟩

/-- A root and its child, of which the child has been exported a second time. -/
def retriedChild : List Span := [⟨"a1", none, 10⟩, ⟨"b2", some "a1", 20⟩, ⟨"b2", some "a1", 20⟩]

theorem builtWithin_of_singleParents_retriedChild : BuiltWithin retriedChild := by
  apply (builtWithin_of_singleParents retriedChild).1
  have hleaf : ∀ child ∈ retriedChild, parentOf (spanMap retriedChild) child ≠ some "b2" := by decide
  refine .cons ?_ (.cons ?_ (.cons ?_ .nil))
  · intro t ht hsame
    have hother : ∀ t ∈ retriedChild.tail, t.spanId ≠ "a1" := by decide
    exact absurd hsame.symm (hother t ht)
  · exact fun _ _ _ _ _ => hleaf
  · exact fun _ ht => by cases ht

/-- A root and its child, both exported a second time. -/
def retriedSpans : List Span :=
  [⟨"a1", none, 10⟩, ⟨"a1", none, 10⟩, ⟨"b2", some "a1", 20⟩, ⟨"b2", some "a1", 20⟩]

/-- The child stands twice under each of the two roots: six nodes for four spans. -/
theorem not_builtWithin_retriedSpans : ¬BuiltWithin retriedSpans := by
  intro h
  have hle := h.length_levels_le
  revert hle
  decide

end Size

end Lrcp.Viewer
