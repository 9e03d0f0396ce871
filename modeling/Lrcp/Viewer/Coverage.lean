import Lrcp.Viewer.Forest

namespace Lrcp.Viewer

open Lrcp.Framework

section Coverage

variable {initialSpans : List Span} {s t : Span}

/-- The ids are pairwise distinct. -/
def Distinct (initialSpans : List Span) : Prop := (initialSpans.map Span.spanId).Nodup

/-- `t` is reached from `s` by going from a span to its parent, once or more often. -/
def Ancestor (initialSpans : List Span) (s t : Span) : Prop :=
  Relation.TransGen (Child (parents initialSpans)) s t

/-- What the viewer shows with nothing collapsed: all spans, each under its
parent if that is shown, and siblings in the order of their start times. -/
structure Shown (initialSpans : List Span) (tree : List SpanNode) : Prop where
  every : ((allNodes tree).map SpanNode.span).Perm initialSpans
  placed : ∀ node ∈ allNodes tree, ∀ parent ∈ allNodes tree,
    node.span.parentSpanId = some parent.span.spanId → parent.span.spanId ≠ "" →
    node ∈ parent.children ∧ node.depth = parent.depth + 1
  ordered : (tree.map fun node => node.span.startTimeUnixNano).Pairwise (· ≤ ·) ∧
    ∀ node ∈ allNodes tree,
      (node.children.map fun child => child.span.startTimeUnixNano).Pairwise (· ≤ ·)

theorem Distinct.eq (h : Distinct initialSpans) (hs : s ∈ initialSpans) (ht : t ∈ initialSpans)
    (hid : s.spanId = t.spanId) : s = t :=
  List.inj_on_of_nodup_map h hs ht hid

theorem Distinct.lookup (h : Distinct initialSpans) (hs : s ∈ initialSpans) :
    (spanMap initialSpans).lookup s.spanId = some s := by
  obtain ⟨t, ht⟩ := Option.isSome_iff_exists.mp (AList.lookup_isSome.mpr (mem_spanMap.mpr ⟨s, hs, rfl⟩))
  obtain ⟨hmem, hid⟩ := lookup_spanMap ht
  rw [ht, h.eq hmem hs hid]

theorem Distinct.singleParents (h : Distinct initialSpans) : SingleParents initialSpans :=
  (List.pairwise_map.mp h).imp fun hne hsame => absurd hsame hne

/-- A span without a line has ancestors at every distance. -/
theorem level_parents_ne_nil (hs : s ∈ initialSpans) {n : Nat} (h : lines initialSpans n s = 0) :
    level (parents initialSpans) [s] n ≠ [] := by
  induction n generalizing s with
  | zero => exact List.cons_ne_nil _ _
  | succ n ih =>
    rw [lines] at h
    split_ifs at h with hroot
    obtain ⟨parent, hparent⟩ := Option.ne_none_iff_exists'.mp hroot
    obtain ⟨p, hp, hid⟩ := mem_spanMap.mp (mem_of_parentOf hparent)
    have hmem : p ∈ parents initialSpans s := mem_parents.mpr ⟨hp, by rw [hparent, hid]⟩
    have hzero : lines initialSpans n p = 0 := by
      have hall := List.sum_eq_zero_iff_forall_eq_nat.mp h
      exact hall _ (List.mem_map_of_mem hmem)
    rw [level_succ, List.flatMap_singleton]
    obtain ⟨before, after, hsplit⟩ := List.append_of_mem hmem
    rw [hsplit, ← List.singleton_append, level_append, level_append]
    intro hnil
    exact ih hp hzero (List.append_eq_nil_iff.mp (List.append_eq_nil_iff.mp hnil).2).1

/-- A span that is no ancestor of its own, as none of the others is, has a line. -/
theorem lines_pos (hacyclic : ∀ s ∈ initialSpans, ¬Ancestor initialSpans s s) (hs : s ∈ initialSpans) :
    0 < linesTo initialSpans s := by
  by_contra hzero
  have hne := level_parents_ne_nil hs (Nat.eq_zero_of_not_pos hzero)
  have hreached : ∀ t, Relation.ReflTransGen (Child (parents initialSpans)) s t → t ∈ initialSpans := by
    intro t ht
    rcases Relation.ReflTransGen.cases_tail ht with rfl | ⟨u, -, hchild⟩
    · exact hs
    · exact (mem_parents.mp hchild).1
  apply hne
  apply level_eq_nil_of_le (n := initialSpans.length) _ (Nat.le_succ _)
  apply level_eq_nil
  · intro r hr t ht
    rw [List.mem_singleton.mp hr] at ht
    exact hreached t ht
  · intro r hr t ht
    rw [List.mem_singleton.mp hr] at ht
    exact hacyclic t (hreached t ht)

end Coverage

section Nodes

variable {initialSpans : List Span} {fuel depth : Nat} {ids : List String} {nodes : List SpanNode}
  {node : SpanNode}

theorem buildNode_spec {id : String} (h : buildNode initialSpans fuel id depth = some node) :
    (spanMap initialSpans).lookup id = some node.span ∧ node.span.spanId = id ∧ node.depth = depth ∧
      ∃ fuel', Builds initialSpans fuel' (depth + 1) (childIds initialSpans id) node.children := by
  cases fuel with
  | zero => cases h
  | succ fuel =>
    obtain ⟨span, children, hspan, hchildren, rfl⟩ := buildNode_succ.mp h
    exact ⟨hspan, (lookup_spanMap hspan).2, rfl, fuel, hchildren⟩

theorem Builds.mem (h : Builds initialSpans fuel depth ids nodes) (hnode : node ∈ nodes) :
    node.span.spanId ∈ ids ∧
      buildNode initialSpans fuel node.span.spanId depth = some node := by
  induction h with
  | nil => cases hnode
  | cons hid _ ih =>
    rcases List.mem_cons.mp hnode with rfl | hnode
    · obtain ⟨-, hsame, -⟩ := buildNode_spec hid
      rw [hsame]
      exact ⟨List.mem_cons_self, hid⟩
    · exact ⟨List.mem_cons_of_mem _ (ih hnode).1, (ih hnode).2⟩

/-- Every node of a tree has been built by a call for its id. -/
theorem Builds.called (h : Builds initialSpans fuel depth ids nodes) (hnode : node ∈ allNodes nodes) :
    ∃ fuel', buildNode initialSpans fuel' node.span.spanId node.depth = some node := by
  induction fuel generalizing depth ids nodes with
  | zero =>
    obtain ⟨top, htop, -⟩ := mem_allNodes.mp hnode
    cases (h.mem htop).2
  | succ fuel ih =>
    obtain ⟨top, htop, hmem⟩ := mem_allNodes.mp hnode
    obtain ⟨-, hcall⟩ := h.mem htop
    obtain ⟨span, children, -, hchildren, rfl⟩ := buildNode_succ.mp hcall
    rw [traverse_all] at hmem
    rcases List.mem_cons.mp hmem with rfl | hmem
    · exact ⟨fuel + 1, hcall⟩
    · exact ih hchildren hmem

theorem Builds.startTimes (h : Builds initialSpans fuel depth ids nodes) :
    (nodes.map fun node => node.span.startTimeUnixNano) =
      ids.map (startTime (spanMap initialSpans)) := by
  induction h with
  | nil => rfl
  | cons hid _ ih =>
    rw [List.map_cons, List.map_cons, ih, startTime, (buildNode_spec hid).1]
    rfl

theorem sortByStart_pairwise (map : JsMap Span) (ids : List String) :
    ((sortByStart map ids).map (startTime map)).Pairwise (· ≤ ·) := by
  rw [List.pairwise_map]
  unfold sortByStart
  exact List.pairwise_insertionSort _ _

end Nodes

section Shown

variable {initialSpans : List Span} {s t : Span} {fuel : Nat} {tree : List SpanNode}

theorem transGen_childIds (hs : s ∈ initialSpans) (h : Ancestor initialSpans s t) :
    t ∈ initialSpans ∧ Relation.TransGen (Child (childIds initialSpans)) t.spanId s.spanId := by
  induction h with
  | single hparent =>
    obtain ⟨hmem, hid⟩ := mem_parents.mp hparent
    exact ⟨hmem, .single (mem_childIds.mpr ⟨s, hs, rfl, hid⟩)⟩
  | tail _ hparent ih =>
    obtain ⟨hmem, hid⟩ := mem_parents.mp hparent
    exact ⟨hmem, .head (mem_childIds.mpr ⟨_, ih.1, rfl, hid⟩) ih.2⟩

/-- What is shown completely has no cycle among its spans. -/
theorem not_ancestor (h : buildTree initialSpans fuel = some tree)
    (hall : ∀ s ∈ initialSpans, s ∈ (allNodes tree).map SpanNode.span) (hs : s ∈ initialSpans) :
    ¬Ancestor initialSpans s s := by
  intro hcycle
  obtain ⟨hend, hperm⟩ := Builds.unfolding (mapM_eq_some.mp h)
  obtain ⟨node, hnode, rfl⟩ := List.mem_map.mp (hall s hs)
  have hid : node.span.spanId ∈ levels (childIds initialSpans) (rootIds initialSpans) fuel :=
    hperm.mem_iff.mp (List.mem_map.mpr ⟨node, hnode, rfl⟩)
  obtain ⟨r, hr, hreach⟩ := exists_root_of_levels hid
  exact not_returning hend hr hreach (transGen_childIds hs hcycle).2

theorem parentOf_eq {parent : String} (hp : s.parentSpanId = some parent) (hne : parent ≠ "")
    (hlisted : parent ∈ spanMap initialSpans) : parentOf (spanMap initialSpans) s = some parent := by
  rw [parentOf, hp]
  exact Option.filter_eq_some_iff.mpr ⟨rfl, by simp [hne, hlisted]⟩

/-- With distinct ids a tree has every id at most once. -/
theorem Distinct.nodup_nodes (h : Distinct initialSpans) (htree : buildTree initialSpans fuel = some tree) :
    ((allNodes tree).map fun node => node.span.spanId).Nodup := by
  obtain ⟨-, hperm⟩ := Builds.unfolding (mapM_eq_some.mp htree)
  rw [hperm.nodup_iff, List.nodup_iff_count_le_one]
  intro id
  have hcount := @countP_levels initialSpans fuel fun x => x == id
  rw [List.count, hcount]
  apply sum_map_le_one
  · refine ((List.pairwise_map.mp h).sublist List.filter_sublist).imp_of_mem fun {s t} hs ht hne => ?_
    have hsame : s.spanId = t.spanId :=
      (of_decide_eq_true (List.mem_filter.mp hs).2).trans (of_decide_eq_true (List.mem_filter.mp ht).2).symm
    exact absurd hsame hne
  · exact fun s hs => h.singleParents.lines_le fuel (List.mem_of_mem_filter hs)

theorem Distinct.placed (h : Distinct initialSpans) (htree : buildTree initialSpans fuel = some tree)
    {node parent : SpanNode} (hnode : node ∈ allNodes tree) (hparent : parent ∈ allNodes tree)
    (hid : node.span.parentSpanId = some parent.span.spanId) (hne : parent.span.spanId ≠ "") :
    node ∈ parent.children ∧ node.depth = parent.depth + 1 := by
  have hbuilt : Builds initialSpans fuel 0 (rootIds initialSpans) tree := mapM_eq_some.mp htree
  have hspan : ∀ node ∈ allNodes tree, (spanMap initialSpans).lookup node.span.spanId = some node.span := by
    intro node hnode
    obtain ⟨fuel', hcall⟩ := hbuilt.called hnode
    exact (buildNode_spec hcall).1
  have hlisted : parent.span.spanId ∈ spanMap initialSpans :=
    AList.lookup_isSome.mp (by rw [hspan parent hparent]; rfl)
  have hparentOf := parentOf_eq hid hne hlisted
  have hmem := (lookup_spanMap (hspan node hnode)).1
  rcases mem_or_child tree hnode with htop | ⟨k, hk, hchild⟩
  · obtain ⟨s, hs, hsid, hroot⟩ := mem_rootIds.mp (hbuilt.mem htop).1
    rw [h.eq hs hmem hsid, hparentOf] at hroot
    cases hroot
  · obtain ⟨fuel', hcall⟩ := hbuilt.called hk
    obtain ⟨-, -, -, fuel'', hchildren⟩ := buildNode_spec hcall
    obtain ⟨hcid, hnodeCall⟩ := hchildren.mem hchild
    obtain ⟨t, ht, htid, hkid⟩ := mem_childIds.mp hcid
    rw [h.eq ht hmem htid, hparentOf] at hkid
    have hsame : parent = k :=
      List.inj_on_of_nodup_map (h.nodup_nodes htree) hparent hk (Option.some.inj hkid)
    subst hsame
    exact ⟨hchild, (buildNode_spec hnodeCall).2.2.1⟩

theorem ordered (htree : buildTree initialSpans fuel = some tree) :
    (tree.map fun node => node.span.startTimeUnixNano).Pairwise (· ≤ ·) ∧
      ∀ node ∈ allNodes tree,
        (node.children.map fun child => child.span.startTimeUnixNano).Pairwise (· ≤ ·) := by
  have hbuilt : Builds initialSpans fuel 0 (rootIds initialSpans) tree := mapM_eq_some.mp htree
  constructor
  · rw [hbuilt.startTimes]
    exact sortByStart_pairwise _ _
  · intro node hnode
    obtain ⟨fuel', hcall⟩ := hbuilt.called hnode
    obtain ⟨-, -, -, fuel'', hchildren⟩ := buildNode_spec hcall
    rw [hchildren.startTimes]
    exact sortByStart_pairwise _ _

/-- With distinct ids the viewer shows every span once, in its place, exactly
when no span is among its own ancestors. -/
theorem shown_iff (h : Distinct initialSpans) :
    (∃ fuel tree, buildTree initialSpans fuel = some tree ∧ Shown initialSpans tree) ↔
      ∀ s ∈ initialSpans, ¬Ancestor initialSpans s s := by
  constructor
  · intro hshown s hs
    obtain ⟨fuel, tree, htree, hall⟩ := hshown
    exact not_ancestor htree (fun t ht => hall.every.mem_iff.mpr ht) hs
  · intro hacyclic
    have hend := level_eq_nil_of_lines h.singleParents.linesTo_sum_le
    obtain ⟨tree, hbuilt⟩ := exists_builds 0 (fun id => listed_of_rootIds) hend
    have htree : buildTree initialSpans (initialSpans.length + 1) = some tree := mapM_eq_some.mpr hbuilt
    refine ⟨_, tree, htree, ?_, fun node hnode parent hparent => h.placed htree hnode hparent,
      ordered htree⟩
    have hnodup : ((allNodes tree).map SpanNode.span).Nodup := by
      have hids := h.nodup_nodes htree
      have hmap : (allNodes tree).map (fun node => node.span.spanId) =
          ((allNodes tree).map SpanNode.span).map Span.spanId := (List.map_map).symm
      rw [hmap] at hids
      exact hids.of_map _
    apply (List.perm_ext_iff_of_nodup hnodup (h.of_map _)).mpr
    intro s
    constructor
    · intro hs
      obtain ⟨node, hnode, rfl⟩ := List.mem_map.mp hs
      obtain ⟨fuel', hcall⟩ := hbuilt.called hnode
      exact (lookup_spanMap (buildNode_spec hcall).1).1
    · intro hs
      have hpos : 0 < (levels (childIds initialSpans) (rootIds initialSpans)
          (initialSpans.length + 1)).countP (· = s.spanId) := by
        rw [countP_levels]
        have hmem : s ∈ initialSpans.filter fun t => t.spanId = s.spanId :=
          List.mem_filter.mpr ⟨hs, by simp⟩
        obtain ⟨before, after, hsplit⟩ := List.append_of_mem hmem
        rw [hsplit, List.map_append, List.map_cons, List.sum_append, List.sum_cons]
        have hline := lines_pos hacyclic hs
        unfold linesTo at hline
        omega
      obtain ⟨id, hid, heq⟩ := List.countP_pos_iff.mp hpos
      obtain rfl := of_decide_eq_true heq
      obtain ⟨node, hnode, hsame⟩ := List.mem_map.mp (hbuilt.unfolding.2.mem_iff.mpr hid)
      obtain ⟨fuel', hcall⟩ := hbuilt.called hnode
      have hspan := (lookup_spanMap (buildNode_spec hcall).1).1
      exact List.mem_map.mpr ⟨node, hnode, h.eq hspan hs hsame⟩

end Shown

/-- A child that is listed before its parent. -/
def childFirst : List Span := [⟨"b2", some "a1", 20⟩, ⟨"a1", none, 10⟩]

theorem shown_childFirst : ∃ fuel tree, buildTree childFirst fuel = some tree ∧ Shown childFirst tree := by
  have htree : buildTree childFirst 2 =
      some [⟨⟨"a1", none, 10⟩, [⟨⟨"b2", some "a1", 20⟩, [], 1⟩], 0⟩] := by rfl
  exact (shown_iff (by unfold Distinct; decide)).mpr fun s hs => not_ancestor htree (by decide) hs

/-- Two spans that name each other as parents. -/
def circularSpans : List Span := [⟨"a1", some "b2", 10⟩, ⟨"b2", some "a1", 20⟩]

/-- Neither of them is a root, and nothing is shown. -/
theorem not_shown_circularSpans : Distinct circularSpans ∧
    ¬∃ fuel tree, buildTree circularSpans fuel = some tree ∧ Shown circularSpans tree := by
  refine ⟨by unfold Distinct; decide, fun h => ?_⟩
  obtain ⟨fuel, tree, htree, hshown⟩ := h
  have hroots : rootIds circularSpans = [] := by decide
  rw [buildTree, hroots] at htree
  obtain rfl := Option.some.inj htree
  exact absurd hshown.every.length_eq (by decide)

end Lrcp.Viewer
