import Lrcp.Framework.Unfolding
import Mathlib.Data.List.AList
import Mathlib.Data.List.Sort
import Mathlib.Data.String.Basic

namespace Lrcp.Viewer

open Lrcp.Framework

/-- A span of the list that the viewer is given, as far as its tree depends on it.
The start time is the number that JavaScript reads. -/
structure Span where
  spanId : String
  parentSpanId : Option String
  startTimeUnixNano : Int
  deriving DecidableEq

/-- `new Map<string, …>()` -/
abbrev JsMap (α : Type) := AList fun _ : String => α

inductive SpanNode
  | mk (span : Span) (children : List SpanNode) (depth : Nat)

namespace SpanNode

def span : SpanNode → Span
  | ⟨span, _, _⟩ => span

def children : SpanNode → List SpanNode
  | ⟨_, children, _⟩ => children

def depth : SpanNode → Nat
  | ⟨_, _, depth⟩ => depth

end SpanNode

section Tree

variable (initialSpans : List Span)

/-- `map`, in which the last span listed under an id stands. -/
def spanMap : JsMap Span := initialSpans.foldl (fun map span => map.insert span.spanId span) ∅

/-- The parent under which a span is put: none if it names none, the empty id, or
one that is not listed. -/
def parentOf (map : JsMap Span) (span : Span) : Option String :=
  span.parentSpanId.filter fun parentId => parentId ≠ "" ∧ parentId ∈ map

structure Hierarchy where
  childrenMap : JsMap (List String) := ∅
  rootIds : List String := []

/-- One round of the loop that fills `childrenMap` and `rootIds`. -/
def Hierarchy.add (map : JsMap Span) (h : Hierarchy) (span : Span) : Hierarchy :=
  match parentOf map span with
  | none => { h with rootIds := h.rootIds ++ [span.spanId] }
  | some parentId =>
    let existing := (h.childrenMap.lookup parentId).getD []
    { h with childrenMap := h.childrenMap.insert parentId (existing ++ [span.spanId]) }

def hierarchy : Hierarchy := initialSpans.foldl (Hierarchy.add (spanMap initialSpans)) {}

/-- `map.get(id)?.start_time_unix_nano ?? 0` -/
def startTime (map : JsMap Span) (id : String) : Int :=
  ((map.lookup id).map Span.startTimeUnixNano).getD 0

/-- `ids.sort((a, b) => …)`, which is stable -/
def sortByStart (map : JsMap Span) (ids : List String) : List String :=
  ids.insertionSort fun a b => startTime map a ≤ startTime map b

def childIds (id : String) : List String :=
  sortByStart (spanMap initialSpans) (((hierarchy initialSpans).childrenMap.lookup id).getD [])

def rootIds : List String := sortByStart (spanMap initialSpans) (hierarchy initialSpans).rootIds

/-- `buildNode`, with at most `fuel` calls inside each other: `none` if there are more. -/
def buildNode : Nat → String → Nat → Option SpanNode
  | 0, _, _ => none
  | fuel + 1, id, depth => do
    let span ← (spanMap initialSpans).lookup id
    let children ← (childIds initialSpans id).mapM fun cid => buildNode fuel cid (depth + 1)
    some ⟨span, children, depth⟩

/-- `treeNodes` -/
def buildTree (fuel : Nat) : Option (List SpanNode) :=
  (rootIds initialSpans).mapM fun rid => buildNode initialSpans fuel rid 0

end Tree

section Visible

variable (collapsedSpans : String → Bool)

mutual

/-- `traverse`: what a node adds to the list of visible nodes. -/
def SpanNode.traverse : SpanNode → List SpanNode
  | ⟨span, children, depth⟩ =>
    ⟨span, children, depth⟩ :: if collapsedSpans span.spanId then [] else traverseEach children

def traverseEach : List SpanNode → List SpanNode
  | [] => []
  | node :: nodes => node.traverse ++ traverseEach nodes

end

def visibleNodes (tree : List SpanNode) : List SpanNode := traverseEach collapsedSpans tree

end Visible

/-- All nodes of a tree: those that are visible with nothing collapsed. -/
def allNodes (tree : List SpanNode) : List SpanNode := visibleNodes (fun _ => false) tree

end Lrcp.Viewer
