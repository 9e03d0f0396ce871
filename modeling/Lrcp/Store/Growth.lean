import Lrcp.Store.Coverage
import Lrcp.Wal.Whole

namespace Lrcp.Store

open Lrcp.Wal Lrcp.Otlp Lrcp.Framework

/-- What the gateway does, in whole records. It appends to the segment it has
opened itself, which is the last one and consists of the records appended. -/
inductive GatewayStep (w : World) : World → Prop
  | append {f payload} (hf : f ∈ w.walDir) (hlast : ∀ g ∈ w.walDir, parseWalKey g ≤ parseWalKey f)
      (hwhole : Whole (w.content f)) (h : payload.length < 2 ^ 32) :
      GatewayStep w { w with walDir := w.walDir.insert f (w.content f ++ encodeRecord payload) }
  | openSegment {f} (hname : hasSuffix ".wal" f = true) (hnew : f ∉ w.walDir)
      (hunused : f ∉ w.history.unlinked) (hlast : ∀ g ∈ w.walDir, parseWalKey g < parseWalKey f) :
      GatewayStep w { w with walDir := w.walDir.insert f [] }

/-- The segment gets the given bytes, which are finished records as before. -/
structure Extends (w : World) (f : String) (bytes : Bytes) : Prop where
  grown : w.written f <+: bytes
  whole : Whole (w.written f)
  wholeAfter : Whole bytes
  last : ¬w.Sealed f
  unused : f ∈ w.history.unlinked → f ∈ w.walDir

section Growth

variable {libs : Libs} {M : Nat} {tracked : Prop} {C P : List Entry} {w w' : World} {p : Progress}
  {f : String} {bytes : Bytes}

theorem written_insert {f : String} {bytes : Bytes} (g : String) :
    World.written { w with walDir := w.walDir.insert f bytes } g =
      if g = f then bytes else w.written g := by
  unfold World.written
  split_ifs with h
  · subst h
    rw [AList.lookup_insert]
    rfl
  · rw [AList.lookup_insert_ne h]

theorem content_insert {f : String} {bytes : Bytes} (g : String) :
    World.content { w with walDir := w.walDir.insert f bytes } g =
      if g = f then bytes else w.content g := by
  unfold World.content
  split_ifs with h
  · subst h
    rw [AList.lookup_insert]
    rfl
  · rw [AList.lookup_insert_ne h]

theorem GatewayStep.extends (h : GatewayStep w w') :
    ∃ f bytes, Extends w f bytes ∧ w' = { w with walDir := w.walDir.insert f bytes } := by
  cases h with
  | @append f payload hf hlast hwhole h =>
    refine ⟨f, _, ⟨?_, ?_, hwhole.append h, fun hsealed => ?_, fun _ => hf⟩, rfl⟩
    · rw [written_of_mem hf]
      exact List.prefix_append _ _
    · rw [written_of_mem hf]
      exact hwhole
    · obtain ⟨-, g, hg, hlt⟩ := hsealed
      exact absurd hlt (not_lt_of_ge (hlast g hg))
  | @openSegment f hname hnew hunused hlast =>
    have hw : w.written f = [] := by
      rw [World.written, AList.lookup_eq_none.mpr hnew, AList.lookup_eq_none.mpr hunused]
      rfl
    refine ⟨f, _, ⟨?_, ?_, whole_nil, fun hsealed => hnew hsealed.1, fun hmem => absurd hmem hunused⟩, rfl⟩
    · rw [hw]
    · rw [hw]
      exact whole_nil

theorem Extends.written_prefix (h : Extends w f bytes) (g : String) :
    w.written g <+: World.written { w with walDir := w.walDir.insert f bytes } g := by
  rw [written_insert]
  split_ifs with hg
  · rw [hg]
    exact h.grown
  · exact List.prefix_rfl

theorem Ledger.extend (L : Ledger libs M C P w p) (h : Extends w f bytes) :
    Ledger libs M C P { w with walDir := w.walDir.insert f bytes } p := by
  refine L.grow ?_ (fun _ _ => ?_) ?_ ?_ h.written_prefix fun g hg => ?_
  iterate 4 rfl
  rw [written_insert]
  split_ifs with hgf
  · have hdirty := L.dirty g hg
    subst hgf
    exact h.whole.dirty h.grown hdirty
  · exact L.dirty g hg

theorem Coverage.extend (hC : Coverage libs M tracked C P w p) (L : Ledger libs M C P w p)
    (h : Extends w f bytes) :
    Coverage libs M tracked C P { w with walDir := w.walDir.insert f bytes } p := by
  apply hC.grow L (fun g hg => (AList.mem_insert _).mpr (.inr hg)) h.written_prefix
  · intro g r hr hstop
    rw [written_insert] at hr
    split_ifs at hr with hgf
    · subst hgf
      exact h.whole.behind h.grown hr hstop
    · exact absurd hr.2.stop_le hstop
  · intro _ g hg
    rw [content_insert, if_neg]
    intro hgf
    subst hgf
    exact h.last hg
  · intro _ g hg hmem
    rcases (AList.mem_insert _).mp hg with rfl | hg
    · exact h.unused hmem
    · exact hg

/-- A call inside the lock does not mind. -/
theorem Extends.frame (h : Extends w f bytes) :
    Frame w { w with walDir := w.walDir.insert f bytes } where
  control := rfl
  stamps := rfl
  connections := Nat.le_refl _
  history := rfl
  segment g hg := by
    refine ⟨(AList.mem_insert _).mpr (.inr hg), ?_⟩
    rw [content_insert]
    split_ifs with hgf
    · subst hgf
      rw [← written_of_mem hg]
      exact h.grown
    · exact List.prefix_rfl
  frozen g hg := by
    rw [content_insert, if_neg]
    intro hgf
    subst hgf
    exact h.last hg
  parquet _ _ h := h
  kept _ _ := rfl

theorem GatewayStep.frame (h : GatewayStep w w') : w'.exclusive = w.exclusive ∧ Frame w w' := by
  obtain ⟨f, bytes, hf, rfl⟩ := h.extends
  exact ⟨rfl, hf.frame⟩

end Growth

end Lrcp.Store
