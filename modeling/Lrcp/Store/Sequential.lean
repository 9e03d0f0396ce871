import Lrcp.Store.Booking
import Lrcp.Store.Coverage

namespace Lrcp.Store

open Lrcp.Wal Lrcp.Otlp Lrcp.Framework

/-- The operations with their failures, all of them. -/
abbrev Unguarded : Guard := fun _ _ => True

/-- The bookkeeping of a call that started with the records `o.committed`
committed. `complete` asks for the coverage as well. -/
def Kept (libs : Libs) (M : Nat) (complete tracked : Prop) (o : Origin) (w : World) (p : Progress) :
    Prop :=
  (∀ f, w.written f = o.written f) ∧ ∃ C P, o.committed <+: C ∧
    (C.flatMap (rowsOf libs)).length = (o.committed.flatMap (rowsOf libs)).length + p.total ∧
    Ledger libs M C P w p ∧ (complete → Coverage libs M tracked C P w p)

/-- What can be said in the middle of a call of the thread `t`. -/
def Midway (libs : Libs) (M : Nat) (complete tracked : Prop) (o : Origin) (t : Thread) (w : World) :
    Prop :=
  Fresh libs w ∧ (∀ c, w.exclusive = some c → c.owner = t ∧ c.serial < w.connections) ∧
    ∃ p, Kept libs M complete tracked o w p

section Discipline

variable {libs : Libs} {settings : Settings} {complete tracked : Prop} {o : Origin} {c : Conn}

/-- The coverage of the records is an account that can be kept. -/
theorem coverage_bookkeeping : Bookkeeping libs settings Unguarded o
    fun C P w p => complete → Coverage libs settings.maxWalRecordBytes tracked C P w p where
  quiet hX hq hc := (hX hc).quiet hq
  read hX L hf _ _ hstart hrec hrows hc := (hX hc).read L hf hstart hrec hrows
  flush hX L _ _ _ _ hc := (hX hc).flush L _ _ _
  mark hX L hsealed hpos hc := (hX hc).mark L hsealed hpos
  quarantine size hX L hnil hwritten hbad hoffset hc := by
    apply (hX hc).quarantine L hnil
    intro r hstart hrec
    rw [hwritten] at hrec
    exact hbad.not_record (hstart.trans hoffset.symm) hrec
  compact n hX _ hname _ hc := (hX hc).compact _ _
  delete hX L hnil hsealed hmark hc := (hX hc).delete L hnil hsealed hmark

/-- One call at a time: the ledger satisfies the laws. -/
theorem kept_discipline : Discipline libs settings Unguarded c Eq
    (fun _ w' => Midway libs settings.maxWalRecordBytes complete tracked o c.owner w')
    (Kept libs settings.maxWalRecordBytes complete tracked o)
    (fun f e _ => Unreadable settings.maxWalRecordBytes o f e) :=
  booked_discipline coverage_bookkeeping

end Discipline

section Relocked

variable {libs : Libs} {w w' : World}

theorem Relocked.coverage {M : Nat} {tracked : Prop} {C P : List Entry} {p : Progress}
    (h : Relocked w w') (hC : Coverage libs M tracked C P w p) : Coverage libs M tracked C P w' p := by
  obtain ⟨e, n, l, renamed, rfl⟩ := h
  exact ⟨hC.covered, hC.pending, hC.marked, hC.known⟩

theorem Relocked.kept {M : Nat} {complete tracked : Prop} {o : Origin} {p : Progress}
    (h : Relocked w w') (hI : Kept libs M complete tracked o w p) :
    Kept libs M complete tracked o w' p :=
  h.booked (X := fun C P w p => complete → Coverage libs M tracked C P w p)
    (fun _ _ hX hc => h.coverage (hX hc)) hI

end Relocked

/-- The store between two calls. -/
structure Rest (libs : Libs) (M : Nat) (complete tracked : Prop) (C : List Entry) (w : World) : Prop where
  fresh : Fresh libs w
  unlocked : w.exclusive = none
  ledger : Ledger libs M C [] w {}
  coverage : complete → Coverage libs M tracked C [] w {}

/-- How a call leaves the store: outside the lock, with the progress it made, and
with `E` if it returns. -/
def Ended (libs : Libs) (M : Nat) (complete tracked : Prop) (o : Origin) {α : Type}
    (E : α → World → Progress → Prop) (r : Except PyError α) (w : World) : Prop :=
  Fresh libs w ∧ w.exclusive = none ∧
    ∃ p, Kept libs M complete tracked o w p ∧ ∀ a, r = .ok a → E a w p

section Calls

variable {libs : Libs} {complete tracked : Prop} {o : Origin} {t : Thread} {C : List Entry} {w : World}

theorem Rest.kept {M : Nat} (h : Rest libs M complete tracked C w) :
    Kept libs M complete tracked ⟨w.written, C⟩ w {} :=
  ⟨fun _ => rfl, C, [], List.prefix_rfl, rfl, h.ledger, h.coverage⟩

/-- Before the lock is taken: the segments are those of `d`. -/
def Before (libs : Libs) (M : Nat) (complete tracked : Prop) (o : Origin) (d : Table Bytes)
    (w : World) : Prop :=
  Fresh libs w ∧ w.exclusive = none ∧ w.walDir = d ∧ Kept libs M complete tracked o w {}

theorem kept_encloses {M : Nat} : Encloses libs t Eq
    (fun _ w' => Midway libs M complete tracked o t w') (Kept libs M complete tracked o) :=
  amid_encloses fun _ _ _ h hI => h.kept hI

end Calls

end Lrcp.Store
