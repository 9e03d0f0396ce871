import Lrcp.Framework.Halts
import Lrcp.Gateway.Session

namespace Lrcp.Gateway

open Lrcp.Framework Lrcp.Wal

/-- What an operation can answer: a write that succeeds takes some of its bytes. -/
def Op.canAnswer : (α : Type) → Op α → Except String α → Prop
  | _, .write _ data, r => ∀ n, r = .ok n → 0 < n ∧ n ≤ data.length
  | _, _, _ => True

section Progress

variable {New : Table Bytes → String → Prop} {d d' : Disk} {protobuf : Protobuf} {config : ServerConfig}
  {state : SharedState} {request : HttpRequest}

theorem canAnswer_effect {faults : Prop} {α : Type} {o : Op α} {r : Except String α}
    (h : (machine faults New).step o d r d') : o.canAnswer α r := by
  cases o with
  | write path data =>
    intro n hn
    rcases h with ⟨m, hpos, hle, hr, -⟩ | ⟨-, error, m, hr, -⟩
    · obtain rfl : m = n := Except.ok.inj (hr.symm.trans hn)
      exact ⟨hpos, hle⟩
    · rw [hr] at hn
      cases hn
  | _ => trivial

/-- A short write leaves fewer bytes to write. -/
theorem ends_writeAll (path : String) (data : Bytes) : Ends Op.canAnswer (writeAll path data) := by
  apply Halts.repeatUntil List.length
  intro remaining
  have hwrite : Halts Op.canAnswer (Op.canAnswer Nat (.write path remaining))
      (Prog.perform (.write path remaining)) := Halts.perform fun r hr => hr
  split
  · exact .ret fun t h => by cases h
  · apply hwrite.bind
    · intro written hwritten
      have hbounds : 0 < written ∧ written ≤ remaining.length := hwritten written rfl
      apply Halts.ret
      intro t h
      obtain rfl : remaining.drop written = t := Sum.inl.inj (Except.ok.inj h)
      rw [List.length_drop]
      omega
    · intro e _ t h
      cases h

theorem ends_writeRecord (path : String) (payload : Bytes) :
    Ends Op.canAnswer (WalWriter.writeRecord path payload) := by
  unfold WalWriter.writeRecord
  apply (ends_writeAll path _).bind
  intro _
  apply (ends_writeAll path payload).bind
  exact fun _ => .perform _

theorem ends_openNewSegment (writer : WalWriter) : Ends Op.canAnswer writer.openNewSegment := by
  unfold WalWriter.openNewSegment
  apply (Ends.perform _).bind
  intro now
  apply (Ends.perform _).bind
  intro sequence
  apply (Ends.perform _).tryThen
  intro opened
  cases opened with
  | ok _ => exact .ret _
  | error error => exact .ret _

theorem ends_append (writer : WalWriter) (payload : Bytes) : Ends Op.canAnswer (writer.append payload) := by
  unfold WalWriter.append
  apply Ends.cond (.ret _)
  apply Ends.bind (Ends.cond (ends_openNewSegment writer) (.ret _))
  intro left
  obtain ⟨writer', opened⟩ := left
  cases opened with
  | error error => exact .ret _
  | ok _ =>
    apply (ends_writeRecord _ payload).tryThen
    intro result
    cases result with
    | error error => exact .ret _
    | ok _ => exact .ret _

theorem ends_onRead : Ends Op.canAnswer (onRead protobuf config state request) := by
  unfold onRead handleRequest
  apply Ends.cond (.ret _)
  cases checkRequest protobuf config request with
  | inl conclusion => exact .ret _
  | inr exportRequest => exact (ends_append _ request.body).bind fun _ => .ret _

/-- No request keeps a session busy for ever, however short the writes are and whatever fails. -/
theorem onRead_ends : ¬∃ c : Nat → Call (SharedState × HttpResponse) × Disk,
    (c 0).1 = onRead protobuf config state request ∧
    ∀ n, Prog.Step (machine True New) (c n) (c (n + 1)) := by
  intro ⟨c, hfirst, hsteps⟩
  have hends : Ends Op.canAnswer (c 0).1 := by
    rw [hfirst]
    exact ends_onRead
  have hanswers : ∀ {β : Type} (o : Op β) d r d', True → (machine True New).step o d r d' →
      o.canAnswer β r := fun o d r d' _ hstep => canAnswer_effect hstep
  exact hends.no_infinite_run hanswers (fun _ => trivial) hsteps

end Progress

end Lrcp.Gateway
