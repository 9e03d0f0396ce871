import Lrcp.Pipeline.Serving

namespace Lrcp.Pipeline

open Lrcp.Framework Lrcp.Wal Lrcp.Gateway

/-- The process of the gateway: it is not there, waits, or has read a request and serves it. -/
inductive Process
  | stopped
  | waiting (state : SharedState)
  | serving (request : HttpRequest) (p : Call (SharedState × HttpResponse))

/-- The gateway and the backend on one data directory: the threads of the backend, the segment
counter and the process of the gateway, the bodies that have passed its checks, and the export
requests answered with 200, each with its segment. -/
structure Deployment where
  pool : Pool Store.Op Otlp.PyError Unit Store.World Store.Thread
  sequence : Nat
  process : Process
  received : List Bytes
  acknowledged : List (String × Bytes)

namespace Deployment

/-- The directory and the counter as the gateway has left them. -/
def write (D : Deployment) (s : Store.World × Nat) : Deployment :=
  { D with
    pool := { D.pool with state := s.1 }
    sequence := s.2 }

/-- A deployment that has not run yet. -/
def new (w : Store.World) : Deployment := ⟨⟨fun _ => none, w⟩, 0, .stopped, [], []⟩

/-- One step: of the backend, or the gateway starts, reads a request, takes one step of serving it,
answers it, or stops between two requests. No file operation of the gateway fails. -/
inductive Step (S : System Store.Op Otlp.PyError Unit Store.World Store.Thread) (protobuf : Protobuf)
    (config : ServerConfig) : Deployment → Deployment → Prop
  | backend {D pool} (h : S.offline.Step D.pool pool) : Step S protobuf config D { D with pool }
  | start {D walWriter s} (hprocess : D.process = .stopped)
      (hrun : Prog.Runs gateway (WalWriter.construct config.maxWalFileBytes, (D.pool.state, 0))
        (.ret walWriter, s)) :
      Step S protobuf config D { D.write s with process := .waiting ⟨walWriter, {}⟩ }
  | receive {D state} (request : HttpRequest) (hprocess : D.process = .waiting state) :
      Step S protobuf config D { D with
        process := .serving request (onRead protobuf config state request)
        received := if passesChecks protobuf config request then D.received ++ [request.body] else D.received }
  | serve {D request p p' s} (hprocess : D.process = .serving request p)
      (hstep : Prog.Step gateway (p, (D.pool.state, D.sequence)) (p', s)) :
      Step S protobuf config D { D.write s with process := .serving request p' }
  | answer {D request state response} (hprocess : D.process = .serving request (.ret (state, response))) :
      Step S protobuf config D { D with
        process := .waiting state
        acknowledged := if request.isExport && response.status = .ok then
          D.acknowledged ++ [(state.walWriter.currentPath, request.body)] else D.acknowledged }
  | stop {D state} (hprocess : D.process = .waiting state) :
      Step S protobuf config D { D with process := .stopped }

def Reach (S : System Store.Op Otlp.PyError Unit Store.World Store.Thread) (protobuf : Protobuf)
    (config : ServerConfig) : Deployment → Deployment → Prop :=
  Relation.ReflTransGen (Step S protobuf config)

/-- The program that thread `t` runs in the first deployment is still running in the second. -/
def During (S : System Store.Op Otlp.PyError Unit Store.World Store.Thread) (protobuf : Protobuf)
    (config : ServerConfig) (t : Store.Thread) : Deployment → Deployment → Prop :=
  Relation.ReflTransGen fun D E => Step S protobuf config D E ∧ (E.pool.thread t).isSome

end Deployment

/-- What the process of the gateway knows: the bodies stored before the request that it serves come
from the requests received. -/
inductive Phase (protobuf : Protobuf) (config : ServerConfig) (stored : List (String × Bytes))
    (received : List Bytes) (s : Store.World × Nat) : Process → Prop
  | stopped (segments : Segments config stored "" [] s.1) (hreceived : (stored.map Prod.snd).Sublist received) :
      Phase protobuf config stored received s .stopped
  | waiting {state} (idle : Idle config stored state.walWriter s.1)
      (hreceived : (stored.map Prod.snd).Sublist received) :
      Phase protobuf config stored received s (.waiting state)
  | serving {request p} (storing : Storing protobuf config stored request s.1)
      (covered : Covered gateway Trimmed (Writes protobuf config stored request)
        (fun r s => ∃ answer, r = .ok answer ∧ Served protobuf config stored request s.1 answer) p s)
      (hreceived : (stored.map Prod.snd ++
        if passesChecks protobuf config request then [request.body] else []).Sublist received) :
      Phase protobuf config stored received s (.serving request p)

/-- The gateway and its segments fit together. -/
def Linked (protobuf : Protobuf) (config : ServerConfig) (D : Deployment) : Prop :=
  ∃ stored, Phase protobuf config stored D.received (D.pool.state, D.sequence) D.process ∧
    D.acknowledged.Sublist stored

/-- The segments hold the bodies stored: the acknowledged ones, and others that have been received. -/
structure Holds (config : ServerConfig) (stored : List (String × Bytes)) (D : Deployment) : Prop where
  segments : ∃ path part, Torn part ∧ Segments config stored path part D.pool.state
  acknowledged : D.acknowledged.Sublist stored
  received : (stored.map Prod.snd).Sublist D.received

section Refinement

variable {protobuf : Protobuf} {config : ServerConfig} {stored : List (String × Bytes)}
  {received : List Bytes} {s s' : Store.World × Nat} {D E : Deployment} {process : Process}

theorem Linked.holds (h : Linked protobuf config D) : ∃ stored, Holds config stored D := by
  obtain ⟨stored, hphase, hacknowledged⟩ := h
  generalize hprocess : D.process = process at hphase
  cases hphase with
  | stopped segments hreceived => exact ⟨stored, ⟨"", [], torn_nil, segments⟩, hacknowledged, hreceived⟩
  | waiting idle hreceived => exact ⟨stored, ⟨"", [], torn_nil, idle.segments⟩, hacknowledged, hreceived⟩
  | serving storing covered hreceived =>
    cases storing with
    | before torn segments =>
      exact ⟨stored, ⟨_, _, torn, segments⟩, hacknowledged, (List.sublist_append_left _ _).trans hreceived⟩
    | after passed segments =>
      rw [if_pos passed] at hreceived
      exact ⟨_, ⟨_, [], torn_nil, segments⟩, hacknowledged.trans (List.sublist_append_left _ _),
        by simpa using hreceived⟩

theorem Phase.trims (h : Phase protobuf config stored received s process) (ht : Trimmed s s') :
    Phase protobuf config stored received s' process := by
  cases h with
  | stopped segments hreceived => exact .stopped (segments.trims ht.2) hreceived
  | waiting idle hreceived => exact .waiting (idle.trims ht.2) hreceived
  | serving storing covered hreceived =>
    exact .serving (storing.trims ht.2) (covered.rely trimmed_trans ht) hreceived

/-- Up to the record that is not finished, segments get whole records. -/
theorem extended_run {G : Store.World × Nat → Store.World × Nat → Prop}
    (hG : ∀ s s', G s s' → s'.1 = s.1 ∨ Store.Extended s.1.settled s'.1.settled)
    (h : Relation.ReflTransGen G s s') :
    Relation.ReflTransGen Store.Extended s.1.settled s'.1.settled := by
  induction h with
  | refl => exact .refl
  | @tail s₁ s₂ _ hstep ih =>
    rcases hG s₁ s₂ hstep with heq | hextended
    · rw [heq]
      exact ih
    · exact ih.tail hextended

/-- The start of the gateway. -/
theorem Linked.start (h : Linked protobuf config D) (hprocess : D.process = .stopped) {walWriter : WalWriter}
    (hrun : Prog.Runs gateway (WalWriter.construct config.maxWalFileBytes, (D.pool.state, 0))
      (.ret walWriter, s)) :
    Relation.ReflTransGen Store.Extended D.pool.state.settled s.1.settled ∧
      Linked protobuf config { D.write s with process := .waiting ⟨walWriter, {}⟩ } := by
  obtain ⟨stored, hphase, hacknowledged⟩ := h
  rw [hprocess] at hphase
  cases hphase with
  | stopped segments hreceived =>
    have hstart : Segments config stored "" [] (D.pool.state, 0).1 := segments
    obtain ⟨hmoves, hend⟩ := (Covered.of_triple trimmed_refl construct_beside hstart).runs trimmed_refl hrun
    obtain ⟨s₀, ht, writer, heq, hidle⟩ := hend.outcome (r := .ok walWriter)
    obtain rfl := Except.ok.inj heq
    exact ⟨extended_run (fun _ _ hG => hG) hmoves, stored, .waiting (hidle.trims ht.2) hreceived, hacknowledged⟩

theorem Linked.receive (h : Linked protobuf config D) {state : SharedState} (request : HttpRequest)
    (hprocess : D.process = .waiting state) :
    Linked protobuf config { D with
      process := .serving request (onRead protobuf config state request)
      received := if passesChecks protobuf config request then D.received ++ [request.body]
        else D.received } := by
  obtain ⟨stored, hphase, hacknowledged⟩ := h
  rw [hprocess] at hphase
  cases hphase with
  | waiting idle hreceived =>
    refine ⟨stored, .serving (.before torn_nil idle.segments)
      (.of_triple trimmed_refl onRead_beside idle) ?_, hacknowledged⟩
    dsimp only
    split_ifs
    · exact hreceived.append (List.Sublist.refl _)
    · rw [List.append_nil]
      exact hreceived

/-- One step of serving a request. -/
theorem Linked.serve (h : Linked protobuf config D) {request : HttpRequest}
    {p p' : Call (SharedState × HttpResponse)} (hprocess : D.process = .serving request p)
    (hstep : Prog.Step gateway (p, (D.pool.state, D.sequence)) (p', s)) :
    Relation.ReflTransGen Store.Extended D.pool.state.settled s.1.settled ∧
      Linked protobuf config { D.write s with process := .serving request p' } := by
  obtain ⟨stored, hphase, hacknowledged⟩ := h
  rw [hprocess] at hphase
  cases hphase with
  | serving storing covered hreceived =>
    obtain ⟨hwrites, hcovered⟩ := covered.step trimmed_refl hstep
    rcases hwrites with heq | ⟨hsame, hstoring⟩
    · subst heq
      exact ⟨.refl, stored, .serving storing hcovered hreceived, hacknowledged⟩
    · refine ⟨?_, stored, .serving hstoring hcovered hreceived, hacknowledged⟩
      rcases hsame with heq | hextended
      · rw [heq]
      · exact .single hextended

theorem Linked.answer (h : Linked protobuf config D) {request : HttpRequest} {state : SharedState}
    {response : HttpResponse} (hprocess : D.process = .serving request (.ret (state, response))) :
    Linked protobuf config { D with
      process := .waiting state
      acknowledged := if request.isExport && response.status = .ok then
        D.acknowledged ++ [(state.walWriter.currentPath, request.body)] else D.acknowledged } := by
  obtain ⟨stored, hphase, hacknowledged⟩ := h
  rw [hprocess] at hphase
  cases hphase with
  | serving storing covered hreceived =>
    obtain ⟨s₀, ht, answer, heq, hserved⟩ := covered.outcome (r := .ok (state, response))
    obtain rfl := Except.ok.inj heq
    cases hserved with
    | refused hresponse idle =>
      rw [hresponse]
      exact ⟨stored, .waiting (idle.trims ht.2) ((List.sublist_append_left _ _).trans hreceived), hacknowledged⟩
    | stored passed idle =>
      rw [if_pos passed] at hreceived
      refine ⟨_, .waiting (idle.trims ht.2) (by simpa using hreceived), ?_⟩
      dsimp only
      split_ifs
      · exact hacknowledged.append (List.Sublist.refl _)
      · exact hacknowledged.trans (List.sublist_append_left _ _)

end Refinement

section Reach

variable {libs : Otlp.Libs} {settings : Store.Thread → Store.Settings} {app : Nat} {Stop : Store.World → Prop}
  {K : Store.World → Store.Progress → Prop} {Bad : String → WalCorruptionError → Bytes → Prop}
  {config : ServerConfig} {protobuf : Protobuf} {w : Store.World} {D E : Deployment} {t : Store.Thread}

/-- Every step of the deployment is one of the backend, or some of its gateway, without the record that
is being written; what has been received or acknowledged stays so. -/
theorem Linked.step (h : Linked protobuf config D) (hlibs : Store.FreshNames libs)
    (U : Store.Upheld libs settings Stop K Bad) (hstop : ∀ w, Stop w → Stop w.settled)
    (hsound : Framework.Sound (Store.service libs settings app Store.Op.spares Stop)
      (Store.Intact libs K) (Store.Undisturbed libs K) (Store.Yields libs K)
      (D.pool.map Store.World.settled))
    (hstep : Deployment.Step (Store.patientService libs settings app Stop) protobuf config D E) :
    (Store.service libs settings app Store.Op.spares Stop).Moves (D.pool.map Store.World.settled)
        (E.pool.map Store.World.settled) ∧
      Linked protobuf config E ∧ D.received <+: E.received ∧ D.acknowledged <+: E.acknowledged := by
  cases hstep with
  | backend hbackend =>
    have hsettled := (Store.service_maps hstop).step hbackend
    have herases := Store.service_erases (System.guard_step hbackend)
    have htrims := herases.trims (Store.service_trims hlibs U hsound hsettled).2
    obtain ⟨stored, hphase, hacknowledged⟩ := h
    exact ⟨.inl hsettled, ⟨stored, hphase.trims ⟨rfl, htrims⟩, hacknowledged⟩, List.prefix_rfl,
      List.prefix_rfl⟩
  | start hprocess hrun =>
    obtain ⟨hextended, hlinked⟩ := h.start hprocess hrun
    exact ⟨.inr ⟨rfl, hextended⟩, hlinked, List.prefix_rfl, List.prefix_rfl⟩
  | receive request hprocess =>
    refine ⟨.inr ⟨rfl, .refl⟩, h.receive request hprocess, ?_, List.prefix_rfl⟩
    dsimp only
    split_ifs
    · exact List.prefix_append _ _
    · exact List.prefix_rfl
  | serve hprocess hserve =>
    obtain ⟨hextended, hlinked⟩ := h.serve hprocess hserve
    exact ⟨.inr ⟨rfl, hextended⟩, hlinked, List.prefix_rfl, List.prefix_rfl⟩
  | answer hprocess =>
    refine ⟨.inr ⟨rfl, .refl⟩, h.answer hprocess, List.prefix_rfl, ?_⟩
    dsimp only
    split_ifs
    · exact List.prefix_append _ _
    · exact List.prefix_rfl
  | stop hprocess =>
    obtain ⟨stored, hphase, hacknowledged⟩ := h
    rw [hprocess] at hphase
    cases hphase with
    | waiting idle hreceived =>
      exact ⟨.inr ⟨rfl, .refl⟩, ⟨stored, .stopped idle.segments hreceived, hacknowledged⟩, List.prefix_rfl,
        List.prefix_rfl⟩

/-- A run of the deployment is one of the backend. -/
theorem Linked.reach (h : Linked protobuf config D) (hlibs : Store.FreshNames libs)
    (U : Store.Upheld libs settings Stop K Bad) (hstop : ∀ w, Stop w → Stop w.settled)
    (hsound : Framework.Sound (Store.service libs settings app Store.Op.spares Stop)
      (Store.Intact libs K) (Store.Undisturbed libs K) (Store.Yields libs K)
      (D.pool.map Store.World.settled))
    (hE : Deployment.Reach (Store.patientService libs settings app Stop) protobuf config D E) :
    (Store.service libs settings app Store.Op.spares Stop).Reach (D.pool.map Store.World.settled)
        (E.pool.map Store.World.settled) ∧
      Linked protobuf config E ∧ D.received <+: E.received ∧ D.acknowledged <+: E.acknowledged := by
  induction hE with
  | refl => exact ⟨.refl, h, List.prefix_rfl, List.prefix_rfl⟩
  | tail _ hstep ih =>
    obtain ⟨hreach, hlinked, hreceived, hacknowledged⟩ := ih
    have hnow := (Store.service_compatible hlibs U).sound_reach hsound hreach
    obtain ⟨hmoves, hlinked', hreceived', hacknowledged'⟩ := hlinked.step hlibs U hstop hnow hstep
    exact ⟨hreach.trans hmoves.reach, hlinked', hreceived.trans hreceived', hacknowledged.trans hacknowledged'⟩

/-- While a thread runs in the deployment it runs in the backend. -/
theorem Linked.during (h : Linked protobuf config D) (hlibs : Store.FreshNames libs)
    (U : Store.Upheld libs settings Stop K Bad) (hstop : ∀ w, Stop w → Stop w.settled)
    (hsound : Framework.Sound (Store.service libs settings app Store.Op.spares Stop)
      (Store.Intact libs K) (Store.Undisturbed libs K) (Store.Yields libs K)
      (D.pool.map Store.World.settled))
    (hE : Deployment.During (Store.patientService libs settings app Stop) protobuf config t D E) :
    (Store.service libs settings app Store.Op.spares Stop).During t (D.pool.map Store.World.settled)
        (E.pool.map Store.World.settled) ∧ Linked protobuf config E := by
  induction hE with
  | refl => exact ⟨.refl, h⟩
  | tail _ hstep ih =>
    obtain ⟨hduring, hlinked⟩ := ih
    have hnow := (Store.service_compatible hlibs U).sound_reach hsound (System.reach_during hduring)
    obtain ⟨hmoves, hlinked', -, -⟩ := hlinked.step hlibs U hstop hnow hstep.1
    exact ⟨hduring.trans (hmoves.during hstep.2), hlinked'⟩

/-- A deployment on an empty directory. -/
theorem linked_new (hw : Store.Initial libs w) (hempty : w.walDir = ∅) : Linked protobuf config (.new w) := by
  have hnone : ∀ t : Table Bytes, t = ∅ → ∀ f, t.lookup f = none :=
    fun t ht f => AList.lookup_eq_none.mpr (ht ▸ AList.notMem_empty f)
  refine ⟨[], .stopped ⟨fun f hf => ?_, fun f => ?_, fun entry he => ?_, fun entry he => ?_⟩
    (List.Sublist.refl _), List.Sublist.refl _⟩
  · rw [Deployment.new, hempty] at hf
    exact absurd hf (AList.notMem_empty f)
  · show w.written f = _
    rw [Store.World.written, hnone _ hempty, hnone _ (by rw [hw.history])]
    simp [bodiesOf]
  · cases he
  · cases he

theorem settled_initial (hw : Store.Initial libs w) (hempty : w.walDir = ∅) : w.settled = w := by
  have hmap : ∀ t : Table Bytes, t = ∅ → Table.map complete t = t := by
    intro t ht
    apply Table.map_eq
    intro f bytes hl
    rw [ht] at hl
    cases hl
  unfold Store.World.settled
  rw [hmap _ hempty, hmap _ (by rw [hw.history])]

/-- In a run of a new deployment everybody is covered. -/
theorem reach_new (hlibs : Store.FreshNames libs) (U : Store.Upheld libs settings Stop K Bad)
    (hstop : ∀ w, Stop w → Stop w.settled) (hw : Store.Initial libs w) (hK : K w {}) (hempty : w.walDir = ∅)
    (hD : Deployment.Reach (Store.patientService libs settings app Stop) protobuf config (.new w) D) :
    (Store.service libs settings app Store.Op.spares Stop).Reach ⟨fun _ => none, w⟩
        (D.pool.map Store.World.settled) ∧
      Linked protobuf config D ∧ Framework.Sound (Store.service libs settings app Store.Op.spares Stop)
        (Store.Intact libs K) (Store.Undisturbed libs K) (Store.Yields libs K)
        (D.pool.map Store.World.settled) := by
  have hnew : (Deployment.new w).pool.map Store.World.settled = ⟨fun _ => none, w⟩ := by
    rw [Pool.map, Deployment.new, settled_initial hw hempty]
  have hidle : Framework.Sound (Store.service libs settings app Store.Op.spares Stop)
      (Store.Intact libs K) (Store.Undisturbed libs K) (Store.Yields libs K)
      ((Deployment.new w).pool.map Store.World.settled) :=
    hnew ▸ Compatible.sound_idle (hw.intact hK)
  obtain ⟨hreach, hlinked, -, -⟩ := (linked_new hw hempty).reach hlibs U hstop hidle hD
  exact ⟨hnew ▸ hreach, hlinked, (Store.service_compatible hlibs U).sound_reach hidle hreach⟩

end Reach

/-- The gateway serves a request while the backend stands still. -/
theorem reach_served {S : System Store.Op Otlp.PyError Unit Store.World Store.Thread} {protobuf : Protobuf}
    {config : ServerConfig} {D : Deployment} {request : HttpRequest} {p p' : Call (SharedState × HttpResponse)}
    {s : Store.World × Nat} (hprocess : D.process = .serving request p)
    (h : Prog.Runs gateway (p, (D.pool.state, D.sequence)) (p', s)) :
    Deployment.Reach S protobuf config D { D.write s with process := .serving request p' } := by
  suffices hkey : ∀ c, Prog.Runs gateway (p, (D.pool.state, D.sequence)) c →
      Deployment.Reach S protobuf config D { D.write c.2 with process := .serving request c.1 } from hkey _ h
  intro c hc
  induction hc with
  | refl =>
    have hsame : D = { D.write (D.pool.state, D.sequence) with process := .serving request p } := by
      rw [← hprocess]
      rfl
    rw [← hsame]
    exact .refl
  | tail _ hstep ih => exact ih.tail (.serve rfl hstep)

/-- All operations of the gateway succeed, and it opens the first segment. -/
def execFirst : {α : Type} → Op α → Disk → Option (Except String α × Disk)
  | _, .openSegment path, d =>
    if path = segmentName 1 0 ∧ d.walDir.keys = [] then some (.ok (), d.create path) else none
  | _, o, d => exec none o d

/-- The same on a store from which nothing has been deleted. -/
def gatewayFirst {α : Type} (o : Op α) (s : Store.World × Nat) : Option (Except String α × Store.World × Nat) :=
  if s.1.history.unlinked.keys = [] then
    (execFirst o ⟨s.1.walDir, s.2⟩).map fun (r, d) => (r, { s.1 with walDir := d.walDir }, d.sequence)
  else none

theorem notMem_of_keys {t : Table Bytes} (h : t.keys = []) (f : String) : f ∉ t := by
  intro hf
  rw [AList.mem_keys, h] at hf
  cases hf

theorem execFirst_effect {w : Store.World} (hw : w.history.unlinked.keys = []) {α : Type} (o : Op α) (d : Disk)
    (r : Except String α) (d' : Disk) (h : execFirst o d = some (r, d')) : Effect False (Opens w) o d r d' := by
  cases o with
  | openSegment path =>
    simp only [execFirst] at h
    split_ifs at h with hfirst
    obtain ⟨rfl, hkeys⟩ := hfirst
    obtain ⟨rfl, rfl⟩ := Prod.mk.inj (Option.some.inj h)
    have hnone := notMem_of_keys hkeys
    exact .inl ⟨⟨⟨1, 0, rfl, by decide, fun now sequence hf => absurd hf (hnone _)⟩, hnone _,
      notMem_of_keys hw _⟩, rfl, rfl⟩
  | now => exact @exec_effect False d d' none (.inl rfl) _ .now r h
  | fetchAdd => exact @exec_effect False d d' none (.inl rfl) _ .fetchAdd r h
  | write path data => exact @exec_effect False d d' none (.inl rfl) _ (.write path data) r h
  | fsync path => exact @exec_effect False d d' none (.inl rfl) _ (.fsync path) r h

theorem gatewayFirst_step {α : Type} (o : Op α) (s : Store.World × Nat) (r : Except String α)
    (s' : Store.World × Nat) (h : gatewayFirst o s = some (r, s')) : gateway.step o s r s' := by
  unfold gatewayFirst at h
  split_ifs at h with hkeys
  obtain ⟨result, hexec, heq⟩ := Option.map_eq_some_iff.mp h
  obtain ⟨rfl, rfl⟩ := Prod.mk.inj heq
  exact ⟨result.2, execFirst_effect hkeys o _ _ _ hexec, rfl⟩

/-- A gateway whose parser is that of the backend. -/
def sampleGateway : Protobuf := ⟨Store.sampleLibs.parseFromString, some []⟩

/-- A gateway that has not served any request. -/
def servedNone : Deployment where
  pool := ⟨fun _ => none, .ofSegments (AList.insert "wal-1-0.wal" [] ∅)⟩
  sequence := 1
  process := .waiting ⟨⟨64 * 1024 * 1024, "wal-1-0.wal", 0, true⟩, {}⟩
  received := []
  acknowledged := []

/-- It has read a request with one span. -/
def servingOne : Deployment where
  pool := servedNone.pool
  sequence := 1
  process := .serving (sampleRequest Store.spanPayload) (onRead sampleGateway {}
    ⟨⟨64 * 1024 * 1024, "wal-1-0.wal", 0, true⟩, {}⟩ (sampleRequest Store.spanPayload))
  received := [Store.spanPayload]
  acknowledged := []

theorem servedNone_reach (S : System Store.Op Otlp.PyError Unit Store.World Store.Thread) :
    Deployment.Reach S sampleGateway {} (.new (.ofSegments ∅)) servedNone :=
  .single (@Deployment.Step.start S sampleGateway {} (.new (.ofSegments ∅))
    ⟨64 * 1024 * 1024, "wal-1-0.wal", 0, true⟩ (.ofSegments (AList.insert "wal-1-0.wal" [] ∅), 1) rfl
    (Prog.follow_runs gatewayFirst_step 10 _))

theorem servingOne_reach (S : System Store.Op Otlp.PyError Unit Store.World Store.Thread) :
    Deployment.Reach S sampleGateway {} (.new (.ofSegments ∅)) servingOne :=
  (servedNone_reach S).tail (@Deployment.Step.receive S sampleGateway {} servedNone
    ⟨⟨64 * 1024 * 1024, "wal-1-0.wal", 0, true⟩, {}⟩ (sampleRequest Store.spanPayload) rfl)

end Lrcp.Pipeline
