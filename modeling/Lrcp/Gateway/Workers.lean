import Lrcp.Gateway.Requests
import Mathlib.Data.Multiset.Bind

namespace Lrcp.Gateway

open Lrcp.Framework Lrcp.Wal

theorem add_swap (a b c : UInt64) : a + b + c = a + c + b := by
  rw [UInt64.add_assoc, UInt64.add_comm b, ← UInt64.add_assoc]

instance : LeftCommutative Increment.apply where
  left_comm a b stats := by
    cases a <;> cases b <;> simp [Increment.apply, add_swap stats.acceptedResourceSpans,
      add_swap stats.acceptedSpans]

section Workers

variable (protobuf : Protobuf) (config : ServerConfig)

/-- `on_read` and `handle_request` up to the append. -/
def check (request : HttpRequest) : Conclusion ⊕ Otlp.Request :=
  if config.maxBodyBytes < request.body.length then .inl bodyTooLarge
  else checkRequest protobuf config request

/-- A connection that is served: it reads, its request has passed the checks, or it is on the way to the
response. -/
inductive Session
  | reading
  | checked (request : HttpRequest) (exportRequest : Otlp.Request)
      (h : check protobuf config request = .inr exportRequest)
  | answering (request : HttpRequest) (conclusion : Conclusion)

/-- The session that holds the mutex of the `WalWriter`, and what is left of its append. -/
structure Holder where
  request : HttpRequest
  exportRequest : Otlp.Request
  checked : check protobuf config request = .inr exportRequest
  program : Call (WalWriter × Except String Unit)

/-- The worker threads at any time, with the exchanges that have come to an end. -/
structure Workers where
  sessions : Multiset (Session protobuf config)
  mutex : Option (Holder protobuf config)
  walWriter : WalWriter
  stats : GatewayStats
  disk : Disk
  answered : List Exchange

/-- The workers of a gateway that has been constructed. -/
def Workers.new (walWriter : WalWriter) (d : Disk) : Workers protobuf config :=
  ⟨0, none, walWriter, {}, d, []⟩

variable (New : Table Bytes → String → Prop)

/-- A step of one of the threads: on a request, on the mutex, in the append, or on a counter. -/
inductive Workers.Step : Workers protobuf config → Workers protobuf config → Prop
  | accept {W} : Step W { W with sessions := .reading ::ₘ W.sessions }
  | close {W rest} (hs : W.sessions = .reading ::ₘ rest) : Step W { W with sessions := rest }
  | refuse {W rest} (request : HttpRequest) (conclusion : Conclusion) (hs : W.sessions = .reading ::ₘ rest)
      (h : Gateway.check protobuf config request = .inl conclusion) :
      Step W { W with sessions := .answering request conclusion ::ₘ rest }
  | check {W rest} (request : HttpRequest) (exportRequest : Otlp.Request)
      (hs : W.sessions = .reading ::ₘ rest)
      (h : Gateway.check protobuf config request = .inr exportRequest) :
      Step W { W with sessions := .checked request exportRequest h ::ₘ rest }
  | tooLarge {W rest request exportRequest h} (hs : W.sessions = .checked request exportRequest h ::ₘ rest)
      (hsize : 2 ^ 32 - 1 < request.body.length) :
      Step W { W with sessions := .answering request (conclude protobuf request exportRequest
        (.error "payload exceeds WAL record limit")) ::ₘ rest }
  | lock {W rest request exportRequest h} (hs : W.sessions = .checked request exportRequest h ::ₘ rest)
      (hsize : request.body.length ≤ 2 ^ 32 - 1) (hfree : W.mutex = none) :
      Step W { W with
        sessions := rest
        mutex := some ⟨request, exportRequest, h, W.walWriter.append request.body⟩ }
  | run {W a p d} (ha : W.mutex = some a)
      (hrun : Prog.Step (machine True New) (a.program, W.disk) (p, d)) :
      Step W { W with mutex := some { a with program := p }, disk := d }
  | unlock {W a walWriter result} (ha : W.mutex = some a) (hret : a.program = .ret (walWriter, result)) :
      Step W { W with
        mutex := none
        walWriter := walWriter
        sessions := .answering a.request (conclude protobuf a.request a.exportRequest result) ::ₘ W.sessions }
  | count {W rest request increment increments response}
      (hs : W.sessions = .answering request ⟨increment :: increments, response⟩ ::ₘ rest) :
      Step W { W with
        stats := increment.apply W.stats
        sessions := .answering request ⟨increments, response⟩ ::ₘ rest }
  | answer {W rest request response} (hs : W.sessions = .answering request ⟨[], response⟩ ::ₘ rest) :
      Step W { W with sessions := .reading ::ₘ rest, answered := W.answered ++ [(request, response)] }

def Workers.Reach : Workers protobuf config → Workers protobuf config → Prop :=
  Relation.ReflTransGen (Workers.Step protobuf config New)

variable {protobuf config New}

/-- The exchange that is decided, and not yet at an end. -/
def Session.decided : Session protobuf config → Multiset Exchange
  | .answering request conclusion => {(request, conclusion.response)}
  | _ => 0

/-- The increments that are still to come. -/
def Session.owed : Session protobuf config → Multiset Increment
  | .answering _ conclusion => conclusion.increments
  | _ => 0

/-- The disk as it was before the append that is under way. -/
def Workers.Before (New : Table Bytes → String → Prop) (W : Workers protobuf config) (d : Disk) : Prop :=
  match W.mutex with
  | none => W.disk = d
  | some a => Prog.Runs (machine True New) (W.walWriter.append a.request.body, d) (a.program, W.disk)

/-- The threads have done what one thread does that answers these requests one after the other, except
for an append that is under way, and for responses and increments that are still to come. -/
structure Serial (New : Table Bytes → String → Prop) (d₀ : Disk) (W : Workers protobuf config)
    (exchanges : List Exchange) (d : Disk) (state : SharedState) : Prop where
  answers : Answers protobuf config New d₀ exchanges d state
  exchanges : (exchanges : Multiset Exchange) = W.answered + W.sessions.bind Session.decided
  stats : state.stats = (W.sessions.bind Session.owed).foldr Increment.apply W.stats
  walWriter : state.walWriter = W.walWriter
  disk : W.Before New d

end Workers

section Serial

variable {protobuf : Protobuf} {config : ServerConfig} {New : Table Bytes → String → Prop} {d₀ d d' : Disk}
  {W W' : Workers protobuf config} {exchanges : List Exchange} {state state' : SharedState}
  {request : HttpRequest} {response : HttpResponse} {exportRequest : Otlp.Request}

/-- Increments can be made in any order. -/
theorem foldr_increment (increment : Increment) (stats : GatewayStats) (increments : Multiset Increment) :
    increments.foldr Increment.apply (increment.apply stats) =
      increment.apply (increments.foldr Increment.apply stats) := by
  induction increments using Multiset.induction_on with
  | empty => rfl
  | cons next increments ih =>
    rw [Multiset.foldr_cons, Multiset.foldr_cons, ih]
    exact LeftCommutative.left_comm _ _ _

theorem conclude_stats (conclusion : Conclusion) : (state.conclude conclusion).1.stats =
    (conclusion.increments : Multiset Increment).foldr Increment.apply state.stats := by
  rw [Multiset.coe_foldr_swap]
  rfl

theorem onRead_refused {conclusion : Conclusion} (h : check protobuf config request = .inl conclusion) :
    onRead protobuf config state request = .ret (state.conclude conclusion) := by
  unfold check at h
  unfold onRead
  split_ifs at h ⊢ with hlarge
  · obtain rfl := Sum.inl.inj h
    rfl
  · simp only [handleRequest, h]

/-- A request that passes the checks is answered from the result of the append. -/
theorem onRead_checked (h : check protobuf config request = .inr exportRequest) :
    onRead protobuf config state request = (do
      let (walWriter, result) ← state.walWriter.append request.body
      .ret ({ state with walWriter }.conclude (conclude protobuf request exportRequest result))) := by
  unfold check at h
  unfold onRead
  split_ifs at h ⊢ with hlarge
  simp only [handleRequest, h]

theorem onRead_appended {walWriter : WalWriter} {result : Except String Unit}
    (h : check protobuf config request = .inr exportRequest)
    (hrun : Prog.Runs (machine True New) (state.walWriter.append request.body, d)
      (.ret (walWriter, result), d')) :
    Prog.Runs (machine True New) (onRead protobuf config state request, d)
      (.ret ({ state with walWriter }.conclude (conclude protobuf request exportRequest result)), d') := by
  rw [onRead_checked h]
  exact hrun.andThen _

/-- A request that is decided is the next one that the single thread answers. -/
theorem Serial.decide {walWriter : WalWriter} {conclusion : Conclusion} {rest : Multiset (Session protobuf config)}
    (h : Serial New d₀ W exchanges d state)
    (hrun : Prog.Runs (machine True New) (onRead protobuf config state request, d)
      (.ret ({ state with walWriter }.conclude conclusion), d'))
    (hdecided : W.sessions.bind Session.decided = rest.bind Session.decided)
    (howed : W.sessions.bind Session.owed = rest.bind Session.owed)
    (hanswered : W'.answered = W.answered) (hstats : W'.stats = W.stats)
    (hsessions : W'.sessions = .answering request conclusion ::ₘ rest)
    (hwriter : walWriter = W'.walWriter) (hdisk : W'.Before New d') :
    Serial New d₀ W' (exchanges ++ [(request, conclusion.response)]) d'
      ({ state with walWriter }.conclude conclusion).1 where
  answers := h.answers.request hrun
  exchanges := by
    rw [← Multiset.coe_add, h.exchanges, hsessions, Multiset.cons_bind, hanswered, hdecided]
    simp only [Session.decided, Multiset.coe_singleton]
    rw [add_assoc, add_comm (rest.bind Session.decided)]
  stats := by
    rw [hsessions, Multiset.cons_bind, Multiset.foldr_add, hstats, ← howed, ← h.stats, conclude_stats]
    rfl
  walWriter := hwriter
  disk := hdisk

theorem Serial.new {walWriter : WalWriter} (hstart : Prog.Runs (machine True New)
      (WalWriter.construct config.maxWalFileBytes, d₀) (.ret walWriter, d)) :
    Serial New d₀ (.new protobuf config walWriter d) [] d ⟨walWriter, {}⟩ :=
  ⟨.start hstart, rfl, rfl, rfl, rfl⟩

/-- A step by which nothing is decided is no step of the single thread. -/
theorem Serial.keep (h : Serial New d₀ W exchanges d state)
    (hexchanges : (W'.answered : Multiset Exchange) + W'.sessions.bind Session.decided =
      W.answered + W.sessions.bind Session.decided)
    (hstats : (W'.sessions.bind Session.owed).foldr Increment.apply W'.stats =
      (W.sessions.bind Session.owed).foldr Increment.apply W.stats)
    (hwriter : W'.walWriter = W.walWriter) (hdisk : W'.Before New d) :
    ∃ more d' state', Serial New d₀ W' (exchanges ++ more) d' state' := by
  refine ⟨[], d, state, ?_⟩
  rw [List.append_nil]
  exact ⟨h.answers, h.exchanges.trans hexchanges.symm, h.stats.trans hstats.symm,
    h.walWriter.trans hwriter.symm, hdisk⟩

theorem Serial.free (h : Serial New d₀ W exchanges d state) (hfree : W.mutex = none) : W.disk = d := by
  have hbefore := h.disk
  simpa only [Workers.Before, hfree] using hbefore

theorem Serial.held (h : Serial New d₀ W exchanges d state) {a : Holder protobuf config}
    (ha : W.mutex = some a) :
    Prog.Runs (machine True New) (W.walWriter.append a.request.body, d) (a.program, W.disk) := by
  have hbefore := h.disk
  simpa only [Workers.Before, ha] using hbefore

/-- One step of the threads is no step of the single thread, or it answers one more request. -/
theorem Serial.step (h : Serial New d₀ W exchanges d state) (hstep : Workers.Step protobuf config New W W') :
    ∃ more d' state', Serial New d₀ W' (exchanges ++ more) d' state' := by
  cases hstep with
  | accept => exact h.keep (by simp [Session.decided]) (by simp [Session.owed]) rfl h.disk
  | @close rest hs => exact h.keep (by simp [hs, Session.decided]) (by simp [hs, Session.owed]) rfl h.disk
  | @refuse rest request conclusion hs hcheck =>
    have hrun : Prog.Runs (machine True New) (onRead protobuf config state request, d)
        (.ret (state.conclude conclusion), d) := by
      rw [onRead_refused hcheck]
      exact .refl
    exact ⟨_, _, _, h.decide hrun (by simp [hs, Session.decided]) (by simp [hs, Session.owed]) rfl rfl rfl
      h.walWriter h.disk⟩
  | @check rest request exportRequest hs hcheck =>
    exact h.keep (by simp [hs, Session.decided]) (by simp [hs, Session.owed]) rfl h.disk
  | @tooLarge rest request exportRequest hcheck hs hsize =>
    have happend : Prog.Runs (machine True New) (state.walWriter.append request.body, d)
        (.ret (state.walWriter, .error "payload exceeds WAL record limit"), d) := by
      rw [append_tooLarge (by omega)]
      exact .refl
    exact ⟨_, _, _, h.decide (onRead_appended hcheck happend) (by simp [hs, Session.decided])
      (by simp [hs, Session.owed]) rfl rfl rfl h.walWriter h.disk⟩
  | @lock rest request exportRequest hcheck hs hsize hfree =>
    refine h.keep (by simp [hs, Session.decided]) (by simp [hs, Session.owed]) rfl ?_
    show Prog.Runs (machine True New) (W.walWriter.append request.body, d)
      (W.walWriter.append request.body, W.disk)
    rw [h.free hfree]
    exact .refl
  | @run a p d' ha hrun => exact h.keep rfl rfl rfl ((h.held ha).tail hrun)
  | @unlock a walWriter result ha hret =>
    -- the append has come to its end: this is the moment at which the request takes effect
    have happend : Prog.Runs (machine True New) (state.walWriter.append a.request.body, d)
        (.ret (walWriter, result), W.disk) := by
      rw [h.walWriter, ← hret]
      exact h.held ha
    exact ⟨_, _, _, h.decide (onRead_appended a.checked happend) rfl rfl rfl rfl rfl rfl rfl⟩
  | @count rest request increment increments response hs =>
    refine h.keep (by simp [hs, Session.decided]) ?_ rfl h.disk
    simp only [hs, Multiset.cons_bind, Session.owed, Multiset.foldr_add, foldr_increment]
    rfl
  | @answer rest request response hs =>
    refine h.keep ?_ (by simp [hs, Session.owed]) rfl h.disk
    simp only [hs, Multiset.cons_bind, Session.decided]
    rw [← Multiset.coe_add, Multiset.coe_singleton, zero_add, add_assoc]

theorem Serial.reach (h : Serial New d₀ W exchanges d state) (hW : Workers.Reach protobuf config New W W') :
    ∃ more d' state', Serial New d₀ W' (exchanges ++ more) d' state' := by
  induction hW with
  | refl => exact ⟨[], d, state, by rwa [List.append_nil]⟩
  | tail _ hstep ih =>
    obtain ⟨more, d', state', h'⟩ := ih
    obtain ⟨next, d'', state'', h''⟩ := h'.step hstep
    exact ⟨more ++ next, d'', state'', by rwa [← List.append_assoc]⟩

/-- No session is between its request and its response. -/
def Workers.Quiet (W : Workers protobuf config) : Prop :=
  W.mutex = none ∧ ∀ session ∈ W.sessions, session = .reading

theorem Serial.quiet (h : Serial New d₀ W exchanges d state) (hquiet : W.Quiet) :
    exchanges.Perm W.answered ∧ d = W.disk ∧ state = ⟨W.walWriter, W.stats⟩ := by
  have hdecided : W.sessions.bind Session.decided = 0 := by
    rw [Multiset.bind_congr (g := fun _ => 0) fun session hs => by rw [hquiet.2 session hs]; rfl]
    simp
  have howed : W.sessions.bind Session.owed = 0 := by
    rw [Multiset.bind_congr (g := fun _ => 0) fun session hs => by rw [hquiet.2 session hs]; rfl]
    simp
  have hperm : (exchanges : Multiset Exchange) = W.answered := by
    rw [h.exchanges, hdecided, add_zero]
  have hstats : state.stats = W.stats := by
    rw [h.stats, howed, Multiset.foldr_zero]
  refine ⟨Multiset.coe_eq_coe.mp hperm, (h.free hquiet.1).symm, ?_⟩
  rw [← h.walWriter, ← hstats]

theorem Workers.reach_run {a : Holder protobuf config} {p : Call (WalWriter × Except String Unit)}
    (ha : W.mutex = some a) (hrun : Prog.Runs (machine True New) (a.program, W.disk) (p, d)) :
    Workers.Reach protobuf config New W { W with mutex := some { a with program := p }, disk := d } := by
  suffices hkey : ∀ c, Prog.Runs (machine True New) (a.program, W.disk) c →
      Workers.Reach protobuf config New W { W with mutex := some { a with program := c.1 }, disk := c.2 } from
    hkey _ hrun
  intro c hc
  induction hc with
  | refl =>
    have hsame : ({ W with mutex := some { a with program := a.program }, disk := W.disk } :
        Workers protobuf config) = W := by
      rw [← ha]
    rw [hsame]
    exact .refl
  | @tail b c _ hstep ih =>
    exact ih.tail (@Workers.Step.run protobuf config New _ { a with program := b.1 } c.1 c.2 rfl hstep)

/-- A session that is on the way to its response gets there. -/
theorem Workers.reach_counted (increments : List Increment) (rest : Multiset (Session protobuf config))
    (hs : W.sessions = .answering request ⟨increments, response⟩ ::ₘ rest) :
    Workers.Reach protobuf config New W { W with
      stats := increments.foldl (fun stats increment => increment.apply stats) W.stats
      sessions := .answering request ⟨[], response⟩ ::ₘ rest } := by
  induction increments generalizing W with
  | nil =>
    rw [← hs]
    exact .refl
  | cons increment increments ih => exact .head (.count hs) (ih rfl)

/-- However the worker threads interleave, they do what a single thread does that answers the requests one
after the other: one order of the requests fits the whole run, and each request is decided between the
moment it is read and the moment it is answered. -/
theorem workers_serial {walWriter : WalWriter} {W : Nat → Workers protobuf config}
    (hstart : Prog.Runs (machine True New) (WalWriter.construct config.maxWalFileBytes, d₀)
      (.ret walWriter, d)) (hnew : W 0 = .new protobuf config walWriter d)
    (hrun : ∀ i, Workers.Reach protobuf config New (W i) (W (i + 1))) :
    ∃ exchanges : Nat → List Exchange, (∀ ⦃i j⦄, i ≤ j → exchanges i <+: exchanges j) ∧
      ∀ i, ∃ d state, Serial New d₀ (W i) (exchanges i) d state ∧
        ((W i).Quiet → (exchanges i).Perm (W i).answered ∧ d = (W i).disk ∧
          state = ⟨(W i).walWriter, (W i).stats⟩) := by
  let Fits (i : Nat) : Type := { exchanges // ∃ d state, Serial New d₀ (W i) exchanges d state }
  have hnext : ∀ i (now : Fits i), ∃ next : Fits (i + 1), now.1 <+: next.1 := by
    intro i ⟨exchanges, d', state, hserial⟩
    obtain ⟨more, d'', state', hserial'⟩ := hserial.reach (hrun i)
    exact ⟨⟨exchanges ++ more, d'', state', hserial'⟩, List.prefix_append _ _⟩
  choose next hprefix using hnext
  let first : Fits 0 := ⟨[], d, _, hnew ▸ Serial.new hstart⟩
  let fits (i : Nat) : Fits i := Nat.rec first next i
  refine ⟨fun i => (fits i).1, Nat.rel_of_forall_rel_succ_of_le _ fun i => hprefix i (fits i), fun i => ?_⟩
  obtain ⟨d', state, hserial⟩ := (fits i).2
  exact ⟨d', state, hserial, hserial.quiet⟩

end Serial

section Storage

variable {protobuf : Protobuf} {config : ServerConfig} {New : Table Bytes → String → Prop} {d₀ d : Disk}
  {W : Workers protobuf config} {exchanges : List Exchange} {state : SharedState}

theorem Serial.grows (h : Serial New d₀ W exchanges d state) : d.Grows W.disk := by
  cases hmutex : W.mutex with
  | none =>
    rw [h.free hmutex]
    exact .refl d
  | some a => exact grows_of_runs (h.held hmutex)

/-- Whatever fails, and however the threads interleave, the bodies of the export requests that they have
answered with 200, or with 500, lie in the segments, each in a record of its own. -/
theorem workers_store {walWriter : WalWriter} (hstart : Prog.Runs (machine True New)
      (WalWriter.construct config.maxWalFileBytes, d₀) (.ret walWriter, d))
    (hW : Workers.Reach protobuf config New (.new protobuf config walWriter d) W) :
    ∃ stored : List (String × Bytes),
      ((W.answered.filter Exchange.appended).map fun exchange => exchange.1.body).Subperm
        (stored.map Prod.snd) ∧
      ∀ path, Laid (bodiesOf stored path) (W.disk.content path) := by
  obtain ⟨exchanges, d', state, hserial⟩ := (Serial.new hstart).reach hW
  rw [List.nil_append] at hserial
  obtain ⟨stored, hbodies, hlaid⟩ := hserial.answers.stores.grow hserial.grows
  have hanswered : W.answered.Subperm exchanges := by
    rw [← Multiset.coe_le, hserial.exchanges]
    exact Multiset.le_add_right _ _
  obtain ⟨some, hperm, hsublist⟩ := hanswered
  refine ⟨stored, ?_, hlaid⟩
  rw [hbodies]
  exact ⟨_, (hperm.filter _).map _, (hsublist.filter _).map _⟩

end Storage

/-- A gateway with one segment. -/
def sampleWorkers (sessions : List (Session sampleProtobuf {})) (mutex : Option (Holder sampleProtobuf {}))
    (size : Nat) (stats : GatewayStats) (bytes : Bytes) (answered : List Exchange) :
    Workers sampleProtobuf {} where
  sessions := sessions
  mutex := mutex
  walWriter := ⟨64 * 1024 * 1024, "wal-1-0.wal", size, true⟩
  stats := stats
  disk := ⟨AList.insert "wal-1-0.wal" bytes ∅, 1⟩
  answered := answered

theorem sampleRequest_checked :
    check sampleProtobuf {} (sampleRequest [0x0a, 0x00]) = .inr ⟨[⟨[], []⟩]⟩ := rfl

/-- The session of a request that is to be appended. -/
def sampleHolder (program : Call (WalWriter × Except String Unit)) : Holder sampleProtobuf {} :=
  ⟨sampleRequest [0x0a, 0x00], _, sampleRequest_checked, program⟩

theorem sampleWorkers_start : Prog.Runs (machine True Unused)
    (WalWriter.construct (64 * 1024 * 1024), ⟨∅, 0⟩)
    (.ret ⟨64 * 1024 * 1024, "wal-1-0.wal", 0, true⟩, ⟨AList.insert "wal-1-0.wal" [] ∅, 1⟩) :=
  exec_runs none (.inl rfl) 10 _

/-- Two connections: while the request of one is appended, the other one is told that it has no path. -/
theorem sampleWorkers_reach : ∃ refused accepted holder, refused.status = .notFound ∧ accepted.status = .ok ∧
    Workers.Reach sampleProtobuf {} Unused (sampleWorkers [] none 0 {} [] [])
      (sampleWorkers [.reading] (some holder) 0 ⟨0, 0, 0, 1⟩ [] [({}, refused)]) ∧
    Workers.Reach sampleProtobuf {} Unused
      (sampleWorkers [.reading] (some holder) 0 ⟨0, 0, 0, 1⟩ [] [({}, refused)])
      (sampleWorkers [.reading, .reading] none 10 ⟨1, 1, 0, 1⟩ (encodeRecord [0x0a, 0x00])
        [({}, refused), (sampleRequest [0x0a, 0x00], accepted)]) := by
  have happend : Prog.Runs (machine True Unused) (WalWriter.append ⟨64 * 1024 * 1024, "wal-1-0.wal", 0, true⟩
      [0x0a, 0x00], ⟨AList.insert "wal-1-0.wal" [] ∅, 1⟩) (.ret (⟨64 * 1024 * 1024, "wal-1-0.wal", 10, true⟩,
        .ok ()), ⟨AList.insert "wal-1-0.wal" (encodeRecord [0x0a, 0x00]) ∅, 1⟩) :=
    exec_runs none (.inl rfl) 20 _
  let refused : HttpResponse := errorResponse {} .notFound "only POST /v1/traces is supported\n"
  let accepted : HttpResponse := ⟨.ok, 11, kOtlpProtobuf, true, []⟩
  let holder := sampleHolder (WalWriter.append ⟨64 * 1024 * 1024, "wal-1-0.wal", 0, true⟩ [0x0a, 0x00])
  have hconnected : Workers.Reach sampleProtobuf {} Unused (sampleWorkers [] none 0 {} [] [])
      (sampleWorkers [.reading, .reading] none 0 {} [] []) := (Relation.ReflTransGen.single .accept).tail .accept
  have hlocked : Workers.Reach sampleProtobuf {} Unused (sampleWorkers [] none 0 {} [] [])
      (sampleWorkers [.reading] (some holder) 0 {} [] []) :=
    (hconnected.tail (@Workers.Step.check _ _ _ (sampleWorkers [.reading, .reading] none 0 {} [] [])
      {Session.reading} _ _ rfl sampleRequest_checked)).tail (@Workers.Step.lock _ _ _
        (sampleWorkers [.checked _ _ sampleRequest_checked, .reading] none 0 {} [] []) {Session.reading}
        (sampleRequest [0x0a, 0x00]) _ _ rfl (by decide) rfl)
  have hother : Workers.Reach sampleProtobuf {} Unused (sampleWorkers [] none 0 {} [] [])
      (sampleWorkers [.reading] (some holder) 0 ⟨0, 0, 0, 1⟩ [] [({}, refused)]) :=
    ((hlocked.tail (@Workers.Step.refuse _ _ _ (sampleWorkers [.reading] (some holder) 0 {} [] []) 0 {}
      ⟨[.rejectedRequests], refused⟩ rfl rfl)).tail (@Workers.Step.count _ _ _
        (sampleWorkers [.answering {} ⟨[.rejectedRequests], refused⟩] (some holder) 0 {} [] []) 0 _ _ _ _
        rfl)).tail (@Workers.Step.answer _ _ _
          (sampleWorkers [.answering {} ⟨[], refused⟩] (some holder) 0 ⟨0, 0, 0, 1⟩ [] []) 0 _ _ rfl)
  have hstored : Workers.Reach sampleProtobuf {} Unused
      (sampleWorkers [.reading] (some holder) 0 ⟨0, 0, 0, 1⟩ [] [({}, refused)])
      (sampleWorkers [.answering (sampleRequest [0x0a, 0x00]) ⟨[.acceptedRequests, .acceptedResourceSpans 1,
        .acceptedSpans 0], accepted⟩, .reading] none 10 ⟨0, 0, 0, 1⟩ (encodeRecord [0x0a, 0x00])
        [({}, refused)]) :=
    (Workers.reach_run rfl happend).tail (@Workers.Step.unlock _ _ _
      (sampleWorkers [.reading] (some (sampleHolder _)) 0 ⟨0, 0, 0, 1⟩ (encodeRecord [0x0a, 0x00])
        [({}, refused)]) _ _ _ rfl rfl)
  have hanswered := (hstored.trans (Workers.reach_counted _ {Session.reading} rfl)).tail
    (@Workers.Step.answer _ _ _ (sampleWorkers [.answering _ ⟨[], accepted⟩, .reading] none 10 ⟨1, 1, 0, 1⟩ _ _)
      {Session.reading} _ _ rfl)
  exact ⟨refused, accepted, holder, rfl, rfl, hother, hanswered⟩

/-- Looked at while the append is under way, and at the end. -/
theorem workers_serial_two : ∃ W : Nat → Workers sampleProtobuf {},
    (W 1).answered.map (fun exchange => exchange.2.status) = [.notFound] ∧
    (W 2).answered.map (fun exchange => exchange.2.status) = [.notFound, .ok] ∧
    ∃ exchanges : Nat → List Exchange, exchanges 1 <+: exchanges 2 ∧ (exchanges 2).Perm (W 2).answered ∧
      Answers sampleProtobuf {} Unused ⟨∅, 0⟩ (exchanges 2) (W 2).disk ⟨(W 2).walWriter, (W 2).stats⟩ := by
  obtain ⟨refused, accepted, holder, hrefused, haccepted, hother, hanswered⟩ := sampleWorkers_reach
  let W : Nat → Workers sampleProtobuf {}
    | 0 => sampleWorkers [] none 0 {} [] []
    | 1 => sampleWorkers [.reading] (some holder) 0 ⟨0, 0, 0, 1⟩ [] [({}, refused)]
    | _ => sampleWorkers [.reading, .reading] none 10 ⟨1, 1, 0, 1⟩ (encodeRecord [0x0a, 0x00])
        [({}, refused), (sampleRequest [0x0a, 0x00], accepted)]
  have hrun : ∀ i, Workers.Reach sampleProtobuf {} Unused (W i) (W (i + 1))
    | 0 => hother
    | 1 => hanswered
    | _ + 2 => .refl
  obtain ⟨exchanges, hprefix, hserial⟩ :=
    @workers_serial sampleProtobuf {} Unused ⟨∅, 0⟩ _ _ W sampleWorkers_start rfl hrun
  obtain ⟨d, state, hserial, hquiet⟩ := hserial 2
  obtain ⟨hperm, rfl, rfl⟩ := hquiet ⟨rfl, fun session hs => by simpa [W, sampleWorkers] using hs⟩
  exact ⟨W, by simp [W, sampleWorkers, hrefused], by simp [W, sampleWorkers, hrefused, haccepted], exchanges,
    hprefix (by decide), hperm, hserial.answers⟩

theorem workers_store_two : ∃ stored : List (String × Bytes), [0x0a, 0x00] ∈ stored.map Prod.snd ∧
    Laid (bodiesOf stored "wal-1-0.wal") (encodeRecord [0x0a, 0x00]) := by
  obtain ⟨refused, accepted, holder, hrefused, haccepted, hother, hanswered⟩ := sampleWorkers_reach
  obtain ⟨stored, hbodies, hlaid⟩ :=
    @workers_store sampleProtobuf {} Unused ⟨∅, 0⟩ _ _ _ sampleWorkers_start (hother.trans hanswered)
  have hexport : (sampleRequest [0x0a, 0x00]).isExport = true := by decide
  have hbody : (sampleRequest [0x0a, 0x00]).body = [0x0a, 0x00] := rfl
  refine ⟨stored, hbodies.subset ?_, hlaid "wal-1-0.wal"⟩
  simp [sampleWorkers, Exchange.appended, hrefused, haccepted, hexport, hbody]

end Lrcp.Gateway
