import Lrcp.Framework.Termination
import Lrcp.Gateway.Session

namespace Lrcp.Gateway

open Lrcp.Framework Lrcp.Wal

/-- What becomes of a request: it does not get to the append, or the append fails, or the body is
appended, and then the response is encoded or not. -/
inductive Outcome (protobuf : Protobuf) (config : ServerConfig) (faults : Prop)
    (New : Table Bytes → String → Prop) (state : SharedState) (request : HttpRequest) (d : Disk) :
    SharedState → HttpResponse → Disk → Prop
  | healthy {response} (hexport : request.isExport = false) (hstatus : response.status = .ok) :
      Outcome protobuf config faults New state request d state response d
  | rejected {response} (hpass : passesChecks protobuf config request = false)
      (hstatus : response.status ≠ .ok) (hencoded : response.status ≠ .internalServerError) :
      Outcome protobuf config faults New state request d (state.count [.rejectedRequests]) response d
  | unavailable {response walWriter error d'} (hpass : passesChecks protobuf config request = true)
      (hrun : Prog.Runs (machine faults New) (state.walWriter.append request.body, d)
        (.ret (walWriter, .error error), d')) (hstatus : response.status = .serviceUnavailable) :
      Outcome protobuf config faults New state request d ({ state with walWriter }.count [.rejectedRequests])
        response d'
  | accepted {response walWriter exportRequest d'} (hpass : passesChecks protobuf config request = true)
      (hparse : protobuf.parseFromString request.body = some exportRequest)
      (hrun : Prog.Runs (machine faults New) (state.walWriter.append request.body, d)
        (.ret (walWriter, .ok ()), d')) (hstatus : response.status = .ok) :
      Outcome protobuf config faults New state request d
        ({ state with walWriter }.count (Gateway.accepted exportRequest)) response d'
  | unencoded {response walWriter exportRequest d'} (hencoded : protobuf.serializeToString = none)
      (hpass : passesChecks protobuf config request = true)
      (hparse : protobuf.parseFromString request.body = some exportRequest)
      (hrun : Prog.Runs (machine faults New) (state.walWriter.append request.body, d)
        (.ret (walWriter, .ok ()), d')) (hstatus : response.status = .internalServerError) :
      Outcome protobuf config faults New state request d
        ({ state with walWriter }.count (Gateway.accepted exportRequest ++ [Increment.rejectedRequests])) response d'

section Outcome

variable {protobuf : Protobuf} {config : ServerConfig} {faults : Prop}
  {New : Table Bytes → String → Prop} {state state' : SharedState} {request : HttpRequest}
  {response : HttpResponse} {d d' : Disk}

theorem ret_runs {α : Type} {a b : α} {M : Machine Op String Disk}
    (h : Prog.Runs M (.ret a, d) (.ret b, d')) : b = a ∧ d' = d := by
  obtain ⟨hret, hd⟩ := Prog.Runs.of_done (r := .ok a) h
  exact ⟨Prog.ret.inj hret, hd⟩

theorem handleRequest_outcome (hbody : request.body.length ≤ config.maxBodyBytes)
    (h : Prog.Runs (machine faults New) (handleRequest protobuf config state request, d)
      (.ret (state', response), d')) :
    Outcome protobuf config faults New state request d state' response d' := by
  unfold handleRequest at h
  have hchecked := @checkRequest_checked protobuf config request
  generalize checkRequest protobuf config request = result at h hchecked
  cases hchecked with
  | healthy hexport hstatus hcounts =>
    obtain ⟨heq, rfl⟩ := ret_runs h
    obtain ⟨rfl, rfl⟩ := Prod.mk.inj heq
    rw [hcounts]
    exact .healthy hexport hstatus
  | rejected hpass hstatus hencoded hcounts =>
    obtain ⟨heq, rfl⟩ := ret_runs h
    obtain ⟨rfl, rfl⟩ := Prod.mk.inj heq
    rw [hcounts]
    exact .rejected hpass hstatus hencoded
  | @passed exportRequest hpass hexport hparse =>
    obtain ⟨appended, d₁, happend, hrest⟩ := Prog.Runs.of_andThen (r := .ok (state', response)) h
    cases appended with
    | error error =>
      obtain ⟨hraise, -⟩ := Prog.Runs.of_done (r := .error error) hrest
      cases hraise
    | ok written =>
      obtain ⟨walWriter, result⟩ := written
      obtain ⟨heq, rfl⟩ := ret_runs hrest
      obtain ⟨rfl, rfl⟩ := Prod.mk.inj heq
      cases result with
      | error error => exact .unavailable (hpass hbody) happend rfl
      | ok _ =>
        cases hencoded : protobuf.serializeToString with
        | none =>
          simp only [conclude, hencoded]
          exact .unencoded hencoded (hpass hbody) hparse happend rfl
        | some body =>
          simp only [conclude, hencoded]
          exact .accepted (hpass hbody) hparse happend rfl

/-- Every request that a session has answered has one of the outcomes. -/
theorem onRead_outcome (h : Prog.Runs (machine faults New) (onRead protobuf config state request, d)
      (.ret (state', response), d')) :
    Outcome protobuf config faults New state request d state' response d' := by
  unfold onRead at h
  split_ifs at h with hlarge
  · obtain ⟨heq, rfl⟩ := ret_runs h
    obtain ⟨rfl, rfl⟩ := Prod.mk.inj heq
    have hnot : ¬request.body.length ≤ config.maxBodyBytes := by omega
    exact .rejected (by simp [passesChecks, hnot]) (by simp [bodyTooLarge, errorResponse])
      (by simp [bodyTooLarge, errorResponse])
  · exact handleRequest_outcome (by omega) h

end Outcome

/-- A request and its response. -/
abbrev Exchange := HttpRequest × HttpResponse

/-- The append of the body has returned without an error: an export request is answered with 200 then, or
with 500 when the response cannot be encoded. -/
def Exchange.appended (exchange : Exchange) : Bool :=
  exchange.1.isExport && (exchange.2.status = .ok || exchange.2.status = .internalServerError)

/-- The sum of `count` over the requests appended. -/
def appendedSum (protobuf : Protobuf) (count : Otlp.Request → Nat) (exchanges : List Exchange) : Nat :=
  (((exchanges.filter Exchange.appended).filterMap fun exchange =>
    protobuf.parseFromString exchange.1.body).map count).sum

/-- The records of these bodies lie in the data side by side and in this order, whatever else lies between
them. -/
inductive Laid : List Bytes → Bytes → Prop
  | nil (data : Bytes) : Laid [] data
  | record {bodies data} (body : Bytes) (h : Laid bodies data) :
      Laid (bodies ++ [body]) (data ++ encodeRecord body)
  | more {bodies data data'} (h : Laid bodies data) (hd : data <+: data') : Laid bodies data'

/-- Each of the bodies that have been appended lies in a segment, in a record of its own. -/
def Disk.Stores (d : Disk) (exchanges : List Exchange) : Prop :=
  ∃ stored : List (String × Bytes),
    stored.map Prod.snd = (exchanges.filter Exchange.appended).map (fun exchange => exchange.1.body) ∧
    ∀ path, Laid (bodiesOf stored path) (d.content path)

/-- The requests that one process of the gateway has answered since it started, any file operation
failing or not. -/
inductive Answers (protobuf : Protobuf) (config : ServerConfig) (New : Table Bytes → String → Prop)
    (d₀ : Disk) : List Exchange → Disk → SharedState → Prop
  | start {walWriter d} (hrun : Prog.Runs (machine True New)
      (WalWriter.construct config.maxWalFileBytes, d₀) (.ret walWriter, d)) :
      Answers protobuf config New d₀ [] d ⟨walWriter, {}⟩
  | request {exchanges d state request state' response d'}
      (h : Answers protobuf config New d₀ exchanges d state)
      (hrun : Prog.Runs (machine True New)
        (onRead protobuf config state request, d) (.ret (state', response), d')) :
      Answers protobuf config New d₀ (exchanges ++ [(request, response)]) d' state'

section Stats

variable {protobuf : Protobuf} {config : ServerConfig} {New : Table Bytes → String → Prop} {d₀ d d' : Disk}
  {state : SharedState} {exchanges : List Exchange} {exchange : Exchange} {request : HttpRequest}

theorem isExport_of_passes (h : passesChecks protobuf config request = true) :
    request.isExport = true := by
  simp only [passesChecks, Bool.and_eq_true] at h
  exact h.1.1.1.2

theorem Disk.Stores.grow (h : d.Stores exchanges) (hd : d.Grows d') : d'.Stores exchanges := by
  obtain ⟨stored, hbodies, hlaid⟩ := h
  exact ⟨stored, hbodies, fun path => (hlaid path).more (hd path)⟩

theorem Disk.Stores.skip (h : d.Stores exchanges) (hexchange : exchange.appended = false) :
    d.Stores (exchanges ++ [exchange]) := by
  obtain ⟨stored, hbodies, hlaid⟩ := h
  refine ⟨stored, ?_, hlaid⟩
  rw [List.filter_append, List.filter_cons_of_neg (by simp [hexchange])]
  simpa using hbodies

theorem Disk.Stores.append {path : String} (h : d.Stores exchanges) (hexchange : exchange.appended = true)
    (htouched : d.OnlyTouched path d')
    (hcontent : d'.content path = d.content path ++ encodeRecord exchange.1.body) :
    d'.Stores (exchanges ++ [exchange]) := by
  obtain ⟨stored, hbodies, hlaid⟩ := h
  refine ⟨stored ++ [(path, exchange.1.body)], ?_, fun f => ?_⟩
  · rw [List.filter_append, List.filter_cons_of_pos hexchange]
    simp [hbodies]
  · rw [bodiesOf_append]
    by_cases hf : path = f
    · subst hf
      rw [if_pos rfl, hcontent]
      exact (hlaid path).record _
    · rw [if_neg hf, List.append_nil, htouched.content f (Ne.symm hf)]
      exact hlaid f

/-- Whatever fails, the bodies that have been appended are there. -/
theorem Answers.stores (h : Answers protobuf config New d₀ exchanges d state) : d.Stores exchanges := by
  induction h with
  | start hrun => exact ⟨[], rfl, fun path => .nil _⟩
  | @request exchanges d state request state' response d' h hrun ih =>
    cases onRead_outcome hrun with
    | healthy hexport hstatus => exact ih.skip (by simp [Exchange.appended, hexport])
    | rejected hpass hstatus hencoded => exact ih.skip (by simp [Exchange.appended, hstatus, hencoded])
    | unavailable hpass happend hstatus =>
      exact (ih.grow (grows_of_runs happend)).skip (by simp [Exchange.appended, hstatus])
    | accepted hpass hparse happend hstatus =>
      obtain ⟨-, htouched, -, hcontent⟩ := (append_runs happend).2 rfl
      exact ih.append (by simp [Exchange.appended, hstatus, isExport_of_passes hpass]) htouched hcontent
    | unencoded hencoded hpass hparse happend hstatus =>
      obtain ⟨-, htouched, -, hcontent⟩ := (append_runs happend).2 rfl
      exact ih.append (by simp [Exchange.appended, hstatus, isExport_of_passes hpass]) htouched hcontent

theorem appendedSum_append (count : Otlp.Request → Nat) (exchange : Exchange) :
    appendedSum protobuf count (exchanges ++ [exchange]) = appendedSum protobuf count exchanges +
      if exchange.appended then ((protobuf.parseFromString exchange.1.body).map count).getD 0 else 0 := by
  unfold appendedSum
  rw [List.filter_append, List.filterMap_append, List.map_append, List.sum_append]
  congr 1
  cases happended : exchange.appended with
  | false => simp [List.filter, happended]
  | true => cases hparse : protobuf.parseFromString exchange.1.body <;> simp [List.filter, happended, hparse]

/-- In every run the counters of the gateway are exact, as 64-bit numbers: the requests appended, their
resource spans and their spans, and the responses that are not 200. What has been counted is stored. -/
theorem stats_exact (h : Answers protobuf config New d₀ exchanges d state) :
    state.stats.acceptedRequests = .ofNat (exchanges.countP Exchange.appended) ∧
    state.stats.acceptedResourceSpans =
      .ofNat (appendedSum protobuf (fun request => request.resourceSpans.length) exchanges) ∧
    state.stats.acceptedSpans = .ofNat (appendedSum protobuf spanCount exchanges) ∧
    state.stats.rejectedRequests = .ofNat (exchanges.countP fun exchange => exchange.2.status ≠ .ok) ∧
    d.Stores exchanges := by
  suffices hstats : state.stats.acceptedRequests = .ofNat (exchanges.countP Exchange.appended) ∧
      state.stats.acceptedResourceSpans =
        .ofNat (appendedSum protobuf (fun request => request.resourceSpans.length) exchanges) ∧
      state.stats.acceptedSpans = .ofNat (appendedSum protobuf spanCount exchanges) ∧
      state.stats.rejectedRequests = .ofNat (exchanges.countP fun exchange => exchange.2.status ≠ .ok) from
    ⟨hstats.1, hstats.2.1, hstats.2.2.1, hstats.2.2.2, h.stores⟩
  induction h with
  | start hrun => exact ⟨rfl, rfl, rfl, rfl⟩
  | @request exchanges d state request state' response d' h hrun ih =>
    obtain ⟨haccepted, hresource, hspans, hrejected⟩ := ih
    rw [appendedSum_append, appendedSum_append, List.countP_append, List.countP_append, UInt64.ofNat_add,
      UInt64.ofNat_add, UInt64.ofNat_add, UInt64.ofNat_add, ← haccepted, ← hresource, ← hspans, ← hrejected]
    cases onRead_outcome hrun with
    | healthy hexport hstatus => simp [Exchange.appended, hexport, hstatus]
    | rejected hpass hstatus hencoded =>
      simp [Exchange.appended, SharedState.count, Increment.apply, hstatus, hencoded]
    | unavailable hpass hrun hstatus =>
      simp [Exchange.appended, SharedState.count, Increment.apply, hstatus]
    | accepted hpass hparse hrun hstatus =>
      have hexport := isExport_of_passes hpass
      simp [Exchange.appended, SharedState.count, accepted, Increment.apply, hstatus, hexport, hparse]
    | unencoded hencoded hpass hparse hrun hstatus =>
      have hexport := isExport_of_passes hpass
      simp [Exchange.appended, SharedState.count, accepted, Increment.apply, hstatus, hexport, hparse]

end Stats

/-- A request that is appended, and one that has no path here. -/
theorem stats_exact_two : ∃ exchanges d state,
    Answers sampleProtobuf {} Unused ⟨∅, 0⟩ exchanges d state ∧ exchanges.length = 2 ∧
      state.stats.acceptedRequests = 1 ∧ state.stats.rejectedRequests = 1 := by
  have hstart : Answers sampleProtobuf {} Unused ⟨∅, 0⟩ [] ⟨AList.insert "wal-1-0.wal" [] ∅, 1⟩
      ⟨⟨64 * 1024 * 1024, "wal-1-0.wal", 0, true⟩, {}⟩ := .start (exec_runs none (.inl rfl) 10 _)
  have hfirst : Answers sampleProtobuf {} Unused ⟨∅, 0⟩
      [(sampleRequest [0x0a, 0x00], ⟨.ok, 11, kOtlpProtobuf, true, []⟩)] _ (sampleState 10 1) :=
    hstart.request (exec_runs none (.inl rfl) 20 _)
  have hsecond : Answers sampleProtobuf {} Unused ⟨∅, 0⟩ [_, ({}, _)] _ _ := hfirst.request .refl
  obtain ⟨haccepted, -, -, hrejected, -⟩ := stats_exact hsecond
  exact ⟨_, _, _, hsecond, rfl, haccepted, hrejected⟩

end Lrcp.Gateway
