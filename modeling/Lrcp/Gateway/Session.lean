import Lrcp.Gateway.WalWriter
import Lrcp.Otlp.Rows
import Mathlib.Algebra.GroupWithZero.Nat

namespace Lrcp.Gateway

open Lrcp.Framework Lrcp.Wal

/-- `ServerConfig`, as far as requests depend on it. -/
structure ServerConfig where
  maxBodyBytes : Nat := 4 * 1024 * 1024
  maxWalFileBytes : Nat := 64 * 1024 * 1024
  authToken : String := ""

/-- `GatewayStats`, and the atomic counters that it is read from. -/
structure GatewayStats where
  acceptedRequests : UInt64 := 0
  acceptedResourceSpans : UInt64 := 0
  acceptedSpans : UInt64 := 0
  rejectedRequests : UInt64 := 0

inductive Verb
  | get
  | post
  | other
  deriving DecidableEq

/-- A request as Beast hands it over. A header field that is absent reads as the
empty string; the defaults are those of an empty request. -/
structure HttpRequest where
  method : Verb := .other
  target : String := ""
  version : Nat := 11
  keepAlive : Bool := true
  authorization : String := ""
  apiKey : String := ""
  contentType : String := ""
  body : Bytes := []

inductive Status
  | ok
  | badRequest
  | unauthorized
  | notFound
  | payloadTooLarge
  | unsupportedMediaType
  | internalServerError
  | serviceUnavailable
  deriving DecidableEq

structure HttpResponse where
  status : Status
  version : Nat
  contentType : String
  keepAlive : Bool
  body : Bytes

/-- What the gateway uses of protobuf: the parser, `none` when it returns false,
and the encoding of an empty `ExportTraceServiceResponse`. -/
structure Protobuf where
  parseFromString : Bytes → Option Otlp.Request
  serializeToString : Option Bytes

/-- The members of `SharedState` that requests change. -/
structure SharedState where
  walWriter : WalWriter
  stats : GatewayStats

def kOtlpProtobuf : String := "application/x-protobuf"

def textBody (text : String) : Bytes := text.toUTF8.toList

/-- `is_protobuf_content_type` -/
def isProtobufContentType (value : String) : Bool :=
  value.toList.takeWhile (· ≠ ';') = kOtlpProtobuf.toList

/-- `error_response` -/
def errorResponse (request : HttpRequest) (status : Status) (message : String) : HttpResponse :=
  ⟨status, request.version, "text/plain; charset=utf-8", request.keepAlive, textBody message⟩

/-- The outcome of the token checks. -/
def authenticated (config : ServerConfig) (request : HttpRequest) : Bool :=
  config.authToken = "" ||
    (request.authorization ≠ "" && (request.authorization = "Bearer " ++ config.authToken ||
      request.authorization = config.authToken)) ||
    (request.apiKey ≠ "" && request.apiKey = config.authToken)

/-- The spans of a parsed request. -/
def spanCount (request : Otlp.Request) : Nat :=
  (request.resourceSpans.map fun resourceSpans =>
    (resourceSpans.scopeSpans.map fun scopeSpans => scopeSpans.spans.length).sum).sum

/-- An atomic increment of one of the counters. -/
inductive Increment
  | acceptedRequests
  | acceptedResourceSpans (n : Nat)
  | acceptedSpans (n : Nat)
  | rejectedRequests

def Increment.apply : Increment → GatewayStats → GatewayStats
  | .acceptedRequests, stats => { stats with acceptedRequests := stats.acceptedRequests + 1 }
  | .acceptedResourceSpans n, stats =>
    { stats with acceptedResourceSpans := stats.acceptedResourceSpans + .ofNat n }
  | .acceptedSpans n, stats => { stats with acceptedSpans := stats.acceptedSpans + .ofNat n }
  | .rejectedRequests, stats => { stats with rejectedRequests := stats.rejectedRequests + 1 }

def SharedState.count (state : SharedState) (increments : List Increment) : SharedState :=
  { state with stats := increments.foldl (fun stats increment => increment.apply stats) state.stats }

/-- What a session does once it is decided what becomes of its request: it counts, and responds. -/
structure Conclusion where
  increments : List Increment
  response : HttpResponse

def SharedState.conclude (state : SharedState) (conclusion : Conclusion) : SharedState × HttpResponse :=
  (state.count conclusion.increments, conclusion.response)

/-- The response to a request whose body is over the limit, as if the request were empty. -/
def bodyTooLarge : Conclusion :=
  ⟨[.rejectedRequests], errorResponse {} .payloadTooLarge "request body exceeds configured limit\n"⟩

variable (protobuf : Protobuf) (config : ServerConfig)

/-- `Session::handle_request` up to the append: a response, or the request that has been parsed. -/
def checkRequest (request : HttpRequest) : Conclusion ⊕ Otlp.Request :=
  if request.method = .get && request.target = "/healthz" then
    .inl ⟨[], ⟨.ok, request.version, "text/plain; charset=utf-8", request.keepAlive, textBody "ok\n"⟩⟩
  else if request.method ≠ .post || request.target ≠ "/v1/traces" then
    .inl ⟨[.rejectedRequests], errorResponse request .notFound "only POST /v1/traces is supported\n"⟩
  else if !authenticated config request then
    .inl ⟨[.rejectedRequests],
      errorResponse request .unauthorized "unauthorized: invalid ingestion token\n"⟩
  else if !isProtobufContentType request.contentType then
    .inl ⟨[.rejectedRequests], errorResponse request .unsupportedMediaType
      "expected Content-Type: application/x-protobuf\n"⟩
  else match protobuf.parseFromString request.body with
    | none => .inl ⟨[.rejectedRequests], errorResponse request .badRequest "malformed OTLP protobuf\n"⟩
    | some exportRequest => .inr exportRequest

/-- The counters of a request that has been appended. -/
def accepted (exportRequest : Otlp.Request) : List Increment :=
  [.acceptedRequests, .acceptedResourceSpans exportRequest.resourceSpans.length,
    .acceptedSpans (spanCount exportRequest)]

/-- `Session::handle_request` behind the append. -/
def conclude (request : HttpRequest) (exportRequest : Otlp.Request) : Except String Unit → Conclusion
  | .error _ => ⟨[.rejectedRequests],
      errorResponse request .serviceUnavailable "telemetry storage is unavailable\n"⟩
  | .ok () =>
    match protobuf.serializeToString with
    | none => ⟨accepted exportRequest ++ [.rejectedRequests],
        errorResponse request .internalServerError "could not serialize OTLP response\n"⟩
    | some body =>
      ⟨accepted exportRequest, ⟨.ok, request.version, kOtlpProtobuf, request.keepAlive, body⟩⟩

/-- `Session::handle_request` -/
def handleRequest (state : SharedState) (request : HttpRequest) : Call (SharedState × HttpResponse) :=
  match checkRequest protobuf config request with
  | .inl conclusion => .ret (state.conclude conclusion)
  | .inr exportRequest => do
    let (walWriter, result) ← state.walWriter.append request.body
    .ret ({ state with walWriter }.conclude (conclude protobuf request exportRequest result))

/-- `Session::on_read` on a message that Beast has read: bodies over the limit do
not reach `handle_request`. -/
def onRead (state : SharedState) (request : HttpRequest) : Call (SharedState × HttpResponse) :=
  if config.maxBodyBytes < request.body.length then .ret (state.conclude bodyTooLarge)
  else handleRequest protobuf config state request

/-- `POST /v1/traces` -/
def HttpRequest.isExport (request : HttpRequest) : Bool :=
  request.method = .post && request.target = "/v1/traces"

/-- The request passes all checks before the append. -/
def passesChecks (request : HttpRequest) : Bool :=
  request.body.length ≤ config.maxBodyBytes && request.isExport && authenticated config request &&
    isProtobufContentType request.contentType && (protobuf.parseFromString request.body).isSome

/-- The requests handled by one gateway since it started on the directory of
`d₀`, no file operation failing; then the disk, the state of the server, and the
bodies of the export requests answered with 200, each with its segment. -/
inductive Serves (d₀ : Disk) :
    List HttpRequest → Disk → SharedState → List (String × Bytes) → Prop
  | start {walWriter d} (hrun : Prog.Runs (machine False Unused)
      (WalWriter.construct config.maxWalFileBytes, d₀) (.ret walWriter, d)) :
      Serves d₀ [] d ⟨walWriter, {}⟩ []
  | request {requests d state acknowledged request state' response d'}
      (h : Serves d₀ requests d state acknowledged)
      (hrun : Prog.Runs (machine False Unused)
        (onRead protobuf config state request, d) (.ret (state', response), d')) :
      Serves d₀ (requests ++ [request]) d' state'
        (if request.isExport && response.status = .ok then
          acknowledged ++ [(state'.walWriter.currentPath, request.body)] else acknowledged)

/-- The bodies acknowledged for one segment, in order. -/
def bodiesOf (acknowledged : List (String × Bytes)) (path : String) : List Bytes :=
  (acknowledged.filter fun entry => entry.1 = path).map Prod.snd

/-- The reader yields every acknowledged body, in the order of the acknowledgements. -/
def AllYielded (limit : Nat) (d : Disk) (acknowledged : List (String × Bytes)) : Prop :=
  ∀ path, (bodiesOf acknowledged path).Sublist
    ((walRecordsFrom path (d.content path) 0 limit).1.map WalRecord.payload)

theorem append_tooLarge {writer : WalWriter} {payload : Bytes} (h : ¬payload.length < 2 ^ 32) :
    writer.append payload = .ret (writer, .error "payload exceeds WAL record limit") := by
  unfold WalWriter.append
  rw [if_pos (by omega)]

variable {protobuf config}

/-- One request: when it is an export answered with 200, it has passed the checks
and its body has been appended; else nothing has been written, and if it had
passed the checks, its body was too long for a record. -/
def Handled (protobuf : Protobuf) (config : ServerConfig) (state : SharedState)
    (request : HttpRequest) (d : Disk) (state' : SharedState) (response : HttpResponse)
    (d' : Disk) : Prop :=
  if request.isExport && response.status = .ok then
    passesChecks protobuf config request = true ∧ request.body.length < 2 ^ 32 ∧
      d.OnlyTouched state'.walWriter.currentPath d' ∧
      (state'.walWriter.currentPath = state.walWriter.currentPath ∨
        Unused d.walDir state'.walWriter.currentPath) ∧
      d'.content state'.walWriter.currentPath =
        d.content state'.walWriter.currentPath ++ encodeRecord request.body
  else d' = d ∧ state'.walWriter = state.walWriter ∧
    (passesChecks protobuf config request = true → ¬request.body.length < 2 ^ 32)

theorem Handled.of_rejected {state state' : SharedState} {request : HttpRequest}
    {response : HttpResponse} {d : Disk} (hs : state'.walWriter = state.walWriter)
    (hr : (request.isExport && response.status = .ok) = false)
    (hp : passesChecks protobuf config request = false) :
    Handled protobuf config state request d state' response d := by
  unfold Handled
  rw [if_neg (by simp only [hr, Bool.false_eq_true, not_false_iff])]
  exact ⟨rfl, hs, fun h => by rw [hp] at h; cases h⟩

/-- The checks of a request: it is answered, and not as an export with 200, or it passes all of them. -/
inductive Checked (protobuf : Protobuf) (config : ServerConfig) (request : HttpRequest) :
    Conclusion ⊕ Otlp.Request → Prop
  | healthy {conclusion} (hexport : request.isExport = false) (hstatus : conclusion.response.status = .ok)
      (hcounts : conclusion.increments = []) : Checked protobuf config request (.inl conclusion)
  | rejected {conclusion} (hpass : passesChecks protobuf config request = false)
      (hstatus : conclusion.response.status ≠ .ok)
      (hencoded : conclusion.response.status ≠ .internalServerError)
      (hcounts : conclusion.increments = [.rejectedRequests]) : Checked protobuf config request (.inl conclusion)
  | passed {exportRequest} (hpass : request.body.length ≤ config.maxBodyBytes →
        passesChecks protobuf config request = true) (hexport : request.isExport = true)
      (hparse : protobuf.parseFromString request.body = some exportRequest) :
      Checked protobuf config request (.inr exportRequest)

theorem checkRequest_checked (request : HttpRequest) :
    Checked protobuf config request (checkRequest protobuf config request) := by
  unfold checkRequest
  split_ifs with hget htarget hauth htype
  · have hmethod : request.method = .get := by simp_all
    exact .healthy (by simp [HttpRequest.isExport, hmethod]) rfl rfl
  · have hexport : request.isExport = false := by
      simp only [HttpRequest.isExport, Bool.and_eq_false_iff, decide_eq_false_iff_not]
      simpa using htarget
    exact .rejected (by simp [passesChecks, hexport]) (by simp [errorResponse]) (by simp [errorResponse]) rfl
  · simp only [Bool.not_eq_true'] at hauth
    exact .rejected (by simp [passesChecks, hauth]) (by simp [errorResponse]) (by simp [errorResponse]) rfl
  · simp only [Bool.not_eq_true'] at htype
    exact .rejected (by simp [passesChecks, htype]) (by simp [errorResponse]) (by simp [errorResponse]) rfl
  · have hexport : request.isExport = true := by
      simpa [HttpRequest.isExport, not_or] using htarget
    cases hparse : protobuf.parseFromString request.body with
    | none =>
      exact .rejected (by simp [passesChecks, hparse]) (by simp [errorResponse]) (by simp [errorResponse]) rfl
    | some exportRequest =>
      refine .passed (fun hbody => ?_) hexport hparse
      simp_all [passesChecks]

theorem conclude_ok {encoded : Bytes} (h : protobuf.serializeToString = some encoded) (request : HttpRequest)
    (exportRequest : Otlp.Request) : (conclude protobuf request exportRequest (.ok ())).response.status = .ok := by
  simp only [conclude, h]

theorem handleRequest_triple {state : SharedState} {request : HttpRequest} {d : Disk}
    (hbody : request.body.length ≤ config.maxBodyBytes)
    (hserialize : protobuf.serializeToString.isSome) :
    Triple (machine False Unused) Eq (fun _ _ => True) (fun x => x = d)
      (handleRequest protobuf config state request)
      fun r x => ∀ state' response, r = .ok (state', response) →
        Handled protobuf config state request d state' response x := by
  unfold handleRequest
  have hchecked := @checkRequest_checked protobuf config request
  generalize checkRequest protobuf config request = result at hchecked
  cases hchecked with
  | healthy hexport hstatus hcounts =>
    apply Triple.ret
    rintro x rfl state' response e
    obtain ⟨rfl, rfl⟩ := Prod.mk.inj (Except.ok.inj e)
    exact .of_rejected rfl (by simp [hexport]) (by simp [passesChecks, hexport])
  | rejected hpass hstatus hencoded hcounts =>
    apply Triple.ret
    rintro x rfl state' response e
    obtain ⟨rfl, rfl⟩ := Prod.mk.inj (Except.ok.inj e)
    exact .of_rejected rfl (by simp [hstatus]) hpass
  | @passed exportRequest hpass hexport hparse =>
    obtain ⟨encoded, hencoded⟩ := Option.isSome_iff_exists.mp hserialize
    by_cases h32 : request.body.length < 2 ^ 32
    · apply Triple.bind (J := fun r x => ∃ writer', r = .ok (writer', .ok ()) ∧
        d.OnlyTouched writer'.currentPath x ∧
        (writer'.currentPath = state.walWriter.currentPath ∨ Unused d.walDir writer'.currentPath) ∧
        x.content writer'.currentPath = d.content writer'.currentPath ++ encodeRecord request.body)
      · apply Triple.conseq (H := fun x => x = d ∧ (state.walWriter.handle = true →
            d.OnlyTouched state.walWriter.currentPath d))
          (fun x hx => ⟨hx, fun _ => ⟨fun _ _ => rfl, fun _ hf => hf⟩⟩)
          (append_triple (K := fun path x => d.OnlyTouched path x) (fun _ => trivial)
            (fun _ => trivial) (fun _ _ _ _ => trivial)
            (fun x path hx _ => Disk.OnlyTouched.create path hx) (fun path x data hx => hx.append data)
            (fun _ _ _ _ _ _ _ _ => trivial))
        rintro r x ⟨writer', result, rfl, -, -, hnf, hok⟩
        obtain rfl := hnf id h32
        obtain ⟨-, htouched, hpath, hcontent⟩ := hok rfl
        exact ⟨writer', rfl, htouched, hpath.imp_left And.right, hcontent⟩
      · rintro ⟨writer', error | ⟨⟩⟩
        · apply Triple.ret
          rintro x ⟨_, e, -⟩
          cases e
        · apply Triple.ret
          rintro x ⟨_, e, htouched, hpath, hcontent⟩ state' response e'
          obtain ⟨rfl, -⟩ := Prod.mk.inj (Except.ok.inj e)
          obtain ⟨rfl, rfl⟩ := Prod.mk.inj (Except.ok.inj e')
          unfold Handled
          rw [if_pos (by simp [hexport, conclude_ok hencoded])]
          exact ⟨hpass hbody, h32, htouched, hpath, hcontent⟩
      · rintro e x ⟨_, h, -⟩
        cases h
    · dsimp only
      rw [append_tooLarge h32]
      apply Triple.ret
      rintro x rfl state' response e
      obtain ⟨rfl, rfl⟩ := Prod.mk.inj (Except.ok.inj e)
      unfold Handled
      rw [if_neg (by simp [conclude, errorResponse])]
      exact ⟨rfl, rfl, fun _ => h32⟩

theorem onRead_runs {state state' : SharedState} {request : HttpRequest} {response : HttpResponse}
    {d d' : Disk} (hserialize : protobuf.serializeToString.isSome)
    (h : Prog.Runs (machine False Unused)
      (onRead protobuf config state request, d) (.ret (state', response), d')) :
    Handled protobuf config state request d state' response d' := by
  have htriple : Triple (machine False Unused) Eq (fun _ _ => True) (fun x => x = d)
      (onRead protobuf config state request) fun r x => ∀ state' response,
        r = .ok (state', response) → Handled protobuf config state request d state' response x := by
    unfold onRead
    apply Triple.cond
    · intro hlarge
      apply Triple.ret
      rintro x rfl state' response e
      obtain ⟨rfl, rfl⟩ := Prod.mk.inj (Except.ok.inj e)
      refine .of_rejected rfl (by simp [bodyTooLarge, errorResponse]) ?_
      have hnot : ¬request.body.length ≤ config.maxBodyBytes := by omega
      simp [passesChecks, hnot]
    · intro hsmall
      exact handleRequest_triple (by omega) hserialize
  obtain ⟨-, hpost⟩ := htriple.runs (I := fun _ => True) rfl trivial h
  exact hpost (.ok (state', response)) rfl state' response rfl

theorem bodiesOf_append (acknowledged : List (String × Bytes)) (path : String) (body : Bytes)
    (f : String) : bodiesOf (acknowledged ++ [(path, body)]) f =
      bodiesOf acknowledged f ++ if path = f then [body] else [] := by
  unfold bodiesOf
  by_cases h : path = f <;> simp [h]

/-- The segments of the server hold the acknowledged bodies and nothing else. -/
structure Recorded (config : ServerConfig) (d : Disk) (state : SharedState)
    (acknowledged : List (String × Bytes)) : Prop where
  content : ∀ f, f = state.walWriter.currentPath ∨ bodiesOf acknowledged f ≠ [] →
    d.content f = (bodiesOf acknowledged f).flatMap encodeRecord
  bounded : ∀ f, ∀ body ∈ bodiesOf acknowledged f,
    body.length ≤ config.maxBodyBytes ∧ body.length < 2 ^ 32

theorem encodeRecord_ne_nil (payload : Bytes) : encodeRecord payload ≠ [] := by
  apply List.ne_nil_of_length_pos
  rw [encodeRecord_length]
  exact Nat.add_pos_left (by decide) _

theorem Recorded.present {d : Disk} {state : SharedState} {acknowledged : List (String × Bytes)}
    (h : Recorded config d state acknowledged) {f : String} (hf : bodiesOf acknowledged f ≠ []) :
    ¬Unused d.walDir f := by
  intro hu
  have hc := h.content f (.inr hf)
  rw [Disk.content_of_unused hu, eq_comm, List.flatMap_eq_nil_iff] at hc
  obtain ⟨body, hb⟩ := List.exists_mem_of_ne_nil _ hf
  exact encodeRecord_ne_nil body (hc body hb)

theorem Serves.recorded (hserialize : protobuf.serializeToString.isSome) {d₀ : Disk}
    {requests : List HttpRequest} {d : Disk} {state : SharedState}
    {acknowledged : List (String × Bytes)}
    (h : Serves protobuf config d₀ requests d state acknowledged) :
    Recorded config d state acknowledged := by
  induction h with
  | @start walWriter d hrun =>
    obtain ⟨hnew, -, hsame⟩ := construct_runs hrun
    constructor
    · rintro f (rfl | hf)
      · rw [hsame, Disk.content_of_unused hnew]
        rfl
      · exact absurd rfl hf
    · intro f body hb
      cases hb
  | @request requests d state acknowledged request state' response d' h hrun ih =>
    have hhandled := onRead_runs hserialize hrun
    unfold Handled at hhandled
    split_ifs at hhandled ⊢ with haccept
    · obtain ⟨hpass, h32, htouched, hpath, hcontent⟩ := hhandled
      constructor
      · intro f hf
        rw [bodiesOf_append]
        by_cases hfp : state'.walWriter.currentPath = f
        · subst hfp
          rw [hcontent, if_pos rfl, List.flatMap_append, List.flatMap_singleton]
          congr 1
          rcases hpath with hpath | hnew
          · exact ih.content _ (.inl hpath)
          · rw [Disk.content_of_unused hnew]
            by_cases hb : bodiesOf acknowledged state'.walWriter.currentPath = []
            · rw [hb]
              rfl
            · exact absurd hnew (ih.present hb)
        · rw [if_neg hfp, List.append_nil, htouched.content f (Ne.symm hfp)]
          rw [bodiesOf_append, if_neg hfp, List.append_nil] at hf
          exact ih.content f (.inr (hf.resolve_left (Ne.symm hfp)))
      · intro f body hb
        rw [bodiesOf_append] at hb
        rcases List.mem_append.mp hb with hb | hb
        · exact ih.bounded f body hb
        · obtain rfl : body = request.body := by
            split_ifs at hb with hfp
            · exact List.mem_singleton.mp hb
            · cases hb
          have hmax : request.body.length ≤ config.maxBodyBytes := by
            simp only [passesChecks, Bool.and_eq_true, decide_eq_true_eq] at hpass
            exact hpass.1.1.1.1
          exact ⟨hmax, h32⟩
    · obtain ⟨rfl, hwriter, -⟩ := hhandled
      exact ⟨fun f hf => ih.content f (hwriter ▸ hf), ih.bounded⟩

/-- The acknowledged bodies are those of the requests that pass the checks and fit in a record. -/
theorem Serves.mem_acknowledged (hserialize : protobuf.serializeToString.isSome) {d₀ : Disk}
    {requests : List HttpRequest} {d : Disk} {state : SharedState}
    {acknowledged : List (String × Bytes)}
    (h : Serves protobuf config d₀ requests d state acknowledged) (body : Bytes) :
    (∃ path, (path, body) ∈ acknowledged) ↔
      ∃ request ∈ requests, passesChecks protobuf config request = true ∧ request.body = body ∧
        body.length < 2 ^ 32 := by
  induction h with
  | start hrun => simp
  | @request requests d state acknowledged request state' response d' h hrun ih =>
    have hhandled := onRead_runs hserialize hrun
    unfold Handled at hhandled
    split_ifs at hhandled ⊢ with haccept
    · obtain ⟨hpass, h32, -⟩ := hhandled
      simp only [List.mem_append, List.mem_singleton, exists_or, Prod.mk.injEq, ih, or_and_right]
      refine or_congr_right ⟨?_, ?_⟩
      · rintro ⟨_, rfl, rfl⟩
        exact ⟨request, rfl, hpass, rfl, h32⟩
      · rintro ⟨_, rfl, -, rfl, -⟩
        exact ⟨_, rfl, rfl⟩
    · obtain ⟨-, -, hlong⟩ := hhandled
      rw [ih]
      constructor
      · rintro ⟨q, hq, hrest⟩
        exact ⟨q, List.mem_append_left _ hq, hrest⟩
      · rintro ⟨q, hq, hpass, rfl, h32⟩
        rcases List.mem_append.mp hq with hq | hq
        · exact ⟨q, hq, hpass, rfl, h32⟩
        · obtain rfl := List.mem_singleton.mp hq
          exact absurd h32 (hlong hpass)

theorem mem_bodiesOf {acknowledged : List (String × Bytes)} {path : String} {body : Bytes} :
    body ∈ bodiesOf acknowledged path ↔ (path, body) ∈ acknowledged := by
  unfold bodiesOf
  simp

/-- The reader yields all bodies answered with 200 exactly when no export request
that passes the gateway's checks has an empty body. -/
theorem allYielded_iff {limit : Nat} (hlimit : config.maxBodyBytes ≤ limit)
    (hserialize : protobuf.serializeToString.isSome) {d₀ : Disk} {requests : List HttpRequest}
    {d : Disk} {state : SharedState} {acknowledged : List (String × Bytes)}
    (h : Serves protobuf config d₀ requests d state acknowledged) :
    AllYielded limit d acknowledged ↔
      ∀ request ∈ requests, passesChecks protobuf config request = true → request.body ≠ [] := by
  constructor
  · intro hall request hr hpass hempty
    obtain ⟨path, hmem⟩ := (h.mem_acknowledged hserialize []).mpr
      ⟨request, hr, hpass, hempty, by decide⟩
    have hyield := (hall path).subset (mem_bodiesOf.mpr hmem)
    obtain ⟨r, hrec, hnil⟩ := List.mem_map.mp hyield
    exact (mem_walRecordsFrom.mp hrec).2.nonempty hnil
  · intro hne path
    have hrec := h.recorded hserialize
    by_cases hb : bodiesOf acknowledged path = []
    · rw [hb]
      exact List.nil_sublist _
    have hadm : ∀ body ∈ bodiesOf acknowledged path, Admissible limit body := by
      intro body hbody
      obtain ⟨hmax, h32⟩ := hrec.bounded path body hbody
      obtain ⟨request, hr, hpass, rfl, -⟩ :=
        (h.mem_acknowledged hserialize body).mp ⟨path, mem_bodiesOf.mp hbody⟩
      exact ⟨hne request hr hpass, hmax.trans hlimit, h32⟩
    rw [hrec.content path (.inr hb), (walRecordsFrom_encode path hadm).1]

/-- A parser that accepts the empty request, as protobuf does, and one request
that consists of an empty `ResourceSpans`. -/
def sampleProtobuf : Protobuf where
  parseFromString body :=
    if body = [] then some ⟨[]⟩ else if body = [0x0a, 0x00] then some ⟨[⟨[], []⟩]⟩ else none
  serializeToString := some []

def sampleRequest (body : Bytes) : HttpRequest :=
  { method := .post, target := "/v1/traces", contentType := kOtlpProtobuf, body }

/-- The server of the two runs below, after it has served one request. -/
def sampleState (size : Nat) (resourceSpans : UInt64) : SharedState :=
  ⟨⟨64 * 1024 * 1024, "wal-1-0.wal", size, true⟩, ⟨1, resourceSpans, 0, 0⟩⟩

theorem sample_serves (body : Bytes) (d : Disk) (state : SharedState) (response : HttpResponse)
    (hok : response.status = .ok) (hpath : state.walWriter.currentPath = "wal-1-0.wal")
    (hrun : Prog.follow (exec none) 20 (onRead sampleProtobuf {} ⟨⟨64 * 1024 * 1024, "wal-1-0.wal", 0,
      true⟩, {}⟩ (sampleRequest body), ⟨AList.insert "wal-1-0.wal" [] ∅, 1⟩) =
        (.ret (state, response), d)) :
    Serves sampleProtobuf {} ⟨∅, 0⟩ [sampleRequest body] d state [("wal-1-0.wal", body)] := by
  have hstart : Serves sampleProtobuf {} ⟨∅, 0⟩ [] ⟨AList.insert "wal-1-0.wal" [] ∅, 1⟩
      ⟨⟨64 * 1024 * 1024, "wal-1-0.wal", 0, true⟩, {}⟩ [] := .start (exec_runs none (.inl rfl) 10 _)
  have hrequest := hstart.request (hrun ▸ exec_runs none (.inl rfl) 20 _)
  rw [if_pos (by simp [sampleRequest, HttpRequest.isExport, hok]), hpath] at hrequest
  exact hrequest

theorem allYielded_one : AllYielded (64 * 1024 * 1024)
    ⟨AList.insert "wal-1-0.wal" (encodeRecord [0x0a, 0x00]) ∅, 1⟩ [("wal-1-0.wal", [0x0a, 0x00])] :=
  (allYielded_iff (by decide) rfl (sample_serves [0x0a, 0x00] _ (sampleState 10 1)
    ⟨.ok, 11, kOtlpProtobuf, true, []⟩ rfl rfl rfl)).mpr fun request hr _ => by
      obtain rfl := List.mem_singleton.mp hr
      decide

/-- An empty body is parsed, appended and answered with 200, and the reader
rejects the record. -/
theorem not_allYielded_empty :
    ¬ ∀ (protobuf : Protobuf) (config : ServerConfig) (limit : Nat) (d₀ : Disk)
      (requests : List HttpRequest) (d : Disk) (state : SharedState)
      (acknowledged : List (String × Bytes)), (protobuf.parseFromString []).isSome →
      protobuf.serializeToString.isSome → config.maxBodyBytes ≤ limit →
      Serves protobuf config d₀ requests d state acknowledged → AllYielded limit d acknowledged := by
  intro h
  have hall := h sampleProtobuf {} (64 * 1024 * 1024) ⟨∅, 0⟩ [sampleRequest []]
    ⟨AList.insert "wal-1-0.wal" (encodeRecord []) ∅, 1⟩ (sampleState 8 0) [("wal-1-0.wal", [])]
    rfl rfl (by decide)
    (sample_serves [] _ (sampleState 8 0) ⟨.ok, 11, kOtlpProtobuf, true, []⟩ rfl rfl rfl)
  have hsub := hall "wal-1-0.wal"
  have hnone : (walRecordsFrom "wal-1-0.wal" (Disk.content
      ⟨AList.insert "wal-1-0.wal" (encodeRecord []) ∅, 1⟩ "wal-1-0.wal") 0
      (64 * 1024 * 1024)).1 = [] := by decide
  rw [hnone] at hsub
  cases hsub

end Lrcp.Gateway
