import Lrcp.Gateway.Session

namespace Lrcp.Gateway

open Lrcp.Framework Lrcp.Wal

/-- The header of an HTTP message: the request without its body, how many bytes
the header has, and its `Content-Length`. -/
structure HttpHeader where
  request : HttpRequest
  headerLength : Nat
  contentLength : Nat

deriving instance DecidableEq for HttpRequest, HttpHeader

/-- What the session uses of Beast: the header at the beginning of some bytes, if
a complete and valid one is there. -/
structure Beast where
  parseHeader : Bytes → Option HttpHeader
  headerLength_pos : ∀ bytes header, parseHeader bytes = some header → 0 < header.headerLength

variable (beast : Beast) (protobuf : Protobuf) (config : ServerConfig) (stream : Bytes)

/-- Where the HTTP messages of the bytes that a client sends begin: the first one
at once, and each other one where the one before ends. -/
inductive MessageStart : Nat → Prop
  | first : MessageStart 0
  | next {start header} (h : MessageStart start)
      (hheader : beast.parseHeader (stream.drop start) = some header) :
      MessageStart (start + header.headerLength + header.contentLength)

/-- How `http::async_read` completes. -/
inductive ReadResult
  | request (request : HttpRequest) (stop : Nat)
  | bodyLimit (stop : Nat)
  | failed
  deriving DecidableEq

/-- `http::async_read` with a body limit. A body over the limit is left unread,
behind its header. -/
def asyncRead (position : Nat) : ReadResult :=
  match beast.parseHeader (stream.drop position) with
  | none => .failed
  | some header =>
    let bodyStart := position + header.headerLength
    if config.maxBodyBytes < header.contentLength then .bodyLimit bodyStart
    else if stream.length < bodyStart + header.contentLength then .failed
    else .request { header.request with body := (stream.drop bodyStart).take header.contentLength }
      (bodyStart + header.contentLength)

/-- One connection: how far its bytes have been read, whether the session goes on
reading, the server behind it, and the requests passed to `handle_request`, each
with the place where it began. -/
structure Connection where
  position : Nat
  isOpen : Bool
  state : SharedState
  disk : Disk
  handled : List (Nat × HttpRequest)

/-- The body of the message that is to be read next is within the limit. -/
def WithinLimit (c : Connection) : Prop :=
  ∀ header, beast.parseHeader (stream.drop c.position) = some header →
    header.contentLength ≤ config.maxBodyBytes

/-- One round of a session, or what other sessions do to the server meanwhile.
After an answer the session goes on reading if the response keeps the connection
alive; an error of the socket ends it. `Allowed` restricts the rounds. -/
inductive Connection.Step (Allowed : Connection → Prop) : Connection → Connection → Prop
  | request {c request stop state' response disk' isOpen} (hopen : c.isOpen = true)
      (hallowed : Allowed c) (hread : asyncRead beast config stream c.position = .request request stop)
      (hrun : Prog.Runs (machine True Unused)
        (handleRequest protobuf config c.state request, c.disk) (.ret (state', response), disk'))
      (hwrite : isOpen = true → response.keepAlive = true) :
      Step Allowed c ⟨stop, isOpen, state', disk', c.handled ++ [(c.position, request)]⟩
  | bodyLimit {c stop isOpen} (hopen : c.isOpen = true) (hallowed : Allowed c)
      (hread : asyncRead beast config stream c.position = .bodyLimit stop)
      (hwrite : isOpen = true → bodyTooLarge.response.keepAlive = true) :
      Step Allowed c ⟨stop, isOpen, c.state.count bodyTooLarge.increments, c.disk, c.handled⟩
  | failed {c} (hopen : c.isOpen = true) (hallowed : Allowed c)
      (hread : asyncRead beast config stream c.position = .failed) :
      Step Allowed c { c with isOpen := false }
  | others {c state' disk'} : Step Allowed c { c with state := state', disk := disk' }

/-- A run of the session from the moment the client has connected. -/
def Connection.Reach (Allowed : Connection → Prop) (state : SharedState) (disk : Disk)
    (c : Connection) : Prop :=
  Relation.ReflTransGen (Connection.Step beast protobuf config stream Allowed)
    ⟨0, true, state, disk, []⟩ c

/-- What `handle_request` has been given are messages of the stream: each begins
where one begins, and its body is the body of that message. -/
def HandlesMessages (c : Connection) : Prop :=
  ∀ entry ∈ c.handled, MessageStart beast stream entry.1 ∧
    ∃ header, beast.parseHeader (stream.drop entry.1) = some header ∧
      entry.2 = { header.request with
        body := (stream.drop (entry.1 + header.headerLength)).take header.contentLength }

variable {beast protobuf config stream}

theorem asyncRead_request {position stop : Nat} {request : HttpRequest}
    (h : asyncRead beast config stream position = .request request stop) :
    ∃ header, beast.parseHeader (stream.drop position) = some header ∧
      request = { header.request with
        body := (stream.drop (position + header.headerLength)).take header.contentLength } ∧
      stop = position + header.headerLength + header.contentLength := by
  unfold asyncRead at h
  split at h
  · cases h
  · rename_i header hheader
    dsimp only at h
    split_ifs at h
    obtain ⟨rfl, rfl⟩ := ReadResult.request.inj h
    exact ⟨header, hheader, rfl, rfl⟩

theorem asyncRead_bodyLimit {position stop : Nat}
    (h : asyncRead beast config stream position = .bodyLimit stop) :
    ∃ header, beast.parseHeader (stream.drop position) = some header ∧
      config.maxBodyBytes < header.contentLength ∧ stop = position + header.headerLength := by
  unfold asyncRead at h
  split at h
  · cases h
  · rename_i header hheader
    dsimp only at h
    split_ifs at h with hlimit
    obtain rfl := ReadResult.bodyLimit.inj h
    exact ⟨header, hheader, hlimit, rfl⟩

/-- Between two places where messages begin lies the whole first message. -/
theorem MessageStart.stop_le {start position : Nat} {header : HttpHeader}
    (hs : MessageStart beast stream start) (h : MessageStart beast stream position)
    (hheader : beast.parseHeader (stream.drop start) = some header) (hlt : start < position) :
    start + header.headerLength + header.contentLength ≤ position := by
  induction hsum : start + position using Nat.strong_induction_on generalizing start position header with
  | _ n ih =>
    subst hsum
    cases h with
    | first => exact absurd hlt (Nat.not_lt_zero _)
    | @next q header' hq hheader' =>
      have hpos := beast.headerLength_pos _ _ hheader'
      rcases Nat.lt_trichotomy start q with hbefore | rfl | hbehind
      · have hle := ih (start + q) (by omega) hs hq hheader hbefore rfl
        omega
      · obtain rfl := Option.some.inj (hheader.symm.trans hheader')
        exact Nat.le_refl _
      · have hle := ih (q + start) (by omega) hq hs hheader' hbehind rfl
        omega

/-- A body that has been left unread is not where a message begins. -/
theorem MessageStart.not_body {start : Nat} {header : HttpHeader} (hs : MessageStart beast stream start)
    (hheader : beast.parseHeader (stream.drop start) = some header)
    (hlarge : config.maxBodyBytes < header.contentLength) :
    ¬MessageStart beast stream (start + header.headerLength) := by
  intro h
  have hpos := beast.headerLength_pos _ _ hheader
  have hle := hs.stop_le h hheader (by omega)
  omega

/-- The requests handled are messages, and the session goes on where one begins. -/
def InPlace (beast : Beast) (stream : Bytes) (c : Connection) : Prop :=
  HandlesMessages beast stream c ∧ (c.isOpen = true → MessageStart beast stream c.position)

/-- One round in which the body is within the limit. -/
theorem InPlace.step {Allowed : Connection → Prop} {c c' : Connection} (h : InPlace beast stream c)
    (hlimit : WithinLimit beast config stream c)
    (hs : Connection.Step beast protobuf config stream Allowed c c') : InPlace beast stream c' := by
  cases hs with
  | request hopen _ hread _ _ =>
    obtain ⟨header, hheader, rfl, rfl⟩ := asyncRead_request hread
    have hstart := h.2 hopen
    refine ⟨fun entry he => ?_, fun _ => hstart.next hheader⟩
    rcases List.mem_append.mp he with he | he
    · exact h.1 entry he
    · obtain rfl := List.mem_singleton.mp he
      exact ⟨hstart, header, hheader, rfl⟩
  | bodyLimit _ _ hread _ =>
    obtain ⟨header, hheader, hlarge, -⟩ := asyncRead_bodyLimit hread
    exact absurd (hlimit header hheader) (not_le_of_gt hlarge)
  | failed _ _ _ => exact ⟨h.1, fun hopen => by cases hopen⟩
  | others => exact h

theorem inPlace_reach {state : SharedState} {disk : Disk} {c : Connection}
    (h : Connection.Reach beast protobuf config stream (WithinLimit beast config stream) state disk c) :
    InPlace beast stream c := by
  induction h with
  | refl => exact ⟨fun _ he => (by cases he), fun _ => .first⟩
  | @tail c c' _ hs ih =>
    by_cases hlimit : WithinLimit beast config stream c
    · exact ih.step hlimit hs
    · cases hs with
      | request _ hallowed _ _ _ => exact absurd hallowed hlimit
      | bodyLimit _ hallowed _ _ => exact absurd hallowed hlimit
      | failed _ hallowed _ => exact absurd hallowed hlimit
      | others => exact ih

/-- As long as no message is over the limit, what `handle_request` is given are
the messages of the stream; and the limit is what decides whether the session,
when it goes on, goes on at the beginning of a message. -/
theorem handles_messages {state : SharedState} {disk : Disk} {c : Connection}
    (h : Connection.Reach beast protobuf config stream (WithinLimit beast config stream) state disk c) :
    HandlesMessages beast stream c ∧ (c.isOpen = true → (WithinLimit beast config stream c ↔
      ∀ c', Connection.Step beast protobuf config stream (fun _ => True) c c' → c'.isOpen = true →
        MessageStart beast stream c'.position)) := by
  have hin := inPlace_reach h
  refine ⟨hin.1, fun hopen => ⟨fun hlimit c' hs => (hin.step hlimit hs).2, fun hall => ?_⟩⟩
  intro header hheader
  by_contra hlarge
  have hread : asyncRead beast config stream c.position =
      .bodyLimit (c.position + header.headerLength) := by
    unfold asyncRead
    rw [hheader]
    dsimp only
    rw [if_pos (not_le.mp hlarge)]
  have hstart := hall _ (.bodyLimit hopen trivial hread (fun _ => rfl)) rfl
  exact (hin.2 hopen).not_body hheader (not_le.mp hlarge) hstart

def ascii (text : String) : Bytes := text.toList.map fun c => c.toNat.toUInt8

/-- The header of an export request with a body of two bytes. -/
def smallHeader : Bytes := ascii
  "POST /v1/traces HTTP/1.1\r\nContent-Type: application/x-protobuf\r\nContent-Length: 2\r\n\r\n"

/-- The header of a request whose body is as long as the message below. -/
def largeHeader : Bytes := ascii "POST /upload HTTP/1.1\r\nContent-Length: 87\r\n\r\n"

/-- An export request of one empty `ResourceSpans`. -/
def smallMessage : Bytes := smallHeader ++ [0x0a, 0x00]

/-- Beast, as it behaves on these two headers. -/
def sampleBeast : Beast where
  parseHeader bytes :=
    if smallHeader.isPrefixOf bytes then some ⟨sampleRequest [], smallHeader.length, 2⟩
    else if largeHeader.isPrefixOf bytes then
      some ⟨{ method := .post, target := "/upload" }, largeHeader.length, 87⟩
    else none
  headerLength_pos bytes header h := by
    split_ifs at h
    · obtain rfl := Option.some.inj h
      decide
    · obtain rfl := Option.some.inj h
      decide

def smallLimit : ServerConfig := { maxBodyBytes := 64 }

/-- A server that has its first segment open, and what it is after it has taken
the small message. -/
def openState : SharedState := ⟨⟨64 * 1024 * 1024, "wal-1-0.wal", 0, true⟩, {}⟩

def openDisk : Disk := ⟨AList.insert "wal-1-0.wal" [] ∅, 1⟩

def filledDisk : Disk := ⟨AList.insert "wal-1-0.wal" (encodeRecord [0x0a, 0x00]) ∅, 1⟩

def servedState (stats : GatewayStats) : SharedState :=
  SharedState.count ⟨{ openState.walWriter with currentFileSize := 10 }, stats⟩ (accepted ⟨[⟨[], []⟩]⟩)

theorem handles_small (stats : GatewayStats) : Prog.Runs (machine True Unused)
    (handleRequest sampleProtobuf smallLimit ⟨openState.walWriter, stats⟩ (sampleRequest [0x0a, 0x00]),
      openDisk)
    (.ret (servedState stats, ⟨.ok, 11, kOtlpProtobuf, true, []⟩), filledDisk) :=
  exec_runs none (.inl rfl) 20 (handleRequest sampleProtobuf smallLimit ⟨openState.walWriter, stats⟩
    (sampleRequest [0x0a, 0x00]), openDisk)

/-- The small message alone. -/
theorem handles_messages_small : HandlesMessages sampleBeast smallMessage
    ⟨87, true, servedState {}, filledDisk, [(0, sampleRequest [0x0a, 0x00])]⟩ := by
  have hlimit : WithinLimit sampleBeast smallLimit smallMessage ⟨0, true, openState, openDisk, []⟩ := by
    intro header hheader
    have hsome : sampleBeast.parseHeader (smallMessage.drop 0) =
        some ⟨sampleRequest [], smallHeader.length, 2⟩ := by decide +kernel
    obtain rfl := Option.some.inj (hsome.symm.trans hheader)
    decide
  have hread : asyncRead sampleBeast smallLimit smallMessage 0 =
      .request (sampleRequest [0x0a, 0x00]) 87 := by decide +kernel
  have hround : Connection.Step sampleBeast sampleProtobuf smallLimit smallMessage
      (WithinLimit sampleBeast smallLimit smallMessage) ⟨0, true, openState, openDisk, []⟩
      ⟨87, true, servedState {}, filledDisk, [(0, sampleRequest [0x0a, 0x00])]⟩ :=
    .request rfl hlimit hread (handles_small {}) fun _ => rfl
  exact (handles_messages (.single hround)).1

/-- The small message as the body of a request that is too large: the session
answers with 413, takes the body for a request, and appends it to the WAL. -/
theorem not_handles_messages : ∃ c, Connection.Reach sampleBeast sampleProtobuf smallLimit
      (largeHeader ++ smallMessage) (fun _ => True) openState openDisk c ∧
    ¬HandlesMessages sampleBeast (largeHeader ++ smallMessage) c ∧
    c.disk.content "wal-1-0.wal" = encodeRecord [0x0a, 0x00] := by
  have hlimit : asyncRead sampleBeast smallLimit (largeHeader ++ smallMessage) 0 =
      .bodyLimit largeHeader.length := by decide +kernel
  have hrefused : Connection.Step sampleBeast sampleProtobuf smallLimit (largeHeader ++ smallMessage)
      (fun _ => True) ⟨0, true, openState, openDisk, []⟩
      ⟨largeHeader.length, true, openState.count bodyTooLarge.increments, openDisk, []⟩ :=
    .bodyLimit rfl trivial hlimit fun _ => rfl
  have hread : asyncRead sampleBeast smallLimit (largeHeader ++ smallMessage) largeHeader.length =
      .request (sampleRequest [0x0a, 0x00]) (largeHeader ++ smallMessage).length := by decide +kernel
  have hround : Connection.Step sampleBeast sampleProtobuf smallLimit (largeHeader ++ smallMessage)
      (fun _ => True) ⟨largeHeader.length, true, openState.count bodyTooLarge.increments, openDisk, []⟩
      ⟨(largeHeader ++ smallMessage).length, true, servedState ⟨0, 0, 0, 1⟩, filledDisk,
        [(largeHeader.length, sampleRequest [0x0a, 0x00])]⟩ :=
    .request rfl trivial hread (handles_small ⟨0, 0, 0, 1⟩) fun _ => rfl
  refine ⟨_, .tail (.single hrefused) hround, fun h => ?_, rfl⟩
  have hstart := (h (largeHeader.length, sampleRequest [0x0a, 0x00]) List.mem_cons_self).1
  have hheader : sampleBeast.parseHeader ((largeHeader ++ smallMessage).drop 0) =
      some ⟨{ method := .post, target := "/upload" }, largeHeader.length, 87⟩ := by decide +kernel
  have hlarge : smallLimit.maxBodyBytes < 87 := by decide
  have hnot := MessageStart.first.not_body hheader hlarge
  rw [Nat.zero_add] at hnot
  exact hnot hstart

end Lrcp.Gateway
