import EchoLoad.Proofs.Connection.Segmentation
import EchoLoad.Proofs.Handshake.Answer
import EchoLoad.Proofs.Handshake.Head

/-!
# The opening handshake reads the head and nothing else

The answer to the upgrade request arrives in pieces, and the first frames of the peer may come with
it. `Connection.upgrade` judges the bytes up to the first blank line (`upgrade_of_accepted`,
`upgrade_of_refused`), whatever the pieces are, and the bytes behind it stay in the inbox
(`readHead_ofArrivals`). So a connection that has been opened is a fresh connection on the stream
that begins behind the head: no calls tell them apart (`upgrade_any_cutting`).
-/

namespace EchoLoad

open Handshake

namespace Handshake

variable {pieces : List Bytes} {tail : List Arrival} {e : Nat}

/-- The inbox in which the answer is awaited. -/
def awaiting (pieces : List Bytes) (tail : List Arrival) (spare : Nat) : Inbox :=
  { buffer := [], source := .ofArrivals (pieces.map .data ++ tail), spare }

theorem feed_awaiting (pieces : List Bytes) (tail : List Arrival) (spare : Nat) :
    (awaiting pieces tail spare).feed = .ofArrivals pieces.flatten tail :=
  Feed.ofArrivals_pieces [] pieces tail

/-- The head is found where it ends, and what is left is what comes behind it. -/
theorem readHead_ofArrivals (h : EndsAt pieces.flatten e) (hle : e ≤ maxHead)
    (tail : List Arrival) (spare : Nat) :
    ∃ inbox, readHead (awaiting pieces tail spare) = (.complete e, inbox) ∧
      inbox.buffer.take e = pieces.flatten.take e ∧
      { inbox with buffer := inbox.buffer.drop e }.feed =
        .ofArrivals (pieces.flatten.drop e) tail := by
  have hlength := h.le_length
  have hbytes : (Feed.ofArrivals pieces.flatten tail).bytes =
      pieces.flatten ++ (Feed.ofArrivals [] tail).bytes := by
    have happend := Feed.ofArrivals_append pieces.flatten [] tail
    rw [List.append_nil] at happend
    rw [happend]
  have hends : EndsAt (awaiting pieces tail spare).feed.bytes e := by
    rw [feed_awaiting, hbytes]
    exact (endsAt_append_iff hlength).mpr h
  obtain ⟨inbox, hread, hbuffer, hfeed⟩ := readHead_of_endsAt hends hle
  rw [feed_awaiting] at hfeed
  refine ⟨inbox, hread, ?_, ?_⟩
  · have hsame : (inbox.buffer ++ (inbox.source.feed []).bytes).take e =
        (pieces.flatten ++ (Feed.ofArrivals [] tail).bytes).take e := by
      rw [← hbytes, ← hfeed, Inbox.feed_eq]
    rwa [List.take_append_of_le_length hbuffer, List.take_append_of_le_length hlength] at hsame
  · rw [Inbox.feed_drop hbuffer, hfeed, ← Feed.ofArrivals_drop hlength]

/-- A stream that ends without a blank line. -/
theorem readHead_of_no_mark (hmark : ¬ headMark <:+: pieces.flatten)
    (hle : pieces.flatten.length ≤ maxHead)
    (htail : tail = [] ∨ ∃ later, tail = .ending :: later) (spare : Nat) :
    (readHead (awaiting pieces tail spare)).1 = .refused .closedEarly := by
  have hfeed : (awaiting pieces tail spare).feed.bytes = pieces.flatten ∧
      (awaiting pieces tail spare).feed.halt = .ending := by
    rw [feed_awaiting]
    rcases htail with rfl | ⟨later, rfl⟩
    · exact ⟨rfl, rfl⟩
    · exact ⟨rfl, rfl⟩
  rw [← hfeed.1] at hmark hle
  exact readHead_of_ending hmark hle hfeed.2

theorem Request.key_of_ofUrl? {url : Url} {origin key : String} {request : Request}
    (h : Request.ofUrl? url origin key = some request) : request.key = key := by
  obtain ⟨host, -, rfl⟩ := ofUrl?_eq_some_iff.mp h
  rfl

end Handshake

namespace Connection

variable {source : Source} {sink : Sink} {url : Url} {origin key : String} {opcode : Opcode}
  {seed : UInt32} {spare : Nat} {request : Request} {inbox : Inbox} {n : Nat}

/-- What becomes of a stream on which the request has been sent, by the head of the answer. -/
def answered (url : Url) (key : String) (opcode : Opcode) (seed : UInt32) (sink : Sink) :
    Head × Inbox → Outcome Connection
  | (.refused r, _) => .error (.refused r)
  | (.fault f, _) => .error (.ofFault f)
  | (.waiting, _) => .waiting
  | (.complete n, inbox) =>
    match (readAccept (inbox.buffer.take n)).bind (verify · key) with
    | .error r => .error (.refused r)
    | .ok () =>
      let c := ofUpgraded inbox.source sink (inbox.buffer.drop n) opcode seed
      .value { c with journal := [.handshakeComplete url.text] }

/-- Once the request has been sent, all depends on the head of the answer. -/
theorem upgrade_of_sent (hrequest : Request.ofUrl? url origin key = some request)
    (hsent : (sink.send request.toBytes).1 = none) :
    upgrade source sink url origin key opcode seed spare =
      (answered url key opcode seed (sink.send request.toBytes).2
        (readHead { buffer := [], source, spare }), (sink.send request.toBytes).2) := by
  unfold upgrade answered
  rw [hrequest]
  dsimp only
  generalize sink.send request.toBytes = sent at hsent ⊢
  obtain ⟨fault, sink⟩ := sent
  obtain rfl : fault = none := hsent
  generalize readHead { buffer := [], source, spare } = answer
  obtain ⟨head, inbox⟩ := answer
  cases head with
  | refused r => rfl
  | fault f => rfl
  | waiting => rfl
  | complete n =>
    dsimp only
    cases (readAccept (inbox.buffer.take n)).bind (verify · key) with
    | error r => rfl
    | ok u => rfl

/-- A working stream takes all of the request, whatever is answered. -/
theorem upgrade_eq (hsink : sink.Working)
    (hrequest : Request.ofUrl? url origin key = some request) :
    upgrade source sink url origin key opcode seed spare =
      (answered url key opcode seed (sink.send request.toBytes).2
        (readHead { buffer := [], source, spare }), (sink.send request.toBytes).2) :=
  upgrade_of_sent hrequest (hsink.send request.toBytes).1

/-- No connection is opened before the request has been sent. -/
theorem sent_of_upgrade {c : Connection}
    (h : (upgrade source sink url origin key opcode seed spare).1 = .value c) :
    ∃ request, Request.ofUrl? url origin key = some request ∧
      (sink.send request.toBytes).1 = none := by
  unfold upgrade at h
  split at h
  · cases h
  · next request hrequest =>
    refine ⟨request, hrequest, ?_⟩
    split at h
    · cases h
    · next hsend => rw [hsend]

theorem answered_of_error {r : Refusal} (h : readAccept (inbox.buffer.take n) = .error r) :
    answered url key opcode seed sink (.complete n, inbox) = .error (.refused r) := by
  simp only [answered, h, Except.bind]

theorem answered_of_wrong {accept : String} (h : readAccept (inbox.buffer.take n) = .ok accept)
    (hne : accept ≠ acceptKey key) :
    answered url key opcode seed sink (.complete n, inbox) = .error (.refused .wrongAccept) := by
  simp only [answered, h, Except.bind, verify, if_neg hne]

theorem answered_of_accept (h : readAccept (inbox.buffer.take n) = .ok (acceptKey key)) :
    ∃ c, answered url key opcode seed sink (.complete n, inbox) = .value c := by
  simp only [answered, h, Except.bind, verify, if_pos, Outcome.value.injEq, exists_eq']

/-- A connection that has been opened goes on reading behind the head. -/
theorem eq_of_answered {c : Connection}
    (h : answered url key opcode seed sink (.complete n, inbox) = .value c) :
    readAccept (inbox.buffer.take n) = .ok (acceptKey key) ∧
      c = { ofUpgraded inbox.source sink (inbox.buffer.drop n) opcode seed with
        journal := [.handshakeComplete url.text] } := by
  cases haccept : readAccept (inbox.buffer.take n) with
  | error r => cases (answered_of_error haccept).symm.trans h
  | ok accept =>
    by_cases heq : accept = acceptKey key
    · subst heq
      simp only [answered, haccept, Except.bind, verify, if_pos, Outcome.value.injEq] at h
      exact ⟨rfl, h.symm⟩
    · cases (answered_of_wrong haccept heq).symm.trans h

/-- The request is sent, with the key that the answer has to accept. However the answer is cut, and
whatever room the reads find, the connection is opened if the head is in order and accepts the key,
and otherwise the error is that of the head. No byte behind the head is lost: the connection,
whatever room its own reads find, is like a fresh one on the stream that begins there. An answer
that ends without a blank line is refused. -/
theorem upgrade_any_cutting (pieces : List Bytes) (tail : List Arrival) (sink : Sink) (url : Url)
    (origin key : String) (opcode : Opcode) (seed : UInt32) (spare : Nat) (request : Request)
    (hsink : sink.Working) (hrequest : Request.ofUrl? url origin key = some request) :
    let bytes := pieces.flatten
    let source := Source.ofArrivals (pieces.map .data ++ tail)
    let result := upgrade source sink url origin key opcode seed spare
    (request.key = key ∧ result.2.taken = sink.taken ++ request.toBytes) ∧
      (∀ e, EndsAt bytes e → e ≤ maxHead →
        let answer := readAccept (bytes.take e)
        ((∃ c, result.1 = .value c) ↔ answer = .ok (acceptKey key)) ∧
          (∀ r, answer = .error r → result.1 = .error (.refused r)) ∧
          (∀ accept, answer = .ok accept → accept ≠ acceptKey key →
            result.1 = .error (.refused .wrongAccept)) ∧
          ∀ c, result.1 = .value c → ∀ room, ∀ k : Cutting, k.bytes = bytes.drop e →
            ∀ seed' ops, Indistinguishable { c with inbox := { c.inbox with spare := room } }
              (k.connection tail result.2 opcode Frame.maxPayload seed') ops) ∧
      (bytes.length ≤ maxHead → ¬ headMark <:+: bytes →
        (tail = [] ∨ ∃ later, tail = .ending :: later) →
        result.1 = .error (.refused .closedEarly) ∧
          (Error.refused .closedEarly).kind = .handshake) := by
  intro bytes source result
  have hresult : result = _ := upgrade_eq hsink hrequest
  refine ⟨⟨Request.key_of_ofUrl? hrequest, ?_⟩, fun e hends hle => ?_,
    fun hle hmark htail => ⟨?_, rfl⟩⟩
  · rw [hresult]
    exact (hsink.send request.toBytes).2.1
  · obtain ⟨inbox, hread, hhead, hfeed⟩ := readHead_ofArrivals hends hle tail spare
    have hanswered : result.1 =
        answered url key opcode seed (sink.send request.toBytes).2 (.complete e, inbox) := by
      rw [hresult, ← hread]
      rfl
    intro answer
    have hanswer : answer = readAccept (inbox.buffer.take e) := congrArg readAccept hhead.symm
    rw [hanswer, hanswered]
    refine ⟨⟨fun ⟨c, hc⟩ => (eq_of_answered hc).1, answered_of_accept⟩,
      fun r => answered_of_error, fun accept => answered_of_wrong, ?_⟩
    intro c hc room k hk seed' ops
    rw [(eq_of_answered hc).2]
    apply Alike.indistinguishable
    refine ⟨?_, ?_, rfl, rfl, rfl, rfl⟩
    · rw [Cutting.feed_connection, hk]
      exact hfeed
    · rw [hresult]
      exact .refl _
  · have hread := readHead_of_no_mark hmark hle htail spare
    rw [hresult]
    show answered url key opcode seed _ (readHead (awaiting pieces tail spare)) = _
    generalize readHead (awaiting pieces tail spare) = answer at hread
    obtain ⟨head, inbox⟩ := answer
    obtain rfl : head = .refused .closedEarly := hread
    rfl

/-! ## An answer cut inside its blank line -/

/-- The key of the example in RFC 6455, section 1.3. -/
def sampleKey : String := "dGhlIHNhbXBsZSBub25jZQ=="

def sampleLines : List String :=
  [ "HTTP/1.1 101 Switching Protocols", "Upgrade: websocket", "Connection: Upgrade",
    "Sec-WebSocket-Accept: s3pPLMBiTxaQ9kYGzzhZRbK+xOo=", "" ]

/-- The headers of the sample. -/
def sampleHeaders : List (List Char) := ((sampleLines.drop 1).take 3).map String.toList

/-- The answer to the key. -/
def sampleAnswer : Bytes :=
  Utf8.encode (sampleLines.flatMap fun line => line.toList ++ ['\r', '\n'])

theorem acceptKey_sampleKey : acceptKey sampleKey = "s3pPLMBiTxaQ9kYGzzhZRbK+xOo=" := by
  decide +kernel

theorem hasHead_sampleAnswer :
    HasHead sampleAnswer "HTTP/1.1 101 Switching Protocols".toList sampleHeaders := by
  have hlines : Text.lines (sampleLines.flatMap fun line => line.toList ++ ['\r', '\n']) =
      "HTTP/1.1 101 Switching Protocols".toList :: (sampleHeaders ++ [[]]) := by decide +kernel
  exact .mk (Text.lines_eq_iff.mp hlines) (.cut (by decide +kernel) [])

theorem readAccept_sampleAnswer : readAccept sampleAnswer = .ok (acceptKey sampleKey) := by
  rw [readAccept_of_hasHead hasHead_sampleAnswer, acceptKey_sampleKey]
  decide +kernel

theorem endsAt_sampleAnswer : EndsAt sampleAnswer 129 :=
  headEnd?_eq_some_iff.mp (by decide +kernel)

def sampleUrl : Url :=
  { scheme := "ws", username := "", password := none
    host? := some (.domain "localhost"), hostText? := some "localhost"
    port? := none, effectivePort? := some 80
    path := "/", query := none, fragment := none, text := "ws://localhost/" }

/-- The second piece brings the last line end of the answer and a ping. The reads of the head find
room for seven bytes beyond `readLimit`, and those of the connection for three. -/
theorem upgrade_sampleAnswer :
    let pieces : List Bytes := [sampleAnswer.take 127, sampleAnswer.drop 127 ++ [0x89, 0]]
    ∃ c sink,
      upgrade (.ofArrivals (pieces.map .data ++ [.pause])) .willing sampleUrl "load" sampleKey
        .text 1 7 = (.value c, sink) ∧
      Indistinguishable { c with inbox := { c.inbox with spare := 3 } }
        ((⟨[0x89, 0], [], 0⟩ : Cutting).connection [.pause] sink .text Frame.maxPayload 2)
        [.receive, .close] := by
  intro pieces
  have hbytes : pieces.flatten = sampleAnswer ++ [0x89, 0] := by
    simp [pieces, ← List.append_assoc]
  have hlength : sampleAnswer.length = 129 := by decide +kernel
  obtain ⟨-, hopened, -⟩ := upgrade_any_cutting pieces [.pause] .willing sampleUrl "load" sampleKey
    .text 1 7 ⟨"/", "localhost", sampleKey, "load"⟩ Sink.working_willing rfl
  rw [hbytes] at hopened
  generalize upgrade _ _ _ _ _ _ _ _ = result at hopened ⊢
  obtain ⟨outcome, sink⟩ := result
  obtain ⟨hiff, -, -, hlike⟩ :=
    hopened 129 ((endsAt_append_iff (by omega)).mpr endsAt_sampleAnswer) (by decide)
  rw [List.take_left' hlength] at hiff
  rw [List.drop_left' hlength] at hlike
  obtain ⟨c, hc⟩ := hiff.mpr readAccept_sampleAnswer
  exact ⟨c, sink, Prod.ext hc rfl, hlike c hc 3 _ rfl 2 _⟩

end Connection

end EchoLoad
