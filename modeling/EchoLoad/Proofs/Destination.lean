import EchoLoad.Dial
import EchoLoad.Proofs.Connection.Emission
import EchoLoad.Proofs.Connection.Opening
import EchoLoad.Proofs.Handshake.ReadBack

/-!
# The request names what was dialed

A URL is looked at three times: when the configuration is checked, when it is dialed, and when the
request is written. Each time something else is asked of it: the check asks whether there is a host
in writing, the dial asks for the host and for the port to connect to, and the request for the host
in writing and the port that is kept. For a lawful reader of URLs these answers agree. The check
accepts what can be dialed (`Destination.exists_ofText_iff`), and the request names the host and
leaves out the port that has been connected to if and only if this is 80
(`Destination.hostport_of_ofText`). All of this is in the request in such a way that it can be read
back, and the rest of the URL is not in it (`request_names_destination`).
-/

namespace EchoLoad

open Url Handshake

/-- What is left of a URL without user info and fragment. The whole text, which shows them, is left
out as well. -/
def Url.bare (u : Url) : Url :=
  { u with username := "", password := none, fragment := none, text := "" }

theorem Url.bare_eq_iff {u u' : Url} : u'.bare = u.bare ↔
    u'.scheme = u.scheme ∧ u'.host? = u.host? ∧ u'.hostText? = u.hostText? ∧
      u'.port? = u.port? ∧ u'.effectivePort? = u.effectivePort? ∧
      u'.path = u.path ∧ u'.query = u.query := by
  simp [bare]

namespace Destination

variable {read : Reader} {url : String} {d : Destination}

theorem ofText_eq_ok_iff : ofText read url = .ok d ↔ ∃ u host, read url = .ok u ∧
    u.scheme = "ws" ∧ u.host? = some host ∧
    d = { url := u, host, port := u.effectivePort?.getD 80 } := by
  unfold ofText
  cases read url with
  | error e => simp
  | ok u =>
    by_cases hscheme : u.scheme = "ws"
    · cases hhost : u.host? with
      | none => simp [hscheme, hhost]
      | some host => simp [hscheme, hhost, eq_comm]
    · simp [hscheme]

/-- What passes the check can be dialed, and the other way round. -/
theorem exists_ofText_iff (hread : read.Assures Lawful) :
    Config.checkUrl read url = .ok () ↔ ∃ d, ofText read url = .ok d := by
  rw [Config.checkUrl_eq_ok_iff]
  constructor
  · rintro ⟨u, hu, hscheme, -⟩
    obtain ⟨host, hhost⟩ := Option.isSome_iff_exists.mp (hread url u hu hscheme).host_isSome
    exact ⟨_, ofText_eq_ok_iff.mpr ⟨u, host, hu, hscheme, hhost, rfl⟩⟩
  · rintro ⟨d, hd⟩
    obtain ⟨u, host, hu, hscheme, -⟩ := ofText_eq_ok_iff.mp hd
    exact ⟨u, hu, hscheme, (hread url u hu hscheme).hostText_isSome⟩

/-- The URL of a destination is the one that has been read, and host and port are its own. -/
theorem url_of_ofText (h : ofText read url = .ok d) :
    read url = .ok d.url ∧ d.url.host? = some d.host ∧
      d.port = d.url.effectivePort?.getD 80 := by
  obtain ⟨u, host, hu, -, hhost, rfl⟩ := ofText_eq_ok_iff.mp h
  exact ⟨hu, hhost, rfl⟩

theorem lawful_of_ofText (hread : read.Assures Lawful) (h : ofText read url = .ok d) :
    d.url.Lawful := by
  obtain ⟨u, host, hu, hscheme, -, rfl⟩ := ofText_eq_ok_iff.mp h
  exact hread url u hu hscheme

/-- The port of the request is left out if and only if the one to connect to is 80. -/
theorem hostport_of_ofText (hread : read.Assures Lawful) (h : ofText read url = .ok d)
    (name : String) : Request.hostport name d.url.port? =
      if d.port = 80 then name else name ++ ":" ++ toString d.port := by
  obtain ⟨-, -, hport⟩ := url_of_ofText h
  rw [(lawful_of_ofText hread h).port?_eq, ← hport]
  by_cases hdefault : d.port = 80
  · rw [if_pos hdefault, if_pos hdefault]
    rfl
  · rw [if_neg hdefault, if_neg hdefault]
    rfl

/-- Nothing else of a URL counts than what is left without user info and fragment. -/
theorem ofText_of_bare_eq {url' : String} {u' : Url} (h : ofText read url = .ok d)
    (hu' : read url' = .ok u') (hbare : u'.bare = d.url.bare) :
    ofText read url' = .ok { d with url := u' } := by
  obtain ⟨u, host, -, hscheme, hhost, rfl⟩ := ofText_eq_ok_iff.mp h
  obtain ⟨hscheme', hhost', -, -, hport, -⟩ := bare_eq_iff.mp hbare
  refine ofText_eq_ok_iff.mpr ⟨u', host, hu', hscheme'.trans hscheme, hhost'.trans hhost, ?_⟩
  rw [hport]

theorem ofUrl?_of_bare_eq {u u' : Url} (h : u'.bare = u.bare) (origin key : String) :
    Request.ofUrl? u' origin key = Request.ofUrl? u origin key := by
  obtain ⟨-, -, hhost, hport, -, hpath, hquery⟩ := bare_eq_iff.mp h
  unfold Request.ofUrl? Url.target
  rw [hhost, hport, hpath, hquery]

end Destination

namespace Connection

variable {source : Source} {sink sink' : Sink} {url : Url} {origin key : String} {opcode : Opcode}
  {seed : UInt32} {spare : Nat} {c : Connection}

theorem sink_of_answered {answer : Head × Inbox}
    (h : answered url key opcode seed sink answer = .value c) : c.sink = sink := by
  obtain ⟨head, inbox⟩ := answer
  cases head with
  | complete n =>
    rw [(eq_of_answered h).2]
    rfl
  | refused | fault | waiting => cases h

/-- What has been sent on a stream when a connection has been made of it. -/
theorem taken_of_upgrade
    (h : (upgrade source sink url origin key opcode seed spare).1 = .value c) :
    ∃ request, Request.ofUrl? url origin key = some request ∧
      c.sink.taken = sink.taken ++ request.toBytes := by
  obtain ⟨request, hrequest, hsent⟩ := sent_of_upgrade h
  rw [upgrade_of_sent hrequest hsent] at h
  refine ⟨request, hrequest, ?_⟩
  rw [sink_of_answered h]
  exact (Sink.sent_of_send (Prod.ext hsent rfl)).taken

end Connection

theorem taken_of_dial {net : Network} {seeds : Seeds} {opcode : Opcode} {url origin : String}
    {read : Reader} {c : Connection} (h : dial net seeds opcode url origin read = .value c) :
    ∃ d source sink request, Destination.ofText read url = .ok d ∧
      net.connect d.host d.port = .ok (source, sink) ∧
      Request.ofUrl? d.url origin seeds.key = some request ∧
      c.sink.taken = sink.taken ++ request.toBytes := by
  have hconnect : connect net seeds opcode url origin read = .value c := by
    unfold dial at h
    split at h
    · cases h
    · exact h
  unfold connect at hconnect
  split at hconnect
  · cases hconnect
  next d hd =>
  split at hconnect
  · cases hconnect
  next source sink hstream =>
  obtain ⟨request, hrequest, htaken⟩ := Connection.taken_of_upgrade hconnect
  exact ⟨d, source, sink, request, hd, hstream, hrequest, htaken⟩

/-- Whatever URLs are read with, as long as the reader is lawful: for every text, the check of the
URL and the dialing agree on whether it can be dialed, and no dial fails with any other kind of error
than that of a connection. A URL that can be dialed has a request for any key and origin, and a dial
that succeeds has sent it to the host and the port of the URL. If key and origin hold no line end,
the request is read back as it was meant: the target, the host in writing with the port that is
dialed unless this is 80, the key and the origin, and no more than these. A text that is read as the
same URL in everything but user info and fragment is dialed at the same place with the same
request. -/
theorem request_names_destination {read : Reader} (hread : read.Assures Url.Lawful) (url : String) :
    (Config.checkUrl read url = .ok () ↔ ∃ d, Destination.ofText read url = .ok d) ∧
      (∀ net seeds opcode origin e, dial net seeds opcode url origin read = .error e →
        e.kind = .connection) ∧
      ∀ d, Destination.ofText read url = .ok d →
        ∃ name, (read url = .ok d.url ∧ d.url.host? = some d.host ∧
            d.url.hostText? = some name) ∧
          ∀ origin key, ∃ request, Request.ofUrl? d.url origin key = some request ∧
            (∀ net seeds opcode c, seeds.key = key →
              dial net seeds opcode url origin read = .value c →
              ∃ source sink, net.connect d.host d.port = .ok (source, sink) ∧
                c.sink.taken = sink.taken ++ request.toBytes) ∧
            (¬ ['\r', '\n'] <:+: origin.toList → ¬ ['\r', '\n'] <:+: key.toList →
              let host := if d.port = 80 then name else name ++ ":" ++ toString d.port
              RequestHead.read? request.toBytes = some
                { words := ["GET", d.url.target, "HTTP/1.1"]
                  headers :=
                    [ ("Host", host), ("Upgrade", "websocket"), ("Connection", "Upgrade"),
                      ("Sec-WebSocket-Key", key), ("Origin", origin),
                      ("Sec-WebSocket-Version", "13") ] }) ∧
            ∀ url' u', read url' = .ok u' → u'.bare = d.url.bare →
              ∃ d', Destination.ofText read url' = .ok d' ∧ d'.host = d.host ∧ d'.port = d.port ∧
                Request.ofUrl? d'.url origin key = some request := by
  refine ⟨Destination.exists_ofText_iff hread, fun _ _ _ _ _ => kind_of_dial_error, ?_⟩
  intro d hd
  obtain ⟨hu, hhost, -⟩ := Destination.url_of_ofText hd
  have hlawful := Destination.lawful_of_ofText hread hd
  obtain ⟨name, hname⟩ := Option.isSome_iff_exists.mp hlawful.hostText_isSome
  refine ⟨name, ⟨hu, hhost, hname⟩, fun origin key => ?_⟩
  have hrequest : Request.ofUrl? d.url origin key = some _ :=
    Request.ofUrl?_eq_some_iff.mpr ⟨name, hname, rfl⟩
  refine ⟨_, hrequest, ?_, ?_, ?_⟩
  · rintro net seeds opcode c rfl hdial
    obtain ⟨d', source, sink, request, hd', hstream, hsent, htaken⟩ := taken_of_dial hdial
    obtain rfl : d = d' := Except.ok.inj (hd.symm.trans hd')
    obtain rfl := Option.some.inj (hrequest.symm.trans hsent)
    exact ⟨source, sink, hstream, htaken⟩
  · intro horigin hkey
    rw [(Request.legible_of_ofUrl? hlawful.toPlain hrequest horigin hkey).read?_toBytes,
      ← Destination.hostport_of_ofText hread hd name]
    rfl
  · intro url' u' hu' hbare
    refine ⟨_, Destination.ofText_of_bare_eq hd hu' hbare, rfl, rfl, ?_⟩
    rw [Destination.ofUrl?_of_bare_eq hbare, hrequest]

/-- A network on which every host gives the sample answer. -/
def Network.sample : Network :=
  { connect := fun _ _ => .ok (.ofArrivals [.data Connection.sampleAnswer], .willing) }

theorem exists_dial_sample {read : Reader} {url origin : String} {d : Destination}
    {request : Request} (h : Destination.ofText read url = .ok d)
    (hrequest : Request.ofUrl? d.url origin Connection.sampleKey = some request) :
    ∃ c, dial .sample ⟨Connection.sampleKey, 0⟩ .text url origin read = .value c := by
  have hlength : Connection.sampleAnswer.length = 129 := by decide +kernel
  have hends : EndsAt [Connection.sampleAnswer].flatten 129 := by
    rw [List.flatten_singleton]
    exact Connection.endsAt_sampleAnswer
  obtain ⟨inbox, hawaited, hhead, -⟩ := readHead_ofArrivals hends (by decide) [] 0
  have hread : readHead { buffer := [], source := .ofArrivals [.data Connection.sampleAnswer] } =
      (.complete 129, inbox) := hawaited
  have haccept : readAccept (inbox.buffer.take 129) = .ok (acceptKey Connection.sampleKey) := by
    rw [hhead, List.flatten_singleton, List.take_of_length_le (Nat.le_of_eq hlength)]
    exact Connection.readAccept_sampleAnswer
  obtain ⟨c, hc⟩ : ∃ c,
      connect .sample ⟨Connection.sampleKey, 0⟩ .text url origin read = .value c := by
    unfold connect
    rw [h]
    dsimp only [Network.sample]
    rw [Connection.upgrade_eq Sink.working_willing hrequest, hread]
    exact Connection.answered_of_accept haccept
  refine ⟨c, ?_⟩
  rw [dial, hc]

/-- A URL with user info and a fragment, which can be dialed, and the same URL without them. -/
theorem request_names_destination_userinfo : ∃ d d' request c,
    Destination.ofText parse "ws://ann:secret@example.com:8080/ws?room=1#top" = .ok d ∧
      Destination.ofText parse "ws://example.com:8080/ws?room=1" = .ok d' ∧
      Request.ofUrl? d.url "http://example.com/" Connection.sampleKey = some request ∧
      Request.ofUrl? d'.url "http://example.com/" Connection.sampleKey = some request ∧
      dial .sample ⟨Connection.sampleKey, 0⟩ .text
        "ws://ann:secret@example.com:8080/ws?room=1#top" "http://example.com/" parse = .value c ∧
      c.sink.taken = request.toBytes ∧
      RequestHead.read? request.toBytes = some
        { words := ["GET", "/ws?room=1", "HTTP/1.1"]
          headers :=
            [ ("Host", "example.com:8080"), ("Upgrade", "websocket"), ("Connection", "Upgrade"),
              ("Sec-WebSocket-Key", Connection.sampleKey), ("Origin", "http://example.com/"),
              ("Sec-WebSocket-Version", "13") ] } := by
  have hd : Destination.ofText parse "ws://ann:secret@example.com:8080/ws?room=1#top" = .ok
      { url :=
          { scheme := "ws", username := "ann", password := some "secret"
            host? := some (.domain "example.com"), hostText? := some "example.com"
            port? := some 8080, effectivePort? := some 8080
            path := "/ws", query := some "room=1", fragment := some "top"
            text := "ws://ann:secret@example.com:8080/ws?room=1#top" }
        host := .domain "example.com"
        port := 8080 } := by rfl
  obtain ⟨-, -, hall⟩ := request_names_destination lawful_parse
    "ws://ann:secret@example.com:8080/ws?room=1#top"
  obtain ⟨name, ⟨-, -, hname⟩, hrequests⟩ := hall _ hd
  obtain rfl : "example.com" = name := Option.some.inj hname
  obtain ⟨request, hrequest, hsent, hread, hsame⟩ :=
    hrequests "http://example.com/" Connection.sampleKey
  obtain ⟨c, hdial⟩ := exists_dial_sample hd hrequest
  obtain ⟨source, sink, hstream, htaken⟩ := hsent .sample _ .text c rfl hdial
  obtain rfl : Sink.willing = sink := congrArg Prod.snd (Except.ok.inj hstream)
  obtain ⟨d', hd', -, -, hrequest'⟩ := hsame "ws://example.com:8080/ws?room=1" _ rfl rfl
  exact ⟨_, d', request, c, hd, hd', hrequest, hrequest', hdial, htaken.trans (List.nil_append _),
    hread (by decide) (by decide)⟩

end EchoLoad
