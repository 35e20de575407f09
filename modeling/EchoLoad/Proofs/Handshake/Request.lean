import EchoLoad.Handshake.AcceptKey
import EchoLoad.Handshake.Request
import EchoLoad.Proofs.Config
import EchoLoad.Proofs.Handshake.Lines
import EchoLoad.Proofs.Url.Parse

/-!
# The request is one head

The upgrade request is to be read as one head: a request line and one line for each header, then a
blank line, and nothing behind it (`IsRequestHead`). Most of what is written into it is plain: host,
path and query of a URL, if the reader of URLs keeps its law, and the key, which comes out of Base64.
The origin is written as it stands in the configuration, and the check of the configuration does not
look at it. So the request is one head if and only if the origin holds no line end
(`request_isRequestHead_iff`).
-/

namespace EchoLoad

open Url

theorem Base64.isPlain_digit (n : Nat) : IsPlain (Base64.digit n) := by
  have hdigit : ∀ n < 64, IsPlain (Base64.digit n) := by decide
  by_cases hn : n < 64
  · exact hdigit n hn
  · unfold Base64.digit
    rw [if_neg (by omega), if_neg (by omega), if_neg (by omega), if_neg (by omega)]
    decide

theorem Base64.plainText_encode (bytes : Bytes) : PlainText (Base64.encode bytes) := by
  have hpad : IsPlain '=' := by decide
  fun_induction Base64.encode bytes with
  | case1 a b c rest n ih =>
    apply PlainText.cons (isPlain_digit _)
    apply PlainText.cons (isPlain_digit _)
    apply PlainText.cons (isPlain_digit _)
    exact .cons (isPlain_digit _) ih
  | case2 a b n =>
    apply PlainText.cons (isPlain_digit _)
    apply PlainText.cons (isPlain_digit _)
    apply PlainText.cons (isPlain_digit _)
    exact .cons hpad .nil
  | case3 a n =>
    apply PlainText.cons (isPlain_digit _)
    apply PlainText.cons (isPlain_digit _)
    exact .cons hpad (.cons hpad .nil)
  | case4 => exact .nil

namespace Handshake

/-- The headers of the request, in their order. -/
def headerNames : List String :=
  ["Host", "Upgrade", "Connection", "Sec-WebSocket-Key", "Origin", "Sec-WebSocket-Version"]

/-- One whole head of a request: its first blank line is its end, and before that there are the
request line and one line for each header. -/
structure IsRequestHead (bytes : Bytes) : Prop where
  ends : headEnd? bytes = some bytes.length
  lines : ∃ (target : String) (values : List String), PlainText target.toList ∧
    values.length = headerNames.length ∧
    splitLines bytes = (("GET " ++ target ++ " HTTP/1.1") ::
      headerNames.zipWith (fun name value => name ++ ": " ++ value) values).map
        (fun line => Utf8.encode line.toList) ++ [[], []]

namespace Request

variable {r : Request}

theorem lines_eq (r : Request) :
    r.lines = ("GET " ++ r.target ++ " HTTP/1.1") ::
      headerNames.zipWith (fun name value => name ++ ": " ++ value)
        [r.host, "websocket", "Upgrade", r.key, r.origin, "13"] := by
  simp [lines, headerNames]

theorem toBytes_eq (r : Request) :
    r.toBytes = joinLines (r.lines.map fun line => Utf8.encode line.toList) ++ lineEnd := by
  have hlines : r.text.toList =
      (r.lines.map String.toList).flatMap (· ++ ['\r', '\n']) ++ ['\r', '\n'] := by
    rw [text, String.toList_append, String.toList_join, List.flatMap_map, List.flatMap_map]
    simp only [String.toList_append]
    rfl
  rw [toBytes, hlines, Utf8.encode_append, encode_flatMap, List.map_map]
  rfl

theorem ne_nil_of_mem_lines {line : String} (h : line ∈ r.lines) : line.toList ≠ [] := by
  simp only [lines, List.mem_cons, List.not_mem_nil, or_false] at h
  rcases h with rfl | rfl | rfl | rfl | rfl | rfl | rfl
  all_goals simp

theorem isInfix_origin_iff (origin : String) :
    lineEnd <:+: Utf8.encode ("Origin: " ++ origin).toList ↔ ['\r', '\n'] <:+: origin.toList := by
  rw [isInfix_encode_iff, String.toList_append, isInfix_text_append_iff (by decide)]

/-- The lines before that of the origin. -/
def before (r : Request) : List String := r.lines.take 5

theorem lines_eq_before (r : Request) :
    r.lines = r.before ++ ["Origin: " ++ r.origin, "Sec-WebSocket-Version: 13"] := rfl

/-- What stands in the lines before that of the origin holds no line end. -/
structure Tidy (r : Request) : Prop where
  target : PlainText r.target.toList
  host : '\r' ∉ r.host.toList
  key : '\r' ∉ r.key.toList

theorem Tidy.not_isInfix_before (h : r.Tidy) {line : String} (hline : line ∈ r.before) :
    ¬ lineEnd <:+: Utf8.encode line.toList := by
  apply not_isInfix_encode
  have htarget := h.target.return_notMem
  simp only [before, lines, List.take_succ_cons, List.take_zero, List.mem_cons, List.not_mem_nil,
    or_false] at hline
  rcases hline with rfl | rfl | rfl | rfl | rfl
  · simp [htarget]
  · simp [h.host]
  · decide
  · decide
  · simp [h.key]

theorem not_isInfix_version : ¬ lineEnd <:+: Utf8.encode "Sec-WebSocket-Version: 13".toList :=
  not_isInfix_encode (by decide)

theorem Tidy.not_isInfix (h : r.Tidy) (hnone : ¬ ['\r', '\n'] <:+: r.origin.toList)
    {line : String} (hline : line ∈ r.lines) : ¬ lineEnd <:+: Utf8.encode line.toList := by
  simp only [lines_eq_before, List.mem_append, List.mem_cons, List.not_mem_nil, or_false] at hline
  rcases hline with hline | rfl | rfl
  · exact h.not_isInfix_before hline
  · exact fun hend => hnone ((isInfix_origin_iff r.origin).mp hend)
  · exact not_isInfix_version

/-- The head falls into six lines, the pieces of the line of the origin, and two empty pieces. -/
theorem Tidy.length_splitLines (h : r.Tidy) : (splitLines r.toBytes).length =
    (splitLines (Utf8.encode ("Origin: " ++ r.origin).toList)).length + 8 := by
  have hbefore : (r.before.map fun line => Utf8.encode line.toList).flatMap splitLines =
      r.before.map fun line => Utf8.encode line.toList := by
    refine flatMap_splitLines fun bytes hbytes => ?_
    obtain ⟨line, hline, rfl⟩ := List.mem_map.mp hbytes
    exact h.not_isInfix_before hline
  have hlength : r.before.length = 5 := rfl
  have hend : (splitLines lineEnd).length = 2 := rfl
  rw [toBytes_eq, splitLines_joinLines_append, lines_eq_before, List.map_append,
    List.flatMap_append, hbefore]
  simp only [List.length_append, List.length_map, hlength, List.map_cons, List.map_nil,
    List.flatMap_cons, List.flatMap_nil, splitLines_eq_self not_isInfix_version,
    List.length_cons, List.length_nil, hend]
  omega

/-- If nothing but the origin can hold a line end, then all depends on the origin. -/
theorem Tidy.isRequestHead_iff (h : r.Tidy) :
    IsRequestHead r.toBytes ↔ ¬ ['\r', '\n'] <:+: r.origin.toList := by
  constructor
  · intro hhead hend
    obtain ⟨target, values, -, hlength, hlines⟩ := hhead.lines
    have hpieces := congrArg List.length hlines
    have hnames : headerNames.length = 6 := rfl
    rw [h.length_splitLines] at hpieces
    simp only [List.length_append, List.length_map, List.length_cons, List.length_zipWith, hlength,
      hnames, List.length_nil] at hpieces
    have hone := length_splitLines_eq_one_iff.mp (Nat.add_right_cancel hpieces)
    exact hone ((isInfix_origin_iff r.origin).mpr hend)
  · intro hnone
    have hwhole : ∀ bytes ∈ r.lines.map fun line => Utf8.encode line.toList,
        bytes ≠ [] ∧ ¬ lineEnd <:+: bytes := by
      intro bytes hbytes
      obtain ⟨line, hline, rfl⟩ := List.mem_map.mp hbytes
      exact ⟨mt Utf8.encode_eq_nil_iff.mp (ne_nil_of_mem_lines hline), h.not_isInfix hnone hline⟩
    constructor
    · rw [headEnd?_eq_some_iff, toBytes_eq]
      exact endsAt_joinLines (List.cons_ne_nil _ _) hwhole
    · refine ⟨r.target, [r.host, "websocket", "Upgrade", r.key, r.origin, "13"], h.target, rfl, ?_⟩
      rw [← lines_eq, toBytes_eq]
      exact splitLines_joinLines (fun bytes hbytes => (hwhole bytes hbytes).2) lineEnd

theorem plain_hostport {host : String} (h : PlainText host.toList) (port : Option Nat) :
    PlainText (hostport host port).toList := by
  cases port with
  | none => exact h
  | some port =>
    simp only [hostport, String.toList_append]
    exact (h.append (by decide)).append (plainText_toString port)

/-- Nothing that comes out of a URL or is made of random bytes holds a line end. -/
theorem tidy_of_ofUrl? {url : Url} (hplain : url.Plain) {origin : String} {random : Bytes}
    (h : ofUrl? url origin (keyOf random) = some r) : r.Tidy := by
  obtain ⟨host, hhost, rfl⟩ := ofUrl?_eq_some_iff.mp h
  refine ⟨hplain.target, (plain_hostport (hplain.host host hhost) url.port?).return_notMem, ?_⟩
  rw [keyOf, String.toList_ofList]
  exact (Base64.plainText_encode random).return_notMem

end Request

/-- Whatever URLs are read with, as long as host, path and query of a `ws` URL hold no space and no
line end: for every configuration that is checked, and every key, there is a request. It is one
whole head if and only if the origin holds no line end. -/
theorem request_isRequestHead_iff {read : Reader} (hread : read.Assures Url.Plain) (c : Config)
    (h : c.check read = .ok ()) (random : Bytes) :
    ∃ url request, read c.url = .ok url ∧
      Request.ofUrl? url c.origin (keyOf random) = some request ∧
      (IsRequestHead request.toBytes ↔ ¬ ['\r', '\n'] <:+: c.origin.toList) := by
  obtain ⟨-, -, -, -, hcheck⟩ := Config.check_eq_ok_iff.mp h
  obtain ⟨url, hurl, hscheme, hhost⟩ := Config.checkUrl_eq_ok_iff.mp hcheck
  obtain ⟨host, hhost⟩ := Option.isSome_iff_exists.mp hhost
  have hrequest : Request.ofUrl? url c.origin (keyOf random) = some _ :=
    Request.ofUrl?_eq_some_iff.mpr ⟨host, hhost, rfl⟩
  exact ⟨url, _, hurl, hrequest,
    (Request.tidy_of_ofUrl? (hread _ _ hurl hscheme) hrequest).isRequestHead_iff⟩

/-- The default configuration, and a key of zeros. -/
theorem isRequestHead_default :
    Reader.Assures parse Url.Plain ∧ ({} : Config).check parse = .ok () ∧
      ∃ url request, parse "ws://localhost:9898/ws" = .ok url ∧
        Request.ofUrl? url "http://localhost:9898/" (keyOf (List.replicate 16 0)) = some request ∧
        IsRequestHead request.toBytes := by
  have hcheck : ({} : Config).check parse = .ok () := by rfl
  obtain ⟨url, request, hurl, hrequest, hiff⟩ :=
    request_isRequestHead_iff lawful_parse.plain {} hcheck (List.replicate 16 0)
  exact ⟨lawful_parse.plain, hcheck, url, request, hurl, hrequest, hiff.mpr (by decide +kernel)⟩

/-- A configuration with a blank line in its origin. -/
def brokenOrigin : Config := { origin := "http://localhost/\r\n\r\nX: y" }

/-- It passes the check, and the head of its request ends in the origin. -/
theorem not_forall_request_ends :
    ¬ ∀ read : Reader, read.Assures Url.Plain → ∀ c : Config, c.check read = .ok () →
      ∀ (random : Bytes) (url : Url) (request : Request), read c.url = .ok url →
        Request.ofUrl? url c.origin (keyOf random) = some request →
        headEnd? request.toBytes = some request.toBytes.length := by
  intro hall
  have hcheck : brokenOrigin.check parse = .ok () := by rfl
  have hends := hall parse lawful_parse.plain brokenOrigin hcheck (List.replicate 16 0) _ _ rfl rfl
  revert hends
  decide +kernel

end Handshake

end EchoLoad
