import EchoLoad.Proofs.Handshake.Request
import Mathlib.Data.List.TakeDrop

/-!
# The request is read back

The head of a request is cut at its line ends, the request line at its spaces, and every header at
its first colon with a space behind it (`RequestHead.read?`). As long as no value holds a line end,
this gives back the target and the headers of the request, and there is nothing else in it
(`Request.Legible.read?_toBytes`). Names end before the first colon, so a value may hold anything
else, colons included.
-/

namespace EchoLoad.Handshake

open Url

/-! ## Reading a head -/

/-- What is read in the head of a request. -/
structure RequestHead where
  /-- The pieces of the request line. -/
  words : List String
  /-- Names and values, in their order. -/
  headers : List (String × String)
  deriving DecidableEq, Repr

/-- The text before and after the first colon that has a space behind it. -/
def cutHeader? : List Char → Option (List Char × List Char)
  | [] => none
  | ':' :: ' ' :: value => some ([], value)
  | c :: cs => (cutHeader? cs).map fun (name, value) => (c :: name, value)

def readHeader? (line : Bytes) : Option (String × String) := do
  let (name, value) ← (Utf8.decode? line).bind cutHeader?
  pure (String.ofList name, String.ofList value)

/-- Reads a head. It ends with an empty line, and nothing stands behind it. -/
def RequestHead.read? (bytes : Bytes) : Option RequestHead :=
  match (splitLines bytes).span fun line => !line.isEmpty with
  | (line :: lines, [[], []]) => do
    let start ← Utf8.decode? line
    let headers ← lines.mapM readHeader?
    pure { words := (start.splitOn ' ').map String.ofList, headers }
  | _ => none

/-- A header as it is written. -/
def headerText (header : String × String) : String := header.1 ++ ": " ++ header.2

theorem cutHeader?_append {name : List Char} (h : ':' ∉ name) (value : List Char) :
    cutHeader? (name ++ ':' :: ' ' :: value) = some (name, value) := by
  induction name with
  | nil => rfl
  | cons c name ih =>
    rw [List.mem_cons, not_or] at h
    rw [List.cons_append, cutHeader?, ih h.2]
    · rfl
    · rintro rest rfl
      exact absurd rfl h.1

theorem readHeader?_headerText {header : String × String} (h : ':' ∉ header.1.toList) :
    readHeader? (Utf8.encode (headerText header).toList) = some header := by
  obtain ⟨name, value⟩ := header
  have htext : (headerText (name, value)).toList = name.toList ++ ':' :: ' ' :: value.toList := by
    rw [headerText, String.toList_append, String.toList_append, List.append_assoc]
    rfl
  rw [readHeader?, Utf8.decode?_encode, htext, Option.bind_some, cutHeader?_append h]
  simp

theorem isInfix_headerText_iff {header : String × String} (h : '\r' ∉ header.1.toList) :
    ['\r', '\n'] <:+: (headerText header).toList ↔ ['\r', '\n'] <:+: header.2.toList := by
  rw [headerText, String.toList_append, String.toList_append, isInfix_text_append_iff]
  simpa using h

theorem mapM_readHeader? {headers : List (String × String)}
    (h : ∀ header ∈ headers, ':' ∉ header.1.toList) :
    (headers.map fun header => Utf8.encode (headerText header).toList).mapM readHeader? =
      some headers := by
  induction headers with
  | nil => rfl
  | cons header headers ih =>
    rw [List.forall_mem_cons] at h
    rw [List.map_cons, List.mapM_cons, readHeader?_headerText h.1, ih h.2]
    rfl

/-- What has been joined is found up to the empty line, and nothing behind it. -/
theorem span_joinLines {lines : List Bytes}
    (h : ∀ line ∈ lines, line ≠ [] ∧ ¬ lineEnd <:+: line) :
    (splitLines (joinLines lines ++ lineEnd)).span (fun line => !line.isEmpty) =
      (lines, [[], []]) := by
  have hne : ∀ line ∈ lines, (!line.isEmpty) = true := by
    intro line hline
    rw [Bool.not_eq_true', List.isEmpty_eq_false_iff]
    exact (h line hline).1
  rw [splitLines_joinLines fun line hline => (h line hline).2, List.span_eq_takeWhile_dropWhile,
    List.takeWhile_append_of_pos hne, List.dropWhile_append_of_pos hne]
  exact congrArg (·, [[], []]) (List.append_nil _)

/-- A request line and headers are read line by line. -/
theorem RequestHead.read?_joinLines {start : String} {headers : List (String × String)}
    (hlines : ∀ line ∈ start :: headers.map headerText,
      line.toList ≠ [] ∧ ¬ ['\r', '\n'] <:+: line.toList)
    (hnames : ∀ header ∈ headers, ':' ∉ header.1.toList) :
    read? (joinLines ((start :: headers.map headerText).map fun line => Utf8.encode line.toList) ++
      lineEnd) =
      some { words := (start.toList.splitOn ' ').map String.ofList, headers } := by
  have hwhole : ∀ bytes ∈ (start :: headers.map headerText).map fun line =>
      Utf8.encode line.toList, bytes ≠ [] ∧ ¬ lineEnd <:+: bytes := by
    intro bytes hbytes
    obtain ⟨line, hline, rfl⟩ := List.mem_map.mp hbytes
    rw [isInfix_encode_iff, Ne, Utf8.encode_eq_nil_iff]
    exact hlines line hline
  have hheaders : ((headers.map headerText).map fun line => Utf8.encode line.toList).mapM
      readHeader? = some headers := by
    rw [List.map_map]
    exact mapM_readHeader? hnames
  rw [read?, span_joinLines hwhole, List.map_cons]
  dsimp only
  rw [Utf8.decode?_encode, hheaders]
  rfl

/-! ## Reading a request -/

namespace Request

variable {r : Request}

def headers (r : Request) : List (String × String) :=
  [ ("Host", r.host), ("Upgrade", "websocket"), ("Connection", "Upgrade"),
    ("Sec-WebSocket-Key", r.key), ("Origin", r.origin), ("Sec-WebSocket-Version", "13") ]

theorem lines_eq_headers (r : Request) :
    r.lines = ("GET " ++ r.target ++ " HTTP/1.1") :: r.headers.map headerText := by
  simp [lines, headers, headerText]

theorem notMem_names (r : Request) : ∀ header ∈ r.headers,
    ':' ∉ header.1.toList ∧ '\r' ∉ header.1.toList := by
  have hall : ∀ name ∈ headerNames, ':' ∉ name.toList ∧ '\r' ∉ name.toList := by decide
  intro header hheader
  exact hall _ (List.mem_map_of_mem (f := Prod.fst) hheader)

/-- Nothing in the request is taken for a space of the request line or for a line end. -/
structure Legible (r : Request) : Prop where
  target : PlainText r.target.toList
  headers : ∀ header ∈ r.headers, ¬ ['\r', '\n'] <:+: header.2.toList

namespace Legible

theorem splitOn_start (h : r.Legible) : ("GET " ++ r.target ++ " HTTP/1.1").toList.splitOn ' ' =
    ["GET".toList, r.target.toList, "HTTP/1.1".toList] := by
  have hstart : ("GET " ++ r.target ++ " HTTP/1.1").toList =
      [' '].intercalate ["GET".toList, r.target.toList, "HTTP/1.1".toList] := by
    simp [List.intercalate]
  have hspace : ∀ word ∈ ["GET".toList, r.target.toList, "HTTP/1.1".toList], ' ' ∉ word := by
    intro word hword
    simp only [List.mem_cons, List.not_mem_nil, or_false] at hword
    rcases hword with rfl | rfl | rfl
    · decide
    · exact h.target.space_notMem
    · decide
  rw [hstart]
  exact List.splitOn_intercalate ' ' hspace (List.cons_ne_nil _ _)

theorem not_isInfix (h : r.Legible) {line : String} (hline : line ∈ r.lines) :
    ¬ ['\r', '\n'] <:+: line.toList := by
  rw [lines_eq_headers] at hline
  rcases List.mem_cons.mp hline with rfl | hline
  · have htarget := h.target.return_notMem
    exact fun hend => absurd (hend.subset List.mem_cons_self) (by simp [htarget])
  · obtain ⟨header, hheader, rfl⟩ := List.mem_map.mp hline
    rw [isInfix_headerText_iff (r.notMem_names header hheader).2]
    exact h.headers header hheader

/-- What is read is the target and the headers, and nothing else. -/
theorem read?_toBytes (h : r.Legible) : RequestHead.read? r.toBytes =
    some { words := ["GET", r.target, "HTTP/1.1"], headers := r.headers } := by
  rw [toBytes_eq, lines_eq_headers, RequestHead.read?_joinLines, h.splitOn_start]
  · simp
  · intro line hline
    rw [← lines_eq_headers] at hline
    exact ⟨ne_nil_of_mem_lines hline, h.not_isInfix hline⟩
  · exact fun header hheader => (r.notMem_names header hheader).1

end Legible

/-- The request for a plain URL can be read if key and origin hold no line end. -/
theorem legible_of_ofUrl? {url : Url} (hplain : url.Plain) {origin key : String}
    (h : ofUrl? url origin key = some r) (horigin : ¬ ['\r', '\n'] <:+: origin.toList)
    (hkey : ¬ ['\r', '\n'] <:+: key.toList) : r.Legible := by
  have hnone {cs : List Char} (hcs : '\r' ∉ cs) : ¬ ['\r', '\n'] <:+: cs :=
    fun hend => hcs (hend.subset List.mem_cons_self)
  obtain ⟨host, hhost, rfl⟩ := ofUrl?_eq_some_iff.mp h
  refine ⟨hplain.target, fun header hheader => ?_⟩
  simp only [headers, List.mem_cons, List.not_mem_nil, or_false] at hheader
  rcases hheader with rfl | rfl | rfl | rfl | rfl | rfl
  · exact hnone (plain_hostport (hplain.host host hhost) url.port?).return_notMem
  · exact hnone (by decide)
  · exact hnone (by decide)
  · exact hkey
  · exact horigin
  · exact hnone (by decide)

end Request

end EchoLoad.Handshake
