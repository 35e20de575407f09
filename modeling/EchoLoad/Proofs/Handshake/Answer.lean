import EchoLoad.Proofs.Handshake.Headers

/-!
# Which answers agree to the upgrade

An answer is judged by its status line and its head, the lines from there to the first empty one
(`HasHead`). `Judged` lists the verdicts in the order in which they are considered, each with the
conditions that have been met before, and `readAccept` gives this verdict (`readAccept_eq_iff`).

Of the head only what it says of three names is looked at (`acceptOf_congr`). So neither the ends of
the lines matter nor what comes behind the first empty line, and the head may be varied
(`readAccept_of_varied`).
-/

namespace EchoLoad.Handshake

/-- The lines before the first empty one. -/
inductive Before : List (List Char) → List (List Char) → Prop where
  | all {head : List (List Char)} (h : [] ∉ head) : Before head head
  | cut {head : List (List Char)} (h : [] ∉ head) (rest : List (List Char)) :
      Before (head ++ [] :: rest) head

/-- An answer with its status line and its head. -/
inductive HasHead : Bytes → List Char → List (List Char) → Prop where
  | mk {text line : List Char} {lines head : List (List Char)}
      (hlines : Text.Lined text (line :: lines)) (hhead : Before lines head) :
      HasHead (Utf8.encode text) line head

/-- The status is the second word of the line. -/
def HasStatus (line status : List Char) : Prop :=
  ∃ version reason, Text.Worded line (version :: status :: reason)

/-- The names that are looked up. -/
def consulted : List String := ["upgrade", "connection", "sec-websocket-accept"]

section

variable (low : List Char → List Char) (head : List (List Char))

/-- The head names the protocol to which the connection is upgraded. -/
def Upgrades : Prop :=
  ∃ value, Says low "upgrade" head (some value) ∧
    value.map Char.toLower = "websocket".toList

/-- The head says that the connection is upgraded. -/
def Connects : Prop :=
  ∃ value, Says low "connection" head (some value) ∧ "upgrade".toList <:+: low value

/-- The verdict on a head. -/
inductive Agrees : Except Refusal String → Prop where
  | missingUpgrade (h : Says low "upgrade" head none) : Agrees (.error .missingUpgrade)
  | wrongUpgrade {value : List Char} (h : Says low "upgrade" head (some value))
      (hvalue : value.map Char.toLower ≠ "websocket".toList) :
      Agrees (.error (.wrongUpgrade (String.ofList value)))
  | missingConnection (hupgrade : Upgrades low head) (h : Says low "connection" head none) :
      Agrees (.error .missingConnection)
  | wrongConnection {value : List Char} (hupgrade : Upgrades low head)
      (h : Says low "connection" head (some value)) (hvalue : ¬ "upgrade".toList <:+: low value) :
      Agrees (.error (.wrongConnection (String.ofList value)))
  | missingAccept (hupgrade : Upgrades low head) (hconnection : Connects low head)
      (h : Says low "sec-websocket-accept" head none) : Agrees (.error .missingAccept)
  | accepted {accept : List Char} (hupgrade : Upgrades low head) (hconnection : Connects low head)
      (h : Says low "sec-websocket-accept" head (some accept)) : Agrees (.ok (String.ofList accept))

/-- The verdict on an answer. -/
inductive Judged (data : Bytes) : Except Refusal String → Prop where
  | notUtf8 (h : ∀ text, data ≠ Utf8.encode text) : Judged data (.error .notUtf8)
  | empty (h : data = []) : Judged data (.error .empty)
  | status {line : List Char} {head : List (List Char)} (h : HasHead data line head)
      (hstatus : ¬ HasStatus line "101".toList) :
      Judged data (.error (.status (String.ofList line)))
  | agreed {line : List Char} {head : List (List Char)} {verdict : Except Refusal String}
      (h : HasHead data line head) (hstatus : HasStatus line "101".toList)
      (hhead : Agrees low head verdict) : Judged data verdict

end

/-! ## The parts of an answer -/

theorem headers_of_before {lines head : List (List Char)} (h : Before lines head) :
    headers lines = head.filterMap header? := by
  have hall : ∀ {head : List (List Char)}, [] ∉ head → ∀ line ∈ head, (!line.isEmpty) = true := by
    intro head hhead line hline
    cases line with
    | nil => exact absurd hline hhead
    | cons c line => rfl
  cases h with
  | all h => rw [headers, List.takeWhile_eq_self_iff.mpr (hall h)]
  | cut h rest =>
    rw [headers, List.takeWhile_append_of_pos (hall h), List.takeWhile_cons_of_neg (by simp),
      List.append_nil]

theorem exists_before (lines : List (List Char)) : ∃ head, Before lines head := by
  have hcons : ∀ {line : List Char} {head : List (List Char)}, line ≠ [] → [] ∉ head →
      [] ∉ line :: head := by
    intro line head hline hhead
    rw [List.mem_cons, not_or]
    exact ⟨hline.symm, hhead⟩
  induction lines with
  | nil => exact ⟨[], .all List.not_mem_nil⟩
  | cons line lines ih =>
    by_cases hline : line = []
    · rw [hline]
      exact ⟨[], .cut List.not_mem_nil lines⟩
    · obtain ⟨head, hhead⟩ := ih
      refine ⟨line :: head, ?_⟩
      cases hhead with
      | all h => exact .all (hcons hline h)
      | cut h rest => exact .cut (hcons hline h) rest

theorem statusOf_eq_iff {line status : List Char} (hne : status ≠ []) :
    statusOf line = status ↔ HasStatus line status := by
  constructor
  · intro h
    unfold statusOf at h
    generalize hwords : Text.words line = ws at h
    match ws with
    | [] | [_] => exact absurd h.symm hne
    | version :: second :: reason =>
      obtain rfl : second = status := h
      exact ⟨version, reason, Text.words_eq_iff.mp hwords⟩
  · rintro ⟨version, reason, hworded⟩
    rw [statusOf, Text.words_eq_iff.mpr hworded]
    rfl

theorem readAccept_of_hasHead {data : Bytes} {line : List Char} {head : List (List Char)}
    (h : HasHead data line head) :
    readAccept data =
      if statusOf line = "101".toList then acceptOf (head.filterMap header?)
      else .error (.status (String.ofList line)) := by
  cases h with
  | mk hlines hhead =>
    rw [readAccept, Utf8.decode?_encode]
    simp only [Text.lines_eq_iff.mpr hlines, headers_of_before hhead]

/-! ## The verdict on a head -/

theorem ascii_of_mem_consulted {name : String} (h : name ∈ consulted) :
    Text.Ascii name.toList := by
  simp only [consulted, List.mem_cons, List.not_mem_nil, or_false] at h
  rcases h with rfl | rfl | rfl
  all_goals simp [Text.Ascii]

/-- Heads that say the same of the names that are looked up get the same verdict. -/
theorem acceptOf_congr {hs hs' : List Header}
    (h : ∀ name ∈ consulted, lookup? name hs' = lookup? name hs) : acceptOf hs' = acceptOf hs := by
  simp only [acceptOf, h "upgrade" (by simp [consulted]), h "connection" (by simp [consulted]),
    h "sec-websocket-accept" (by simp [consulted])]

theorem eqIgnoreCase_websocket_iff {value : List Char} :
    Text.eqIgnoreCase value "websocket".toList = true ↔
      value.map Char.toLower = "websocket".toList := by
  have hlower : "websocket".toList.map Char.toLower = "websocket".toList := by decide +kernel
  rw [Text.eqIgnoreCase, hlower, beq_iff_eq]

section

variable {low : List Char → List Char} {head : List (List Char)} {verdict : Except Refusal String}

theorem contains_upgrade_iff (hlow : ∀ cs, Text.LowersTo cs (low cs)) {value : List Char} :
    Text.contains "upgrade".toList (Text.lower value) = true ↔ "upgrade".toList <:+: low value := by
  have hascii : Text.Ascii "upgrade".toList := ascii_of_mem_consulted (by simp [consulted])
  rw [Text.contains_iff, (hlow value).alike.infix_iff _ hascii]

theorem exists_agrees (low : List Char → List Char) (head : List (List Char)) :
    ∃ verdict, Agrees low head verdict := by
  obtain ⟨said, hsaid⟩ := exists_says low "upgrade" head
  cases said with
  | none => exact ⟨_, .missingUpgrade hsaid⟩
  | some upgrade =>
  by_cases hwebsocket : upgrade.map Char.toLower = "websocket".toList
  case neg => exact ⟨_, .wrongUpgrade hsaid hwebsocket⟩
  have hupgrade : Upgrades low head := ⟨upgrade, hsaid, hwebsocket⟩
  obtain ⟨said, hsaid⟩ := exists_says low "connection" head
  cases said with
  | none => exact ⟨_, .missingConnection hupgrade hsaid⟩
  | some connection =>
  by_cases hcontains : "upgrade".toList <:+: low connection
  case neg => exact ⟨_, .wrongConnection hupgrade hsaid hcontains⟩
  have hconnection : Connects low head := ⟨connection, hsaid, hcontains⟩
  obtain ⟨said, hsaid⟩ := exists_says low "sec-websocket-accept" head
  cases said with
  | none => exact ⟨_, .missingAccept hupgrade hconnection hsaid⟩
  | some accept => exact ⟨_, .accepted hupgrade hconnection hsaid⟩

theorem lookup?_consulted (hlow : ∀ cs, Text.LowersTo cs (low cs)) {name : String}
    {said : Option (List Char)} (h : Says low name head said) (hmem : name ∈ consulted) :
    lookup? name (head.filterMap header?) = said :=
  lookup?_of_says hlow (ascii_of_mem_consulted hmem) h

theorem Upgrades.exists_lookup? (hlow : ∀ cs, Text.LowersTo cs (low cs)) (h : Upgrades low head) :
    ∃ value, lookup? "upgrade" (head.filterMap header?) = some value ∧
      Text.eqIgnoreCase value "websocket".toList = true := by
  obtain ⟨value, hsaid, hvalue⟩ := h
  exact ⟨value, lookup?_consulted hlow hsaid (by simp [consulted]),
    eqIgnoreCase_websocket_iff.mpr hvalue⟩

theorem Connects.exists_lookup? (hlow : ∀ cs, Text.LowersTo cs (low cs)) (h : Connects low head) :
    ∃ value, lookup? "connection" (head.filterMap header?) = some value ∧
      Text.contains "upgrade".toList (Text.lower value) = true := by
  obtain ⟨value, hsaid, hvalue⟩ := h
  exact ⟨value, lookup?_consulted hlow hsaid (by simp [consulted]),
    (contains_upgrade_iff hlow).mpr hvalue⟩

theorem acceptOf_of_agrees (hlow : ∀ cs, Text.LowersTo cs (low cs)) (h : Agrees low head verdict) :
    acceptOf (head.filterMap header?) = verdict := by
  cases h with
  | missingUpgrade h =>
    have hsaid := lookup?_consulted hlow h (by simp [consulted])
    simp only [acceptOf, hsaid]
  | wrongUpgrade h hvalue =>
    have hsaid := lookup?_consulted hlow h (by simp [consulted])
    have hwrong := Bool.eq_false_iff.mpr (mt eqIgnoreCase_websocket_iff.mp hvalue)
    simp only [acceptOf, hsaid, hwrong, Bool.not_false, if_true]
  | missingConnection hupgrade h =>
    obtain ⟨upgrade, hupgrade, hwebsocket⟩ := hupgrade.exists_lookup? hlow
    have hsaid := lookup?_consulted hlow h (by simp [consulted])
    simp only [acceptOf, hupgrade, hwebsocket, hsaid, Bool.not_true, Bool.false_eq_true, if_false]
  | wrongConnection hupgrade h hvalue =>
    obtain ⟨upgrade, hupgrade, hwebsocket⟩ := hupgrade.exists_lookup? hlow
    have hsaid := lookup?_consulted hlow h (by simp [consulted])
    have hwrong := Bool.eq_false_iff.mpr (mt (contains_upgrade_iff hlow).mp hvalue)
    simp only [acceptOf, hupgrade, hwebsocket, hsaid, hwrong, Bool.not_true, Bool.not_false,
      Bool.false_eq_true, if_false, if_true]
  | missingAccept hupgrade hconnection h =>
    obtain ⟨upgrade, hupgrade, hwebsocket⟩ := hupgrade.exists_lookup? hlow
    obtain ⟨connection, hconnection, hcontains⟩ := hconnection.exists_lookup? hlow
    have hsaid := lookup?_consulted hlow h (by simp [consulted])
    simp only [acceptOf, hupgrade, hwebsocket, hconnection, hcontains, hsaid, Bool.not_true,
      Bool.false_eq_true, if_false]
  | accepted hupgrade hconnection h =>
    obtain ⟨upgrade, hupgrade, hwebsocket⟩ := hupgrade.exists_lookup? hlow
    obtain ⟨connection, hconnection, hcontains⟩ := hconnection.exists_lookup? hlow
    have hsaid := lookup?_consulted hlow h (by simp [consulted])
    simp only [acceptOf, hupgrade, hwebsocket, hconnection, hcontains, hsaid, Bool.not_true,
      Bool.false_eq_true, if_false]

/-! ## The verdict on an answer -/

theorem exists_judged (low : List Char → List Char) (data : Bytes) :
    ∃ verdict, Judged low data verdict := by
  by_cases htext : ∃ text, data = Utf8.encode text
  case neg => exact ⟨_, .notUtf8 fun text heq => htext ⟨text, heq⟩⟩
  obtain ⟨text, rfl⟩ := htext
  have hlined := Text.lined_lines text
  generalize Text.lines text = lines at hlined
  cases lines with
  | nil =>
    rw [hlined.eq_nil]
    exact ⟨_, .empty rfl⟩
  | cons line lines =>
    obtain ⟨head, hhead⟩ := exists_before lines
    have hanswer := HasHead.mk hlined hhead
    by_cases hstatus : HasStatus line "101".toList
    · obtain ⟨verdict, hverdict⟩ := exists_agrees low head
      exact ⟨verdict, .agreed hanswer hstatus hverdict⟩
    · exact ⟨_, .status hanswer hstatus⟩

theorem readAccept_of_judged (hlow : ∀ cs, Text.LowersTo cs (low cs)) {data : Bytes}
    (h : Judged low data verdict) : readAccept data = verdict := by
  have hne : "101".toList ≠ [] := by simp
  cases h with
  | notUtf8 h =>
    have hnone : Utf8.decode? data = none := by
      cases hdecode : Utf8.decode? data with
      | none => rfl
      | some text => exact absurd (Utf8.decode?_eq_some_iff.mp hdecode) (h text)
    rw [readAccept, hnone]
  | empty h =>
    have hdecode : Utf8.decode? [] = some [] := Utf8.decode?_encode []
    rw [h, readAccept, hdecode]
    rfl
  | status h hstatus =>
    rw [readAccept_of_hasHead h, if_neg (mt (statusOf_eq_iff hne).mp hstatus)]
  | agreed h hstatus hhead =>
    rw [readAccept_of_hasHead h, if_pos ((statusOf_eq_iff hne).mpr hstatus),
      acceptOf_of_agrees hlow hhead]

theorem readAccept_eq_iff (hlow : ∀ cs, Text.LowersTo cs (low cs)) {data : Bytes} :
    readAccept data = verdict ↔ Judged low data verdict := by
  constructor
  · intro h
    obtain ⟨verdict', hverdict⟩ := exists_judged low data
    rwa [← h, readAccept_of_judged hlow hverdict]
  · exact readAccept_of_judged hlow

theorem readAccept_of_varied (hlow : ∀ cs, Text.LowersTo cs (low cs)) {data data' : Bytes}
    {line : List Char} {head' : List (List Char)} (h : HasHead data line head)
    (h' : HasHead data' line head') (hvaried : Varied low consulted head head') :
    readAccept data' = readAccept data := by
  have hsame : acceptOf (head'.filterMap header?) = acceptOf (head.filterMap header?) := by
    apply acceptOf_congr
    intro name hname
    exact lookup?_of_varied hlow (ascii_of_mem_consulted hname) hvaried hname
  rw [readAccept_of_hasHead h, readAccept_of_hasHead h', hsame]

end

/-- An answer gets the verdict of the first condition that it does not meet, or it agrees to the
upgrade and names the accept key. The verdict is the same for all answers with this status line whose
heads are varied, however their lines end and whatever comes behind the first empty one. -/
theorem readAccept_by_last_headers (low : List Char → List Char)
    (hlow : ∀ cs, Text.LowersTo cs (low cs)) :
    (∀ data verdict, readAccept data = verdict ↔ Judged low data verdict) ∧
      ∀ data data' line head head', HasHead data line head → HasHead data' line head' →
        Varied low consulted head head' → readAccept data' = readAccept data := by
  constructor
  · intro data verdict
    exact readAccept_eq_iff hlow
  · intro data data' line head head' h h' hvaried
    exact readAccept_of_varied hlow h h' hvaried

def sampleStatus : List Char := "HTTP/1.1\t101 OK".toList

/-- The first `upgrade` is overruled, one line has no colon, and in one name there is a Kelvin sign. -/
def repeatedHead : List (List Char) :=
  [ "Upgrade: h2c".toList, "CONNECTION : keep-alive, UPGRADE".toList, "no colon here".toList,
    "upgrade:WebSocket".toList, "Sec-WebSoc\u212aet-Accept: a:b".toList ]

/-- The same headers in another order, one of them under another spelling, and one more. -/
def variedHead : List (List Char) :=
  [ "Host: x".toList, "Upgrade: h2c".toList, "Connection: keep-alive, UPGRADE".toList,
    "no colon here".toList, "Sec-WebSoc\u212aet-Accept: a:b".toList, "upgrade:WebSocket".toList ]

/-- The lines end in two ways, and behind the empty one there is a line that is not read. -/
def repeatedText : List Char :=
  "HTTP/1.1\t101 OK\nUpgrade: h2c\r\nCONNECTION : keep-alive, UPGRADE\nno colon here\r\n".toList ++
    "upgrade:WebSocket\nSec-WebSoc\u212aet-Accept: a:b\r\n\nUpgrade: late".toList

def variedText : List Char := (sampleStatus :: variedHead).flatMap (· ++ ['\r', '\n'])

theorem hasHead_repeatedText : HasHead (Utf8.encode repeatedText) sampleStatus repeatedHead := by
  have hlines : Text.lines repeatedText =
      sampleStatus :: (repeatedHead ++ [] :: ["Upgrade: late".toList]) := by decide +kernel
  exact .mk (Text.lines_eq_iff.mp hlines) (.cut (by decide +kernel) _)

theorem hasHead_variedText : HasHead (Utf8.encode variedText) sampleStatus variedHead := by
  have hlines : Text.lines variedText = sampleStatus :: variedHead := by
    apply Text.lines_flatMap
    decide +kernel
  exact .mk (Text.lines_eq_iff.mp hlines) (.all (by decide +kernel))

theorem varied_repeatedHead : Varied Text.lower consulted repeatedHead variedHead := by
  have hupgrade : Field "upgrade:WebSocket".toList "upgrade".toList "WebSocket".toList :=
    field_iff.mpr ⟨"upgrade".toList, "WebSocket".toList, by decide +kernel⟩
  have haccept : Field "Sec-WebSoc\u212aet-Accept: a:b".toList "Sec-WebSoc\u212aet-Accept".toList
      "a:b".toList :=
    field_iff.mpr ⟨"Sec-WebSoc\u212aet-Accept".toList, " a:b".toList, by decide +kernel⟩
  have hhost : Field "Host: x".toList "Host".toList "x".toList :=
    field_iff.mpr ⟨"Host".toList, " x".toList, by decide +kernel⟩
  have hconnection : Field "CONNECTION : keep-alive, UPGRADE".toList "CONNECTION".toList
      "keep-alive, UPGRADE".toList :=
    field_iff.mpr ⟨"CONNECTION ".toList, " keep-alive, UPGRADE".toList, by decide +kernel⟩
  have hconnection' : Field "Connection: keep-alive, UPGRADE".toList "Connection".toList
      "keep-alive, UPGRADE".toList :=
    field_iff.mpr ⟨"Connection".toList, " keep-alive, UPGRADE".toList, by decide +kernel⟩
  have hrespelled : Varied Text.lower consulted repeatedHead
      (["Upgrade: h2c".toList, "Connection: keep-alive, UPGRADE".toList, "no colon here".toList] ++
        ["upgrade:WebSocket".toList, "Sec-WebSoc\u212aet-Accept: a:b".toList] ++ []) :=
    .respell ["Upgrade: h2c".toList] _ ⟨_, _, _, hconnection, hconnection', by decide +kernel⟩
  refine hrespelled.trans (.trans (.reorder _ [] (.swap _ _ []) ?_) (.add [] _ ?_))
  · have happart : Apart Text.lower _ _ := hupgrade.apart haccept (by decide +kernel)
    simpa using happart
  · have hother : ∀ name ∈ consulted, Text.lower "Host".toList ≠ name.toList := by decide +kernel
    intro name hname
    exact hhost.not_names (hother name hname)

/-- The last `upgrade` counts, and the answer names the accept key `a:b`, whatever the variation. -/
theorem readAccept_repeated_headers :
    Judged Text.lower (Utf8.encode repeatedText) (.ok "a:b") ∧
      readAccept (Utf8.encode variedText) = readAccept (Utf8.encode repeatedText) := by
  obtain ⟨hjudged, hvaried⟩ := readAccept_by_last_headers Text.lower Text.lowersTo_lower
  constructor
  · rw [← hjudged, readAccept_of_hasHead hasHead_repeatedText]
    decide +kernel
  · exact hvaried _ _ _ _ _ hasHead_repeatedText hasHead_variedText varied_repeatedHead

end EchoLoad.Handshake
