import HpcWorkspace.Invitation

/-!
# Reading an invitation

What curl takes from the callback is the mail, whatever the sizes of the pieces. A reader of the mail
that knows nothing of the generators finds the header, two parts, the calendar in the second one, and
in it one event: the end of the workspace. For this, nothing that is put into a line may end it: the
names of accounts, of filesystems and of the cluster, and the sender.
-/

namespace HpcWorkspace

/-! ## The pieces -/

/-- **The callback delivers the mail**: with room in each call and calls enough, curl gets what has
not been taken yet, to the end. -/
theorem curlReads_eq (rooms : List ℕ) (hrooms : ∀ room ∈ rooms, 0 < room) (d : EmailData)
    (hlength : d.content.length - d.index < rooms.length) :
    curlReads rooms d = (d.content.drop d.index, true) := by
  induction rooms generalizing d with
  | nil => exact absurd hlength (Nat.not_lt_zero _)
  | cons room rooms ih =>
    have hroom := hrooms room (List.mem_cons_self ..)
    rw [List.length_cons] at hlength
    rw [curlReads, readEmailCallback]
    by_cases hend : d.content.length - d.index = 0
    · rw [if_pos hend, List.drop_eq_nil_of_le (by omega)]
      rfl
    · rw [if_neg hend]
      dsimp only
      have hpiece : (d.content.drop d.index).take (min (d.content.length - d.index) room) ≠ [] := by
        intro hnil
        have hzero := congrArg List.length hnil
        rw [List.length_take, List.length_drop, List.length_nil] at hzero
        omega
      rw [if_neg hpiece, ih (fun r hr => hrooms r (List.mem_cons_of_mem _ hr)) _
        (by dsimp only; omega)]
      dsimp only
      rw [← List.drop_drop, List.take_append_drop]

/-! ## The reader -/

/-- The text of some bytes, when they are UTF-8. -/
def utf8Text (bytes : List UInt8) : Option Str :=
  bytes.toByteArray.utf8Decode?.map Array.toList

theorem utf8Text_utf8Bytes (text : Str) : utf8Text (utf8Bytes text) = some text := by
  rw [utf8Text, utf8Bytes]
  exact congrArg (Option.map Array.toList) List.utf8Decode?_utf8Encode

/-- What comes after a key. -/
def valueOf (key line : Str) : Option Str :=
  if key.isPrefixOf line then some (line.drop key.length) else none

theorem valueOf_append (key value : Str) : valueOf key (key ++ value) = some value := by
  rw [valueOf, if_pos (List.isPrefixOf_iff_prefix.mpr (List.prefix_append key value)),
    List.drop_left]

/-- What a line is in a mail with a boundary. -/
def mimeKind (boundary line : Str) : Multipart.Kind :=
  if ("--".toList ++ boundary ++ "--".toList).isPrefixOf line then .closing
  else if ("--".toList ++ boundary).isPrefixOf line then .delimiter
  else .text

/-- A part of a mail. -/
structure MimePart where
  /-- the lines of its header -/
  header : List Str
  /-- the lines of its body -/
  body : List Str

/-- A part of some lines. -/
def readPart (lines : List Str) : MimePart :=
  ⟨Multipart.header List.isEmpty lines, Multipart.body List.isEmpty lines⟩

/-- A mail of several parts. -/
structure MimeMail where
  /-- the lines of the header -/
  header : List Str
  /-- the parts -/
  parts : List MimePart

/-- A mail; the header says what the boundary is. -/
def readMime (mail : Str) : Option MimeMail := do
  let whole := readPart (readLines mail)
  let boundary ← whole.header.findSome? (valueOf "Content-Type: multipart/mixed; boundary=".toList)
  let parts ← Multipart.read (mimeKind boundary) whole.body
  return ⟨whole.header, parts.map readPart⟩

/-- The content of a part with a base64 body. -/
def MimePart.decoded (p : MimePart) : Option (List UInt8) :=
  if p.header.contains "Content-Transfer-Encoding: base64".toList then Base64.decode p.body.flatten
  else none

/-- The calendar of a mail. -/
def MimeMail.calendar (m : MimeMail) : Option Str :=
  m.parts.findSome? fun p =>
    if p.header.any ("Content-Type: text/calendar".toList).isPrefixOf then p.decoded.bind utf8Text
    else none

/-- What a line is in a calendar. -/
def calendarMark (line : Str) : Blocks.Mark Str Str :=
  match valueOf "BEGIN:".toList line with
  | some name => .opening name
  | none =>
    match valueOf "END:".toList line with
    | some name => .closing name
    | none => .leaf line

/-- A calendar. -/
def readCalendar (ics : Str) : Option (Blocks.Text Str Str) :=
  Blocks.read (((readLines ics).filter fun line => !line.isEmpty).map calendarMark)

/-- An event of a calendar. -/
structure Event where
  /-- `DESCRIPTION` -/
  description : Str
  /-- `LOCATION` -/
  location : Str
  /-- `SUMMARY` -/
  summary : Str
  /-- `DTSTART` -/
  dtstart : Str
  /-- `DTEND` -/
  dtend : Str

/-- The event of a block. -/
def readEvent (event : Blocks.Text Str Str) : Option Event := do
  let description ← event.leaves.findSome? (valueOf "DESCRIPTION:".toList)
  let location ← event.leaves.findSome? (valueOf "LOCATION:".toList)
  let summary ← event.leaves.findSome? (valueOf "SUMMARY:".toList)
  let dtstart ← event.leaves.findSome? (valueOf "DTSTART;TZID=Europe/Berlin:".toList)
  let dtend ← event.leaves.findSome? (valueOf "DTEND;TZID=Europe/Berlin:".toList)
  return ⟨description, location, summary, dtstart, dtend⟩

/-- An invitation. -/
structure Invitation where
  /-- whom it is for -/
  recipient : Str
  /-- the event -/
  event : Event

/-- An invitation of some bytes; there is one event in it. -/
def readInvitation (bytes : List UInt8) : Option Invitation := do
  let mail ← utf8Text bytes
  let m ← readMime mail
  let recipient ← m.header.findSome? (valueOf "To: ".toList)
  let calendar ← m.calendar.bind readCalendar
  match calendar.blocks "VEVENT".toList with
  | [block] => return ⟨recipient, ← readEvent block⟩
  | _ => none

/-! ## Lines -/

theorem readLines_writeLines {lines : List Str} (hlines : ∀ line ∈ lines, InLine line) (rest : Str) :
    readLines (writeLines lines ++ rest) = lines ++ readLines rest := by
  induction lines with
  | nil => rfl
  | cons line lines ih =>
    have hwrite : writeLines (line :: lines) ++ rest = line ++ CRLF ++ (writeLines lines ++ rest) := by
      rw [writeLines, List.flatMap_cons, List.append_assoc]
      rfl
    rw [hwrite, readLines_line (hlines line (List.mem_cons_self ..)),
      ih fun l hl => hlines l (List.mem_cons_of_mem _ hl)]
    rfl

theorem writeLines_append (lines lines' : List Str) :
    writeLines (lines ++ lines') = writeLines lines ++ writeLines lines' :=
  List.flatMap_append

/-- The lines of the attachment are pieces of the text. -/
theorem exists_base64Lines (encodedICS : Str) (i : ℕ) : ∃ lines : List Str,
    base64Lines encodedICS i = writeLines lines ∧ lines.flatten = encodedICS.drop i ∧
      ∀ line ∈ lines, line ⊆ encodedICS := by
  induction i using base64Lines.induct encodedICS with
  | case1 i h ih =>
    obtain ⟨lines, hwrite, hflatten, hsub⟩ := ih
    refine ⟨(encodedICS.drop i).take 76 :: lines, ?_, ?_, ?_⟩
    · rw [base64Lines, if_pos h, hwrite]
      rfl
    · rw [List.flatten_cons, hflatten, ← List.drop_drop, List.take_append_drop]
    · rw [List.forall_mem_cons]
      exact ⟨fun c hc => List.mem_of_mem_drop (List.mem_of_mem_take hc), hsub⟩
  | case2 i h =>
    refine ⟨[], ?_, ?_, fun _ hline => absurd hline List.not_mem_nil⟩
    · rw [base64Lines, if_neg h]
      rfl
    · rw [List.flatten_nil, List.drop_eq_nil_of_le (by omega)]

/-- Neither a line end nor a `-` is a digit. -/
theorem base64_char {input : List UInt8} {c : Char} (hc : c ∈ base64Encode input) :
    isInLine c = true ∧ c ≠ '-' := by
  rw [base64Encode_eq] at hc
  have hall : Base64.alphabet.all (fun c => isInLine c && c != '-') = true := by decide
  rcases Base64.mem_encode hc with hmem | rfl
  · have hchar := List.all_eq_true.mp hall c hmem
    rw [Bool.and_eq_true, bne_iff_ne] at hchar
    exact hchar
  · decide

/-- A line that does not begin with `-` belongs to a part. -/
theorem mimeKind_text {line : Str} (h : line.head? ≠ some '-') : mimeKind boundary line = .text := by
  cases line with
  | nil => rfl
  | cons c line =>
    have hc : ('-' == c) = false := by
      rw [beq_eq_false_iff_ne]
      rintro rfl
      exact h rfl
    have hno : ∀ rest : Str, List.isPrefixOf ('-' :: rest) (c :: line) = false := by
      intro rest
      rw [List.isPrefixOf, hc, Bool.false_and]
    have hclosing : "--".toList ++ boundary ++ "--".toList =
        '-' :: ('-' :: boundary ++ "--".toList) := rfl
    have hdelimiter : "--".toList ++ boundary = '-' :: '-' :: boundary := rfl
    rw [mimeKind, hclosing, hdelimiter, hno, hno]
    rfl

/-! ## The calendar -/

section Calendar

variable (env : IcalEnv) (fs id : Str) (e : DBEntry) (clustername : Str)

/-- Leaves, and what comes after them. -/
def leavesThen (lines : List Str) (rest : Blocks.Text Str Str) : Blocks.Text Str Str :=
  lines.foldr .leaf rest

/-- The event of `generateICS`. -/
def icsEvent : Blocks.Text Str Str :=
  leavesThen
    ["CREATED:".toList ++ generateICSDateFormat env env.now,
      "DTSTAMP:".toList ++ generateICSDateFormat env env.now,
      "UID:587a1aa6-".toList ++ Nat.toDigits 10 (env.hashOf id),
      "DESCRIPTION:Workspace ".toList ++ id ++ " will be deleted on host ".toList ++ clustername,
      "LOCATION:".toList ++ clustername ++ ':' :: fs,
      "SUMMARY:Workspace ".toList ++ id ++ " expires".toList,
      "DTSTART;TZID=Europe/Berlin:".toList ++ generateICSDateFormat env (e.expiration - 7200),
      "DTEND;TZID=Europe/Berlin:".toList ++ generateICSDateFormat env e.expiration,
      "LAST_MODIFIED:".toList ++ generateICSDateFormat env env.now,
      "CLASS:PRIVATE".toList] .nil

/-- The time zone of `generateICS`. -/
def icsTimezone : Blocks.Text Str Str :=
  leavesThen ["TZID:Europe/Berlin".toList] <|
    .block "DAYLIGHT".toList
      (leavesThen
        ["TZOFFSETFROM:+0100".toList, "TZOFFSETTO:+0200".toList, "TZNAME:CEST".toList,
          "DTSTART:19700329T020000".toList, "RRULE:FREQ=YEARLY;BYDAY=-1SU;BYMONTH=3".toList] .nil) <|
    .block "STANDARD".toList
      (leavesThen
        ["TZOFFSETFROM:+0200".toList, "TZOFFSETTO:+0100".toList, "TZNAME:CET".toList,
          "DTSTART:19701025T030000".toList, "RRULE:FREQ=YEARLY;BYDAY=-1SU;BYMONTH=10".toList] .nil)
      .nil

/-- The calendar of `generateICS`. -/
def icsCalendar : Blocks.Text Str Str :=
  .block "VCALENDAR".toList
    (leavesThen
      ["VERSION:2.0".toList, "PRODID:-//HLRS Cluster Team//Workspace V2.1//EN".toList,
        "METHOD:REQUEST".toList] <|
      .block "VTIMEZONE".toList icsTimezone <|
      .block "VEVENT".toList (icsEvent env fs id e clustername) .nil)
    .nil

/-- The lines of `generateICS` are the calendar. -/
theorem map_calendarMark_icsLines :
    (icsLines env fs id e clustername).map calendarMark =
      (icsCalendar env fs id e clustername).write := rfl

theorem icsLines_ne_nil : ∀ line ∈ icsLines env fs id e clustername, line.isEmpty = false := by
  simp only [icsLines, List.forall_mem_cons]
  refine ⟨rfl, rfl, rfl, rfl, rfl, rfl, rfl, rfl, rfl, rfl, rfl, rfl, rfl, rfl, rfl, rfl, rfl, rfl,
    rfl, rfl, rfl, rfl, rfl, rfl, rfl, rfl, rfl, rfl, rfl, rfl, rfl, rfl, rfl, rfl, ?_⟩
  exact fun _ hline => absurd hline List.not_mem_nil

variable {env fs id e clustername}

/-- The clock and the end of the workspace have dates. -/
def Dated (env : IcalEnv) (e : DBEntry) : Prop :=
  ∀ time ∈ [env.now, e.expiration, e.expiration - 7200], (env.icsTime time).isSome = true

theorem Dated.inLine (h : Dated env e) {time : ℤ}
    (htime : time ∈ [env.now, e.expiration, e.expiration - 7200]) :
    InLine (generateICSDateFormat env time) := by
  obtain ⟨date, hdate⟩ := Option.isSome_iff_exists.mp (h time htime)
  rw [generateICSDateFormat, hdate]
  exact env.icsTime_inLine time date hdate

theorem icsLines_inLine (hdated : Dated env e) (hfs : InLine fs) (hid : InLine id)
    (hcluster : InLine clustername) : ∀ line ∈ icsLines env fs id e clustername, InLine line := by
  have hcreate := hdated.inLine (by simp : env.now ∈ _)
  have hend := hdated.inLine (by simp : e.expiration ∈ _)
  have hstart := hdated.inLine (by simp : e.expiration - 7200 ∈ _)
  have hfixed : ∀ line : Str, line.all isInLine = true → InLine line :=
    fun _ hline => List.all_eq_true.mp hline
  have hheaded : ∀ head text : Str, head.all isInLine = true → InLine text → InLine (head ++ text) :=
    fun head _ hhead htext => .append (hfixed head hhead) htext
  simp only [icsLines, List.forall_mem_cons]
  refine ⟨hfixed _ rfl, hfixed _ rfl, hfixed _ rfl, hfixed _ rfl, hfixed _ rfl, hfixed _ rfl,
    hfixed _ rfl, hfixed _ rfl, hfixed _ rfl, hfixed _ rfl, hfixed _ rfl, hfixed _ rfl,
    hfixed _ rfl, hfixed _ rfl, hfixed _ rfl, hfixed _ rfl, hfixed _ rfl, hfixed _ rfl,
    hfixed _ rfl, hfixed _ rfl, hfixed _ rfl, hfixed _ rfl, hheaded _ _ rfl hcreate,
    hheaded _ _ rfl hcreate, hheaded _ _ rfl (inLine_fmtNat _), ?_, ?_, ?_,
    hheaded _ _ rfl hstart, hheaded _ _ rfl hend, hheaded _ _ rfl hcreate, hfixed _ rfl,
    hfixed _ rfl, hfixed _ rfl, ?_⟩
  · exact ((hheaded _ _ rfl hid).append (hfixed _ rfl)).append hcluster
  · exact (hheaded _ _ rfl hcluster).append (hheaded [':'] _ rfl hfs)
  · exact (hheaded _ _ rfl hid).append (hfixed _ rfl)
  · exact fun _ hline => absurd hline List.not_mem_nil

/-- **The calendar is read back.** -/
theorem readCalendar_generateICS (hdated : Dated env e) (hfs : InLine fs) (hid : InLine id)
    (hcluster : InLine clustername) :
    readCalendar (generateICS env fs id e clustername) =
      some (icsCalendar env fs id e clustername) := by
  have hlines : readLines (generateICS env fs id e clustername) =
      icsLines env fs id e clustername ++ [[]] := by
    have h := readLines_writeLines (icsLines_inLine hdated hfs hid hcluster) []
    rwa [List.append_nil] at h
  have hfilter : (icsLines env fs id e clustername ++ [[]]).filter (fun line => !line.isEmpty) =
      icsLines env fs id e clustername := by
    rw [List.filter_append, List.filter_eq_self.mpr fun line hline => by
      rw [icsLines_ne_nil env fs id e clustername line hline, Bool.not_false]]
    exact List.append_nil _
  rw [readCalendar, hlines, hfilter, map_calendarMark_icsLines, Blocks.read_write]

/-- What the receiver learns. -/
def announced (env : IcalEnv) (fs id : Str) (e : DBEntry) (clustername : Str) : Event where
  description := "Workspace ".toList ++ id ++ " will be deleted on host ".toList ++ clustername
  location := clustername ++ ':' :: fs
  summary := "Workspace ".toList ++ id ++ " expires".toList
  dtstart := generateICSDateFormat env (e.expiration - 7200)
  dtend := generateICSDateFormat env e.expiration

end Calendar

/-! ## The mail -/

section Mail

variable {env : IcalEnv} {fs id address mail_from clustername : Str} {e : DBEntry} {ics : Str}

theorem icalHeader_inLine (hfrom : InLine mail_from) (haddress : InLine address) (time : ℤ) :
    ∀ line ∈ icalHeader env mail_from [address] time, line ≠ [] ∧ InLine line := by
  have hto : generateToHeader [address] = address := List.append_nil _
  have hmessage := InLine.headed "Message-ID: <".toList (by decide) rfl
    (inLine_generateMessageID env.toMailEnv "ws_send_ical".toList (List.all_eq_true.1 rfl))
  have hclose : InLine ['>'] := List.all_eq_true.1 rfl
  simp only [icalHeader, hto, List.forall_mem_cons]
  refine ⟨InLine.headed _ (by decide) rfl hfrom, InLine.headed _ (by decide) rfl haddress,
    InLine.headed _ (by decide) rfl (inLine_generateMailDateFormat _ _),
    ⟨List.append_ne_nil_of_left_ne_nil hmessage.1 _, hmessage.2.append hclose⟩,
    InLine.headed _ (by decide) rfl (inLine_generateMailDateFormat _ _),
    ⟨by decide, List.all_eq_true.1 rfl⟩,
    InLine.headed _ (by decide) rfl (List.all_eq_true.1 rfl), fun _ hline => ?_⟩
  cases hline

/-- The lines of a mail: header, two parts, and what is after them. -/
def icalLines (env : IcalEnv) (fs id mail_from address clustername : Str) (e : DBEntry)
    (lines : List Str) : List Str :=
  icalHeader env mail_from [address] e.expiration ++ [] ::
    (Multipart.write ("--".toList ++ boundary) ("--".toList ++ boundary ++ "--".toList)
      [icalText fs id clustername, icalAttachment ++ [] :: (lines ++ [[]])] ++ [[], []])

theorem icalText_inLine (hfs : InLine fs) (hid : InLine id) (hcluster : InLine clustername) :
    ∀ line ∈ icalText fs id clustername, InLine line ∧ mimeKind boundary line = .text := by
  have hfixed : ∀ line : Str, line.all isInLine = true → InLine line :=
    fun _ hline => List.all_eq_true.mp hline
  simp only [icalText, List.forall_mem_cons]
  refine ⟨⟨hfixed _ rfl, rfl⟩, ⟨hfixed _ rfl, rfl⟩, ⟨hfixed _ rfl, rfl⟩, ⟨?_, mimeKind_text fun h => ?_⟩,
    ⟨hfixed _ rfl, rfl⟩, fun _ hline => absurd hline List.not_mem_nil⟩
  · exact ((((((hfixed _ rfl).append hid).append (hfixed _ rfl)).append hfs).append
      (hfixed _ rfl)).append hcluster).append (hfixed _ rfl)
  · exact absurd (Option.some.inj h) (by decide)

/-- The lines of the attachment are lines of a part. -/
theorem icalAttachment_inLine {lines : List Str}
    (hlines : ∀ line ∈ lines, line ⊆ base64Encode (utf8Bytes ics)) :
    ∀ line ∈ icalAttachment ++ [] :: (lines ++ [[]]),
      InLine line ∧ mimeKind boundary line = .text := by
  have hfixed : ∀ line : Str, line.all isInLine = true → InLine line :=
    fun _ hline => List.all_eq_true.mp hline
  have hpieces : ∀ line ∈ lines, InLine line ∧ mimeKind boundary line = .text := by
    intro line hline
    refine ⟨fun c hc => (base64_char (hlines line hline hc)).1, mimeKind_text fun hhead => ?_⟩
    exact (base64_char (hlines line hline (List.mem_of_mem_head? hhead))).2 rfl
  simp only [icalAttachment, List.cons_append, List.nil_append, List.forall_mem_cons,
    List.forall_mem_append]
  exact ⟨⟨hfixed _ rfl, rfl⟩, ⟨hfixed _ rfl, rfl⟩, ⟨hfixed _ rfl, rfl⟩, ⟨hfixed _ rfl, rfl⟩, hpieces,
    ⟨hfixed _ rfl, rfl⟩, fun _ hline => absurd hline List.not_mem_nil⟩

/-- The receiver gets the lines that were written. -/
theorem readLines_generateIcalMail (hfrom : InLine mail_from) (haddress : InLine address)
    (hfs : InLine fs) (hid : InLine id) (hcluster : InLine clustername) :
    ∃ lines : List Str, lines.flatten = base64Encode (utf8Bytes ics) ∧
      (∀ line ∈ lines, line ⊆ base64Encode (utf8Bytes ics)) ∧
      readLines (generateIcalMail env fs id e ics mail_from [address] clustername) =
        icalLines env fs id mail_from address clustername e lines := by
  obtain ⟨lines, hwrite, hflatten, hsub⟩ := exists_base64Lines (base64Encode (utf8Bytes ics)) 0
  refine ⟨lines, hflatten, hsub, ?_⟩
  have hmail : generateIcalMail env fs id e ics mail_from [address] clustername =
      writeLines (icalHeader env mail_from [address] e.expiration ++ [] ::
        (Multipart.write ("--".toList ++ boundary) ("--".toList ++ boundary ++ "--".toList)
          [icalText fs id clustername, icalAttachment ++ [] :: (lines ++ [[]])] ++ [[]])) := by
    rw [generateIcalMail, hwrite]
    simp only [← writeLines_append]
    congr 1
    simp only [Multipart.write, List.flatMap_cons, List.flatMap_nil, List.append_assoc,
      List.cons_append, List.nil_append]
  have hinLine : ∀ line ∈ icalHeader env mail_from [address] e.expiration ++ [] ::
      (Multipart.write ("--".toList ++ boundary) ("--".toList ++ boundary ++ "--".toList)
        [icalText fs id clustername, icalAttachment ++ [] :: (lines ++ [[]])] ++ [[]]),
      InLine line := by
    have hfixed : ∀ line : Str, line.all isInLine = true → InLine line :=
      fun _ hline => List.all_eq_true.mp hline
    have hparts : ∀ line ∈ Multipart.write ("--".toList ++ boundary)
        ("--".toList ++ boundary ++ "--".toList)
        [icalText fs id clustername, icalAttachment ++ [] :: (lines ++ [[]])], InLine line :=
      Multipart.forall_mem_write (hfixed _ rfl) (hfixed _ rfl) (List.forall_mem_cons.mpr
        ⟨fun line hline => (icalText_inLine hfs hid hcluster line hline).1,
        List.forall_mem_singleton.mpr fun line hline => (icalAttachment_inLine hsub line hline).1⟩)
    rw [List.forall_mem_append, List.forall_mem_cons, List.forall_mem_append]
    exact ⟨fun line hline => (icalHeader_inLine hfrom haddress _ line hline).2, hfixed _ rfl, hparts,
      List.forall_mem_singleton.mpr (hfixed _ rfl)⟩
  have hread := readLines_writeLines hinLine []
  rw [List.append_nil, ← hmail] at hread
  rw [hread, icalLines]
  simp only [readLines, List.append_assoc, List.cons_append, List.nil_append]

/-- **The mail is read back**: its header, and the calendar. -/
theorem readMime_generateIcalMail (hfrom : InLine mail_from) (haddress : InLine address)
    (hfs : InLine fs) (hid : InLine id) (hcluster : InLine clustername) :
    ∃ m, readMime (generateIcalMail env fs id e ics mail_from [address] clustername) = some m ∧
      m.header = icalHeader env mail_from [address] e.expiration ∧ m.parts.length = 2 ∧
      m.calendar = some ics := by
  obtain ⟨lines, hflatten, hsub, hread⟩ :=
    @readLines_generateIcalMail env fs id address mail_from clustername e ics hfrom haddress hfs hid
      hcluster
  have hheader : ∀ line ∈ icalHeader env mail_from [address] e.expiration, line.isEmpty = false :=
    fun line hline => List.isEmpty_eq_false_iff.mpr
      (icalHeader_inLine hfrom haddress _ line hline).1
  have hboundary : (icalHeader env mail_from [address] e.expiration).findSome?
      (valueOf "Content-Type: multipart/mixed; boundary=".toList) = some boundary := rfl
  have hparts : Multipart.read (mimeKind boundary) ([] ++
      (Multipart.write ("--".toList ++ boundary) ("--".toList ++ boundary ++ "--".toList)
        [icalText fs id clustername, icalAttachment ++ [] :: (lines ++ [[]])] ++ [[], []])) =
      some [icalText fs id clustername, icalAttachment ++ [] :: (lines ++ [[]])] :=
    Multipart.read_write rfl rfl (fun _ hline => absurd hline List.not_mem_nil) (List.forall_mem_cons.mpr ⟨fun line hline => (icalText_inLine hfs hid hcluster line hline).2,
      List.forall_mem_singleton.mpr fun line hline => (icalAttachment_inLine hsub line hline).2⟩) _
  have hwhole : readPart (icalLines env fs id mail_from address clustername e lines) =
      ⟨icalHeader env mail_from [address] e.expiration,
        Multipart.write ("--".toList ++ boundary) ("--".toList ++ boundary ++ "--".toList)
          [icalText fs id clustername, icalAttachment ++ [] :: (lines ++ [[]])] ++ [[], []]⟩ := by
    rw [readPart, icalLines, Multipart.header_append hheader rfl, Multipart.body_append hheader rfl]
  have hattached : readPart (icalAttachment ++ [] :: (lines ++ [[]])) =
      ⟨icalAttachment, lines ++ [[]]⟩ := by
    have hne : ∀ line ∈ icalAttachment, line.isEmpty = false := by decide
    rw [readPart, Multipart.header_append hne rfl, Multipart.body_append hne rfl]
  refine ⟨⟨icalHeader env mail_from [address] e.expiration,
    [readPart (icalText fs id clustername), ⟨icalAttachment, lines ++ [[]]⟩]⟩, ?_, rfl, rfl, ?_⟩
  · rw [List.nil_append] at hparts
    rw [readMime, hread, hwhole]
    change (((icalHeader env mail_from [address] e.expiration).findSome? _).bind _) = _
    rw [hboundary]
    change ((Multipart.read (mimeKind boundary) _).bind _) = _
    rw [hparts, ← hattached]
    rfl
  · have hdecoded : (⟨icalAttachment, lines ++ [[]]⟩ : MimePart).decoded = some (utf8Bytes ics) := by
      have hbytes : Base64.decode (lines ++ [[]]).flatten = some (utf8Bytes ics) := by
        rw [List.flatten_append, hflatten, base64Encode_eq, List.flatten_singleton, List.append_nil,
          Base64.decode_encode]
      exact hbytes
    have hother : (readPart (icalText fs id clustername)).header.any
        ("Content-Type: text/calendar".toList).isPrefixOf = false := rfl
    have hthis : icalAttachment.any ("Content-Type: text/calendar".toList).isPrefixOf = true := rfl
    simp only [MimeMail.calendar, List.findSome?_cons, hother, hthis, hdecoded, Bool.false_eq_true,
      if_false, if_true, Option.bind_some, utf8Text_utf8Bytes]

/-- **The invitation is read back.** -/
theorem readInvitation_generateIcalMail (hdated : Dated env e) (hfrom : InLine mail_from)
    (haddress : InLine address) (hfs : InLine fs) (hid : InLine id) (hcluster : InLine clustername) :
    readInvitation (utf8Bytes (generateIcalMail env fs id e (generateICS env fs id e clustername)
      mail_from [address] clustername)) = some ⟨address, announced env fs id e clustername⟩ := by
  obtain ⟨m, hm, hheader, -, hcalendar⟩ :=
    @readMime_generateIcalMail env fs id address mail_from clustername e
      (generateICS env fs id e clustername) hfrom haddress hfs hid hcluster
  have hto : generateToHeader [address] = address := List.append_nil _
  have hrecipient : m.header.findSome? (valueOf "To: ".toList) = some address := by
    rw [hheader, icalHeader, hto]
    exact valueOf_append "To: ".toList address
  have hread := readCalendar_generateICS hdated hfs hid hcluster
  rw [readInvitation, utf8Text_utf8Bytes]
  change ((readMime _).bind _) = _
  rw [hm]
  change ((m.header.findSome? _).bind _) = _
  rw [hrecipient]
  change ((m.calendar.bind readCalendar).bind _) = _
  rw [hcalendar, Option.bind_some, hread]
  rfl

end Mail

/-! ## Which workspace -/

section Selection

variable {config : RawConfig} {c : Caller} {u : UserConfig} {a : IcalArgs} {udb : UserDb}
  {broken : Str → Bool} {env : IcalEnv} {w : World}

/-- An entry of some filesystems that fits a name and a pattern for users. -/
structure FitsName (w : World) (fslist : List Str) (name user fs id : Str) (e : DBEntry) : Prop where
  /-- the filesystem is one of them -/
  listed : fs ∈ fslist
  /-- and its database can be opened -/
  open_db : w.openDB fs = true
  /-- the id fits -/
  matching : id ∈ w.matchPattern fs .live name user
  /-- the entry is there -/
  entry : w.readEntry fs .live id = some e

theorem mapM_eq_some {α β : Type} {f : α → Option β} {l : List α} {l' : List β}
    (h : l.mapM f = some l') (y : β) : y ∈ l' ↔ ∃ x ∈ l, f x = some y := by
  induction l generalizing l' with
  | nil =>
    obtain rfl := Option.some.inj h
    simp
  | cons x l ih =>
    rw [List.mapM_cons] at h
    obtain ⟨b, hb, h⟩ := Option.bind_eq_some_iff.mp h
    obtain ⟨bs, hbs, h⟩ := Option.bind_eq_some_iff.mp h
    obtain rfl := Option.some.inj h
    rw [List.mem_cons, ih hbs]
    simp [hb, eq_comm]

/-- The entries are those that fit. -/
theorem mem_icalEntries {fslist : List Str} {name : Str} {l : List (Str × Str × DBEntry)}
    (h : icalEntries (icalQuery config.toConfig c a name udb broken) w fslist = some l)
    (fs id : Str) (e : DBEntry) :
    (fs, id, e) ∈ l ↔ FitsName w fslist name (userpattern config.toConfig c a.user) fs id e := by
  induction fslist generalizing l with
  | nil =>
    obtain rfl := Option.some.inj h
    exact ⟨fun hmem => absurd hmem List.not_mem_nil, fun hfits => absurd hfits.listed List.not_mem_nil⟩
  | cons fs₀ fslist ih =>
    rw [icalEntries] at h
    split at h
    · rename_i hclosed
      rw [ih h]
      constructor
      · intro hfits
        exact { hfits with listed := List.mem_cons_of_mem _ hfits.listed }
      · intro hfits
        refine { hfits with listed := ?_ }
        rcases List.mem_cons.mp hfits.listed with rfl | hmem
        · rw [hfits.open_db] at hclosed
          cases hclosed
        · exact hmem
    · rename_i hopen
      rw [Bool.not_eq_true, Bool.not_eq_false'] at hopen
      rw [Query.matchlist_of_own rfl, Option.bind_eq_bind, Option.bind_some] at h
      obtain ⟨entries, hentries, h⟩ := Option.bind_eq_some_iff.mp h
      obtain ⟨others, hothers, h⟩ := Option.bind_eq_some_iff.mp h
      obtain rfl := Option.some.inj h
      rw [List.mem_append, mapM_eq_some hentries, ih hothers]
      constructor
      · rintro (⟨id', hid, hmap⟩ | hfits)
        · obtain ⟨e', hread, heq⟩ := Option.map_eq_some_iff.mp hmap
          obtain ⟨rfl, hrest⟩ := Prod.mk.inj heq
          obtain ⟨rfl, rfl⟩ := Prod.mk.inj hrest
          exact ⟨List.mem_cons_self .., hopen, hid, hread⟩
        · exact { hfits with listed := List.mem_cons_of_mem _ hfits.listed }
      · intro hfits
        rcases List.mem_cons.mp hfits.listed with rfl | hmem
        · refine Or.inl ⟨id, hfits.matching, ?_⟩
          rw [show (icalQuery config.toConfig c a name udb broken).area = .live from rfl, hfits.entry]
          rfl
        · exact Or.inr { hfits with listed := hmem }

theorem mem_findFslist {config : Config} {filesystem fs : Str} {fslist : List Str}
    (h : findFslist config c filesystem = some fslist) (hfs : fs ∈ fslist) :
    fs ∈ config.validFilesystems c.username c.groups .use := by
  dsimp only [findFslist] at h
  split at h
  · split at h
    · rename_i hvalid
      obtain rfl := Option.some.inj h
      rw [List.mem_singleton.mp hfs]
      exact List.contains_iff_mem.mp hvalid
    · cases h
  · obtain rfl := Option.some.inj h
    exact hfs

/-- What is checked before a mail is sent. -/
structure IcalSends (config : RawConfig) (c : Caller) (u : UserConfig) (a : IcalArgs) (udb : UserDb)
    (broken : Str → Bool) (w : World) (name address fs id : Str) (e : DBEntry)
    (fslist : List Str) : Prop where
  /-- the options are accepted -/
  commandline : icalCommandline u a = some (name, address)
  /-- the filesystems may be used -/
  list : findFslist config.toConfig c a.filesystem = some fslist
  /-- there is one workspace -/
  entries : icalEntries (icalQuery config.toConfig c a name udb broken) w fslist = some [(fs, id, e)]

/-- **Inversion** for a call that sends a mail. -/
theorem wsSendIcal_sends {smtpUrl mail_from completeMail : Str} {mail_to : List Str}
    (h : wsSendIcal config c u a udb broken env w = .sends smtpUrl mail_from mail_to completeMail) :
    ∃ name address fs id e fslist, IcalSends config c u a udb broken w name address fs id e fslist ∧
      mail_from = config.global.mail_from ∧ mail_to = [address] ∧
      completeMail = generateIcalMail env fs id e
        (generateICS env fs id e config.global.clustername) config.global.mail_from [address]
        config.global.clustername := by
  rw [wsSendIcal] at h
  split at h
  · cases h
  · rename_i name address hcommandline
    split at h
    · cases h
    · split at h
      · cases h
      · rename_i fslist hlist
        split at h
        · cases h
        · cases h
        · rename_i fs id e hentries
          dsimp only at h
          split at h
          · cases h
          · cases h
            exact ⟨name, address, fs, id, e, fslist, ⟨hcommandline, hlist, hentries⟩, rfl, rfl, rfl⟩
        · cases h

theorem icalCommandline_eq_some {name address : Str} (h : icalCommandline u a = some (name, address)) :
    a.name = some name ∧ isValidWorkspaceName name = true ∧ isValidEmail address = true := by
  rw [icalCommandline] at h
  split at h
  · cases h
  · rename_i name' hname
    split at h
    · cases h
    · rename_i hvalid
      rw [Bool.not_eq_true, Bool.not_eq_false'] at hvalid
      split at h
      · split at h
        · rename_i hmail
          cases h
          exact ⟨hname, hvalid, hmail.2⟩
        · cases h
      · split at h
        · rename_i hmail
          cases h
          exact ⟨hname, hvalid, hmail⟩
        · cases h

end Selection

/-! ## From the database to the calendar -/

/-- **An invitation arrives.** After any run of the tools, when `ws_send_ical` hands a mail to curl,
the recipient is one valid address, and there is one workspace, no more and no less, that fits the
name in the filesystems the caller may use, one of the caller himself unless he is root or an admin.
The pieces that curl takes, of any sizes, are the mail, and in it a reader finds the recipient and one
event, the end of that workspace. -/
theorem invitation_arrives (load : Str → Option UserConfDoc) (config : RawConfig) (clock : ℤ)
    (as : List OptAction) (s : System)
    (hr : Runs.exec (System.optStep load config) (System.init clock) as = some s)
    (haccounts : ∀ account ∈ as.filterMap OptAction.account, InLine account)
    (hfrom : InLine config.global.mail_from) (hcluster : InLine config.global.clustername)
    (hnames : ∀ fs ∈ config.toConfig.Filesystems, InLine fs) (c : Caller) (u : UserConfig)
    (a : IcalArgs) (udb : UserDb) (broken : Str → Bool) (env : IcalEnv)
    (smtpUrl mail_from completeMail : Str) (mail_to : List Str)
    (h : wsSendIcal config c u a udb broken env s.world =
      .sends smtpUrl mail_from mail_to completeMail) :
    ∃ name address fs id e fslist, a.name = some name ∧ mail_to = [address] ∧
      isValidEmail address = true ∧ findFslist config.toConfig c a.filesystem = some fslist ∧
      (∀ fs' id' e', FitsName s.world fslist name (userpattern config.toConfig c a.user) fs' id' e' ↔
        (fs', id', e') = (fs, id, e)) ∧
      (Dated env e → ∀ rooms : List ℕ, (∀ room ∈ rooms, 0 < room) →
        (utf8Bytes completeMail).length < rooms.length →
        ∃ received, curlReads rooms ⟨utf8Bytes completeMail, 0⟩ = (received, true) ∧
          readInvitation received =
            some ⟨address, announced env fs id e config.global.clustername⟩) := by
  obtain ⟨name, address, fs, id, e, fslist, hsends, -, hto, rfl⟩ := wsSendIcal_sends h
  obtain ⟨hname, -, hvalid⟩ := icalCommandline_eq_some hsends.commandline
  have hfits : ∀ fs' id' e', FitsName s.world fslist name (userpattern config.toConfig c a.user) fs' id' e' ↔
      (fs', id', e') = (fs, id, e) := fun fs' id' e' =>
    (mem_icalEntries hsends.entries fs' id' e').symm.trans List.mem_singleton
  refine ⟨name, address, fs, id, e, fslist, hname, hto, hvalid, hsends.list, hfits,
    fun hdated rooms hrooms hlength => ?_⟩
  have hthis := (hfits fs id e).mpr rfl
  have hlook := (World.readEntry_eq_some.mp hthis.entry).2
  have hid : InLine id := by
    obtain ⟨account, haccount, ws, hws, hid⟩ := (run_mailable hr _ e hlook).id rfl
    obtain rfl : id = wsid account ws := hid
    exact inLine_wsid (haccounts account haccount) hws
  have hfs : InLine fs := by
    have haccess := Config.mem_validFilesystems.mp (mem_findFslist hsends.list hthis.listed)
    obtain ⟨fsconfig, hconfig⟩ := Config.getFsConfig_of_hasAccess haccess
    exact hnames fs (Config.mem_Filesystems_of_getFsConfig hconfig)
  refine ⟨_, curlReads_eq rooms hrooms _ ?_, ?_⟩
  · exact hlength
  · exact readInvitation_generateIcalMail hdated hfrom (isValidEmail_inLine hvalid).1 hfs hid hcluster

/-- A configuration with a sender. -/
def senderConfig : RawConfig :=
  { mailConfig [] with global := { (mailConfig []).global with mail_from := ['m'] } }

/-- Dates are their numbers. -/
def plainIcalEnv : IcalEnv where
  toMailEnv := plainMailEnv
  icsTime := plainMailEnv.strftime
  icsTime_inLine := plainMailEnv.strftime_inLine
  buffer := []
  hashOf _ := 0

/-- `bob` asks for an invitation. -/
def bobInvites : IcalArgs := ⟨some ['x'], some "b@localhost".toList, [], []⟩

set_option maxRecDepth 4000 in
/-- He gets it, a byte at a time. -/
theorem invitation_arrives_bob : ∃ w smtpUrl mail_from mail_to completeMail received event,
    wsSendIcal senderConfig bob .defaults bobInvites noUsers (fun _ => true) plainIcalEnv w =
        .sends smtpUrl mail_from mail_to completeMail ∧
      curlReads (List.replicate ((utf8Bytes completeMail).length + 1) 1)
        ⟨utf8Bytes completeMail, 0⟩ = (received, true) ∧
      readInvitation received = some ⟨"b@localhost".toList, event⟩ := by
  have hmail : isValidEmail "b@localhost".toList = true := by decide +kernel
  have hcommandline : icalCommandline .defaults bobInvites = some (['x'], "b@localhost".toList) := by
    have hname : isValidWorkspaceName ['x'] = true := by decide
    simp only [icalCommandline, bobInvites, hname, hmail, Bool.not_true, Bool.false_eq_true, if_false,
      if_true]
  obtain ⟨s, hr, hentries⟩ : ∃ s, Runs.exec (System.optStep (fun _ => none) senderConfig)
      (System.init 0) bobCreates = some s ∧
      icalEntries (icalQuery senderConfig.toConfig bob bobInvites ['x'] noUsers fun _ => true) s.world
        [['w']] = some [(['w'], wsid bob.username ['x'], (mailEntry bob.username).persisted)] :=
    ⟨_, rfl, rfl⟩
  have hsends : ∃ completeMail, wsSendIcal senderConfig bob .defaults bobInvites noUsers
      (fun _ => true) plainIcalEnv s.world =
        .sends "smtp://".toList ['m'] ["b@localhost".toList] completeMail := by
    refine ⟨generateIcalMail plainIcalEnv ['w'] (wsid bob.username ['x'])
      (mailEntry bob.username).persisted (generateICS plainIcalEnv ['w'] (wsid bob.username ['x'])
        (mailEntry bob.username).persisted ['c']) ['m'] ["b@localhost".toList] ['c'], ?_⟩
    have hlist : findFslist senderConfig.toConfig bob [] = some [['w']] := by decide
    have hvalid : senderConfig.validate = true := by decide
    simp only [wsSendIcal, hcommandline, hvalid, Bool.not_true, Bool.false_eq_true, if_false]
    rw [show bobInvites.filesystem = [] from rfl, hlist]
    dsimp only
    rw [hentries]
    rfl
  obtain ⟨completeMail, hsends⟩ := hsends
  have hnames : ∀ fs ∈ senderConfig.toConfig.Filesystems, InLine fs := by
    intro fs hfs
    obtain rfl := List.mem_singleton.1 hfs
    exact List.all_eq_true.1 rfl
  obtain ⟨name, address, fs, id, e, fslist, -, hto, -, -, -, harrives⟩ :=
    invitation_arrives (fun _ => none) senderConfig 0 bobCreates s hr inLine_bobCreates
      (List.all_eq_true.1 rfl) (List.all_eq_true.1 rfl) hnames bob .defaults bobInvites noUsers
      (fun _ => true) plainIcalEnv _ _ _ _ hsends
  obtain rfl := List.singleton_injective hto
  obtain ⟨received, hreads, hread⟩ := harrives (fun _ _ => rfl)
    (List.replicate ((utf8Bytes completeMail).length + 1) 1)
    (fun room hroom => by rw [List.eq_of_mem_replicate hroom]; exact Nat.one_pos)
    (by rw [List.length_replicate]; exact Nat.lt_succ_self _)
  exact ⟨s.world, _, _, _, completeMail, received, _, hsends, hreads, hread⟩

end HpcWorkspace
