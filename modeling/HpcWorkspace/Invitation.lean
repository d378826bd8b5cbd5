import HpcWorkspace.Find
import HpcWorkspace.Lib.Blocks
import HpcWorkspace.Lib.Multipart
import HpcWorkspace.MailHeaders
import HpcWorkspace.SendIcal

/-!
# What `ws_send_ical` sends

`ws_send_ical` looks for a workspace and sends its end as a calendar, in a mail of two parts: a text
and the calendar as a base64 attachment. curl takes the mail from a callback, in pieces of the size it
likes. The receiver puts the pieces together and goes the way back: lines, header, parts, base64,
calendar, event.
-/

namespace HpcWorkspace

/-! ## The calendar -/

/-- What the generators of `ws_send_ical` read of their surroundings. -/
structure IcalEnv extends MailEnv where
  /-- `localtime_r` and `strftime` with the format of calendars, `none` when a year does not fit into
  the buffer -/
  icsTime : ℤ → Option Str
  /-- numbers and two letters -/
  icsTime_inLine : ∀ time date, icsTime time = some date → InLine date
  /-- what is in the buffer when `strftime` does not write it -/
  buffer : Str
  /-- `std::hash` -/
  hashOf : Str → ℕ

/-- `generateICSDateFormat` -/
def generateICSDateFormat (env : IcalEnv) (time : ℤ) : Str := (env.icsTime time).getD env.buffer

/-- The lines of `generateICS` for the entry of an id in a filesystem. -/
def icsLines (env : IcalEnv) (fs id : Str) (e : DBEntry) (clustername : Str) : List Str :=
  let starttime := e.expiration - 7200
  let starttimestr := generateICSDateFormat env starttime
  let expirationtimestr := generateICSDateFormat env e.expiration
  let createtimestr := generateICSDateFormat env env.now
  -- header
  ["BEGIN:VCALENDAR".toList,
    "VERSION:2.0".toList,
    "PRODID:-//HLRS Cluster Team//Workspace V2.1//EN".toList,
    "METHOD:REQUEST".toList,
    "BEGIN:VTIMEZONE".toList,
    "TZID:Europe/Berlin".toList,
    "BEGIN:DAYLIGHT".toList,
    "TZOFFSETFROM:+0100".toList,
    "TZOFFSETTO:+0200".toList,
    "TZNAME:CEST".toList,
    "DTSTART:19700329T020000".toList,
    "RRULE:FREQ=YEARLY;BYDAY=-1SU;BYMONTH=3".toList,
    "END:DAYLIGHT".toList,
    "BEGIN:STANDARD".toList,
    "TZOFFSETFROM:+0200".toList,
    "TZOFFSETTO:+0100".toList,
    "TZNAME:CET".toList,
    "DTSTART:19701025T030000".toList,
    "RRULE:FREQ=YEARLY;BYDAY=-1SU;BYMONTH=10".toList,
    "END:STANDARD".toList,
    "END:VTIMEZONE".toList,
    -- event
    "BEGIN:VEVENT".toList,
    "CREATED:".toList ++ createtimestr,
    "DTSTAMP:".toList ++ createtimestr,
    "UID:587a1aa6-".toList ++ Nat.toDigits 10 (env.hashOf id),
    "DESCRIPTION:Workspace ".toList ++ id ++ " will be deleted on host ".toList ++ clustername,
    "LOCATION:".toList ++ clustername ++ ':' :: fs,
    "SUMMARY:Workspace ".toList ++ id ++ " expires".toList,
    "DTSTART;TZID=Europe/Berlin:".toList ++ starttimestr,
    "DTEND;TZID=Europe/Berlin:".toList ++ expirationtimestr,
    "LAST_MODIFIED:".toList ++ createtimestr,
    "CLASS:PRIVATE".toList,
    "END:VEVENT".toList,
    "END:VCALENDAR".toList]

/-- `generateICS` -/
def generateICS (env : IcalEnv) (fs id : Str) (e : DBEntry) (clustername : Str) : Str :=
  writeLines (icsLines env fs id e clustername)

/-! ## The mail -/

/-- The bytes of a text. -/
def utf8Bytes (text : Str) : List UInt8 := text.flatMap String.utf8EncodeChar

/-- `generateMail`: the header. -/
def icalHeader (env : IcalEnv) (mail_from : Str) (mail_to : List Str) (expirationtime : ℤ) :
    List Str :=
  ["From: ".toList ++ mail_from,
    "To: ".toList ++ generateToHeader mail_to,
    "Subject: Workspace expire on ".toList ++ generateMailDateFormat env.toMailEnv expirationtime,
    "Message-ID: <".toList ++ generateMessageID env.toMailEnv "ws_send_ical".toList ++ ['>'],
    "Date: ".toList ++ generateMailDateFormat env.toMailEnv env.now,
    "MIME-Version: 1.0".toList,
    "Content-Type: multipart/mixed; boundary=".toList ++ boundary]

/-- `generateMail`: the text. -/
def icalText (fs id clustername : Str) : List Str :=
  ["Content-Type: text/plain; charset=UTF-8".toList,
    "Content-Transfer-Encoding: 7bit".toList,
    [],
    "Your workspace ".toList ++ id ++ " on filesystem ".toList ++ fs ++ " at HPC System ".toList ++
      clustername ++ " is going to expire ".toList,
    []]

/-- `generateMail`: the header of the attachment. -/
def icalAttachment : List Str :=
  ["Content-Type: text/calendar; charset=UTF-8; method=REQUEST".toList,
    "Content-Transfer-Encoding: base64".toList,
    "Content-Disposition: attachment; filename=invite.ics".toList]

/-- `generateMail` -/
def generateIcalMail (env : IcalEnv) (fs id : Str) (e : DBEntry) (ics mail_from : Str)
    (mail_to : List Str) (clustername : Str) : Str :=
  let encodedICS := base64Encode (utf8Bytes ics)
  writeLines (icalHeader env mail_from mail_to e.expiration ++ [[]]) ++
    writeLines (("--".toList ++ boundary) :: icalText fs id clustername) ++
    writeLines (("--".toList ++ boundary) :: (icalAttachment ++ [[]])) ++
    base64Lines encodedICS 0 ++
    writeLines [[], "--".toList ++ boundary ++ "--".toList, []]

/-! ## `sendCurl` -/

/-- `EmailData` -/
structure EmailData where
  /-- the bytes of the mail -/
  content : List UInt8
  /-- how many of them were taken -/
  index : ℕ

/-- `readEmailCallback`, with room for `size * nmemb` bytes. -/
def readEmailCallback (room : ℕ) (d : EmailData) : List UInt8 × EmailData :=
  let available := d.content.length - d.index
  if available = 0 then ([], d)
  else
    let to_copy := min available room
    ((d.content.drop d.index).take to_copy, { d with index := d.index + to_copy })

/-- curl calls until it gets nothing; what it has got, and whether it has come to this. -/
def curlReads : List ℕ → EmailData → List UInt8 × Bool
  | [], _ => ([], false)
  | room :: rooms, d =>
    let (piece, d) := readEmailCallback room d
    if piece = [] then ([], true)
    else
      let (pieces, done) := curlReads rooms d
      (piece ++ pieces, done)

/-! ## `main` -/

/-- The command line of `ws_send_ical`; a filesystem or a user that is not given is empty. -/
structure IcalArgs where
  /-- `-n`, or the first argument -/
  name : Option Str
  /-- `-m`, or the second argument -/
  mail : Option Str
  /-- `-F` -/
  filesystem : Str
  /-- `-u` -/
  user : Str

/-- `commandline`: the name and the address; `none` is its `exit`. -/
def icalCommandline (u : UserConfig) (a : IcalArgs) : Option (Str × Str) :=
  match a.name with
  | none => none
  | some name =>
    if !isValidWorkspaceName name then none
    else
      match a.mail with
      | none =>
        if u.mailaddress ≠ [] ∧ isValidEmail u.mailaddress = true then some (name, u.mailaddress)
        else none
      | some mail => if isValidEmail mail then some (name, mail) else none

/-- How a call ends. -/
inductive IcalResult where
  /-- no valid configuration, or wrong options -/
  | refused
  /-- the filesystem can not be used -/
  | invalidFilesystem
  /-- a database threw -/
  | failed
  /-- there are several workspaces of this name -/
  | several
  /-- there is none -/
  | missing
  /-- there is no sender in the configuration -/
  | noSender
  /-- a mail is given to curl -/
  | sends (smtpUrl mail_from : Str) (mail_to : List Str) (completeMail : Str)
  deriving DecidableEq

/-- What `ws_send_ical` asks of the databases. -/
def icalQuery (config : Config) (c : Caller) (a : IcalArgs) (name : Str) (udb : UserDb)
    (broken : Str → Bool) : Query where
  udb := udb
  broken := broken
  caller := c.username
  pattern := name
  user := userpattern config c a.user
  groups := c.groups
  area := .live
  listgroups := false

/-- The entries of the filesystems; `none` when a database throws. One that can not be opened is
passed. -/
def icalEntries (q : Query) (w : World) : List Str → Option (List (Str × Str × DBEntry))
  | [] => some []
  | fs :: fslist =>
    if !w.openDB fs then icalEntries q w fslist
    else do
      let ids ← q.matchlist w fs
      let entries ← ids.mapM fun id => (w.readEntry fs q.area id).map (fs, id, ·)
      let others ← icalEntries q w fslist
      return entries ++ others

/-- `main` of `ws_send_ical` -/
def wsSendIcal (config : RawConfig) (c : Caller) (u : UserConfig) (a : IcalArgs) (udb : UserDb)
    (broken : Str → Bool) (env : IcalEnv) (w : World) : IcalResult :=
  match icalCommandline u a with
  | none => .refused
  | some (name, mailaddress) =>
    if !config.validate then .refused
    else
      match findFslist config.toConfig c a.filesystem with
      | none => .invalidFilesystem
      | some fslist =>
        match icalEntries (icalQuery config.toConfig c a name udb broken) w fslist with
        | none => .failed
        | some [] => .missing
        | some [(fs, id, e)] =>
          let mail_from := config.global.mail_from
          if mail_from = [] then .noSender
          else
            let clustername := config.global.clustername
            let ics := generateICS env fs id e clustername
            .sends ("smtp://".toList ++ config.global.smtphost) mail_from [mailaddress]
              (generateIcalMail env fs id e ics mail_from [mailaddress] clustername)
        | some (_ :: _ :: _) => .several

end HpcWorkspace
