import HpcWorkspace.Email

/-!
# Mails of the expirer

A mail is a header, an empty line and a body, each line ended by CR and LF. The receiver takes for the
header what stands before the first empty line. A text that stays on its line can be put into a line of
the header without making another one.
-/

namespace HpcWorkspace

/-! ## Texts -/

/-- `boundary` -/
def boundary : Str := "_NextPart_01234567.89ABCDEF".toList

/-- What the generators of mails read of their surroundings. -/
structure MailEnv where
  /-- the clock -/
  now : ℤ
  /-- `getpid()` -/
  pid : ℕ
  /-- the hash of clock, process and `rand()` -/
  hash : ℕ
  /-- `localtime_r` and `strftime` with the format of mail dates, `none` when they fail -/
  strftime : ℤ → Option Str
  /-- names of days and months, numbers and punctuation are printable in the C locale -/
  strftime_inLine : ∀ time date, strftime time = some date → InLine date

/-- `generateMailDateFormat` -/
def generateMailDateFormat (env : MailEnv) (time : ℤ) : Str :=
  (env.strftime time).getD "(date out of range)".toList

/-- `generateMessageID` -/
def generateMessageID (env : MailEnv) (domain : Str) : Str :=
  fmtLong env.now ++ '.' :: Nat.toDigits 10 env.pid ++ '.' :: Nat.toDigits 10 env.hash ++
    '@' :: domain

/-- `generateToHeader` -/
def generateToHeader (mail_to : List Str) : Str := ", ".toList.intercalate mail_to

/-- The lines of a text, each with its end. -/
def writeLines (lines : List Str) : Str := lines.flatMap (· ++ CRLF)

/-- The lines of a header after the first one. -/
def headerRest (env : MailEnv) (mail_to : List Str) (subject : Str) : List Str :=
  ["To: ".toList ++ generateToHeader mail_to,
    "Subject: ".toList ++ subject,
    "Message-ID: <".toList ++ generateMessageID env "ws_expirer".toList ++ ['>'],
    "Date: ".toList ++ generateMailDateFormat env env.now,
    "MIME-Version: 1.0".toList,
    "Content-Type: multipart/mixed; boundary=".toList ++ boundary]

/-- The lines of a header. -/
def headerLines (env : MailEnv) (mail_from : Str) (mail_to : List Str) (subject : Str) : List Str :=
  ("From: ".toList ++ mail_from) :: headerRest env mail_to subject

/-- The lines of a body with one part. -/
def bodyLines (text : List Str) : List Str :=
  ["--".toList ++ boundary, "Content-Type: text/plain; charset=UTF-8".toList,
    "Content-Transfer-Encoding: 7bit".toList, []] ++ text ++
      [[], "--".toList ++ boundary ++ "--".toList, []]

/-- `generateReminderMail`: the subject. -/
def reminderSubject (env : MailEnv) (expirationtime : ℤ) (wsname : Str) : Str :=
  "Workspace ".toList ++ wsname ++ " will expire at ".toList ++
    generateMailDateFormat env expirationtime

/-- `generateReminderMail` -/
def generateReminderMail (env : MailEnv) (mail_from : Str) (mail_to : List Str)
    (expirationtime : ℤ) (wsname fsname clustername : Str) : Str :=
  writeLines (headerLines env mail_from mail_to (reminderSubject env expirationtime wsname) ++
    [] :: bodyLines
      ["Your workspace ".toList ++ wsname ++ " on filesystem ".toList ++ fsname ++
          " at HPC System ".toList ++ clustername ++ " will expire at ".toList ++
            generateMailDateFormat env expirationtime,
        []])

/-- `generateExpirationMail`: the subject. -/
def expirationSubject (env : MailEnv) (expirationtime : ℤ) (wsname : Str) : Str :=
  "Workspace ".toList ++ wsname ++ " expired at ".toList ++ generateMailDateFormat env expirationtime

/-- `generateExpirationMail` -/
def generateExpirationMail (env : MailEnv) (mail_from : Str) (mail_to : List Str)
    (expirationtime : ℤ) (wsname fsname clustername : Str) (keeptime : ℤ) : Str :=
  writeLines (headerLines env mail_from mail_to (expirationSubject env expirationtime wsname) ++
    [] :: bodyLines
      ["Your workspace ".toList ++ wsname ++ " on filesystem ".toList ++ fsname ++
          " at HPC System ".toList ++ clustername ++ " was expired at ".toList ++
            generateMailDateFormat env expirationtime,
        "Your workspace can be restored for the next ".toList ++ fmtLong keeptime ++
          " days using ws_restore, to view restorable workspaces use ws_restore -l or ws_list -e".toList,
        [],
        "(you can disable this email by setting 'expirationmail: false' in your ~/.ws_user.conf)".toList])

/-! ## Reading a mail -/

/-- A character before the other ones of the first line. -/
def consLine (c : Char) : List Str → List Str
  | [] => [[c]]
  | line :: lines => (c :: line) :: lines

/-- The lines of a text, ended by CR and LF. -/
def readLines : Str → List Str
  | '\r' :: '\n' :: rest => [] :: readLines rest
  | c :: rest => consLine c (readLines rest)
  | [] => [[]]

/-- The header: the lines before the first empty one. -/
def readHeader (mail : Str) : List Str := (readLines mail).takeWhile (· != [])

theorem readLines_line {line : Str} (hline : InLine line) (rest : Str) :
    readLines (line ++ CRLF ++ rest) = line :: readLines rest := by
  induction line with
  | nil => rfl
  | cons c line ih =>
    have hc : c ≠ '\r' := by
      rintro rfl
      exact absurd (hline '\r' (List.mem_cons_self ..)) (by decide)
    have htail : InLine line := fun d hd => hline d (List.mem_cons_of_mem _ hd)
    have hstep : readLines (c :: (line ++ CRLF ++ rest)) =
        consLine c (readLines (line ++ CRLF ++ rest)) := by
      rw [readLines]
      exact fun _ heq => absurd heq hc
    rw [List.cons_append, List.cons_append, hstep, ih htail]
    rfl

/-- **Reading back a header** whose lines are not empty and stay on their lines. -/
theorem readHeader_writeLines {header : List Str} (hheader : ∀ line ∈ header, line ≠ [] ∧ InLine line)
    (body : List Str) : readHeader (writeLines (header ++ [] :: body)) = header := by
  induction header with
  | nil => rfl
  | cons line header ih =>
    obtain ⟨hne, hline⟩ := hheader line (List.mem_cons_self ..)
    have hrest := ih fun l hl => hheader l (List.mem_cons_of_mem _ hl)
    have hwrite : writeLines (line :: header ++ [] :: body) =
        line ++ CRLF ++ writeLines (header ++ [] :: body) := rfl
    rw [readHeader, hwrite, readLines_line hline,
      List.takeWhile_cons_of_pos (p := (· != [])) (bne_iff_ne.2 hne)]
    exact congrArg (line :: ·) hrest

end HpcWorkspace
