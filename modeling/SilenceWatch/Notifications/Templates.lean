import SilenceWatch.Database.Schema
import SilenceWatch.Library.Markup
import SilenceWatch.Schedule.NextDue

/-!
# Messages

What an alert is rendered to, for mail and for Slack. Names, tags and expressions are typed by
people, or sent by jobs, and end up in markup: read back, the mail is the template with these
texts as characters, and what Slack is sent holds no control sequence.
-/

namespace SilenceWatch

/-- `AlertCheck`, without its id and its state, which no message says. -/
structure AlertCheck where
  name : List Char
  environment : Option (List Char)
  tags : List (List Char)
  lastPingAt : Option ℤ
  nextDueAt : Option ℤ
  graceSeconds : ℤ
  scheduleType : ScheduleType
  periodSeconds : Option ℤ
  cronExpression : Option (List Char)
  timezone : List Char

/-- `AlertIncident`, without its id. -/
structure AlertIncident where
  startedAt : ℤ
  resolvedAt : Option ℤ
  cause : IncidentCause

/-- Everything a channel needs to render a message. -/
structure Alert where
  kind : AlertKind
  check : AlertCheck
  projectName : List Char
  incident : AlertIncident
  url : List Char

/-- A labelled value of a message. -/
structure AlertField where
  label : List Char
  value : List Char
  deriving DecidableEq

/-- `RenderedAlert`. -/
structure RenderedAlert where
  subject : List Char
  headline : List Char
  text : List Char
  html : List Char
  fields : List AlertField

section Instants

/-- A number in decimal. -/
def decimalText (n : ℕ) : List Char := Nat.toDigits 10 n

/-- A number in decimal, with zeros before it up to a width. -/
def paddedText (width n : ℕ) : List Char := (decimalText n).leftpad width '0'

/-- The year, month and day of a day counted from the epoch, in the Gregorian calendar. -/
def civilOfDays (days : ℤ) : ℤ × ℕ × ℕ :=
  -- the count starts on the first of March of year 0, and a year ends in February
  let z := days + 719468
  let era := z / 146097
  let doe := (z % 146097).toNat
  let yoe := (doe - doe / 1460 + doe / 36524 - doe / 146096) / 365
  let doy := doe - (365 * yoe + yoe / 4 - yoe / 100)
  let mp := (5 * doy + 2) / 153
  let month := if mp < 10 then mp + 3 else mp - 9
  (yoe + era * 400 + (if month ≤ 2 then 1 else 0), month, doy - (153 * mp + 2) / 5 + 1)

/-- The year of `toISOString`: four digits, or a sign and six. -/
def yearText (year : ℤ) : List Char :=
  if 0 ≤ year ∧ year ≤ 9999 then paddedText 4 year.toNat
  else (if year < 0 then '-' else '+') :: paddedText 6 year.natAbs

/-- `Date.prototype.toISOString`. -/
def toISOString (instant : ℤ) : List Char :=
  let (year, month, day) := civilOfDays (instant / 86400000)
  let ms := (instant % 86400000).toNat
  yearText year ++ ['-'] ++ paddedText 2 month ++ ['-'] ++ paddedText 2 day ++ ['T'] ++
    paddedText 2 (ms / 3600000) ++ [':'] ++ paddedText 2 (ms / 60000 % 60) ++ [':'] ++
    paddedText 2 (ms / 1000 % 60) ++ ['.'] ++ paddedText 3 (ms % 1000) ++ ['Z']

/-- `String.prototype.replace` of a text by another, which replaces its first occurrence. -/
def replaceFirst (pattern replacement : List Char) : List Char → List Char
  | [] => []
  | c :: rest =>
    if pattern.isPrefixOf (c :: rest) then replacement ++ (c :: rest).drop pattern.length
    else c :: replaceFirst pattern replacement rest

/-- `formatInstant`. -/
def formatInstant : Option ℤ → List Char
  | none => "never".toList
  | some instant =>
    replaceFirst ".000Z".toList ['Z'] (replaceFirst ['T'] [' '] (toISOString instant))

/-- `formatDuration`, of milliseconds: 45s, 5m, 2h 30m, 3d 4h. -/
def formatDuration (ms : ℤ) : List Char :=
  let total := ((ms + 500) / 1000).toNat
  if total < 60 then decimalText total ++ ['s']
  else
    let days := total / 86400
    let hours := total % 86400 / 3600
    let minutes := total % 3600 / 60
    if 0 < days then
      if 0 < hours then decimalText days ++ "d ".toList ++ decimalText hours ++ ['h']
      else decimalText days ++ ['d']
    else if 0 < hours then
      if 0 < minutes then decimalText hours ++ "h ".toList ++ decimalText minutes ++ ['m']
      else decimalText hours ++ ['h']
    else decimalText minutes ++ ['m']

/-- `downtimeSeconds`, in milliseconds. -/
def downtime (incident : AlertIncident) (now : ℤ) : ℤ :=
  max 0 (incident.resolvedAt.getD now - incident.startedAt)

/-- `describeSchedule`. -/
def describeSchedule (check : AlertCheck) : List Char :=
  match check.scheduleType with
  | .cron =>
    "cron \"".toList ++ check.cronExpression.getD "null".toList ++ "\" (".toList ++
      check.timezone ++ [')']
  | .interval =>
    match check.periodSeconds with
    | none => "unknown schedule".toList
    | some period => "every ".toList ++ formatDuration (period * 1000)

end Instants

section Html

/-- `HTML_ESCAPES`. -/
def htmlEscapes : List (Char × List Char) :=
  [('&', "&amp;".toList), ('<', "&lt;".toList), ('>', "&gt;".toList), ('"', "&quot;".toList),
    ('\'', "&#39;".toList)]

/-- `escapeHtml`. -/
def escapeHtml (value : List Char) : List Char :=
  value.flatMap fun c => (htmlEscapes.lookup c).getD [c]

/-- One row of the table. -/
def htmlRow (field : AlertField) : List Char :=
  ("\n        <tr>\n          <td style=\"padding:6px 16px 6px 0;color:#5e5e5e;font-size:13px;" ++
    "white-space:nowrap\">").toList ++ escapeHtml field.label ++
  "</td>\n          <td style=\"padding:6px 0;color:#0a0a0a;font-size:13px\">".toList ++
    escapeHtml field.value ++ "</td>\n        </tr>".toList

/-- `renderHtml`. -/
def renderHtml (alert : Alert) (headline : List Char) (fields : List AlertField) : List Char :=
  let accent := if alert.kind = .down then "#b3261e" else "#146c2e"
  let badge := if alert.kind = .down then "DOWN" else "RECOVERED"
  ("<!doctype html>\n<html lang=\"en\"><body style=\"margin:0;padding:24px;" ++
    "background:#f4f4f4;font-family:-apple-system,BlinkMacSystemFont,'Segoe UI'," ++
    "Roboto,Helvetica,Arial,sans-serif\">\n  <table role=\"presentation\" " ++
    "cellpadding=\"0\" cellspacing=\"0\" style=\"max-width:560px;margin:0 auto;" ++
    "background:#fff;border-radius:12px;" ++
    "border:1px solid #e2e2e2\">\n    <tr><td style=\"padding:24px\">\n" ++
    "      <span style=\"display:inline-block;padding:4px 10px;border-radius:999px;" ++
    "background:").toList ++ accent.toList ++
  ";color:#fff;font-size:11px;font-weight:700;letter-spacing:.6px\">".toList ++ badge.toList ++
  ("</span>\n      <h1 style=\"margin:16px 0 4px;font-size:18px;line-height:1.35;" ++
    "color:#0a0a0a\">").toList ++ escapeHtml headline ++
  ("</h1>\n      <table role=\"presentation\" cellpadding=\"0\" cellspacing=\"0\" " ++
    "style=\"margin-top:16px;width:100%\">").toList ++ fields.flatMap htmlRow ++
  "</table>\n      <a href=\"".toList ++ escapeHtml alert.url ++
  ("\" style=\"display:inline-block;margin-top:20px;padding:10px 18px;background:#0a0a0a;" ++
    "color:#ffffff;text-decoration:none;border-radius:8px;font-size:14px;font-weight:600\">" ++
    "Open check</a>\n      <p style=\"margin:20px 0 0;color:#737373;font-size:12px;" ++
    "line-height:1.5\">\n        You are receiving this because a SilenceWatch notification " ++
    "channel for\n        ").toList ++ escapeHtml alert.projectName ++
  (" points at this address.\n      </p>\n    </td></tr>\n  </table>\n</body>" ++
    "</html>").toList

end Html

/-- The fields of a message. -/
def alertFields (alert : Alert) (now : ℤ) : List AlertField :=
  let check := alert.check
  let outage := formatDuration (downtime alert.incident now)
  [⟨"Check".toList, check.name⟩, ⟨"Project".toList, alert.projectName⟩,
    ⟨"Environment".toList, check.environment.getD ['—']⟩,
    ⟨"Schedule".toList, describeSchedule check⟩,
    ⟨"Grace period".toList, formatDuration (check.graceSeconds * 1000)⟩,
    ⟨"Last ping".toList, formatInstant check.lastPingAt⟩,
    ⟨"Expected by".toList, formatInstant check.nextDueAt⟩,
    match alert.kind with
    | .down => ⟨"Silent since".toList, formatInstant (some alert.incident.startedAt)⟩
    | .up => ⟨"Was down for".toList, outage⟩] ++
  (if 0 < check.tags.length then [⟨"Tags".toList, ", ".toList.intercalate check.tags⟩] else []) ++
  (if alert.kind = .down ∧ alert.incident.cause = .reported then
    [⟨"Cause".toList, "the job reported a failure".toList⟩] else [])

/-- `renderAlert`. -/
def renderAlert (alert : Alert) (now : ℤ) : RenderedAlert :=
  let check := alert.check
  let scope :=
    match check.environment with
    | none => alert.projectName
    | some environment => alert.projectName ++ " / ".toList ++ environment
  let outage := formatDuration (downtime alert.incident now)
  let subject :=
    match alert.kind with
    | .down => "[SilenceWatch] DOWN — ".toList ++ check.name ++ " (".toList ++ scope ++ [')']
    | .up =>
      "[SilenceWatch] UP — ".toList ++ check.name ++ " recovered (".toList ++ scope ++ [')']
  let headline :=
    match alert.kind with
    | .down => check.name ++ " stopped checking in (".toList ++ scope ++ [')']
    | .up =>
      check.name ++ " is checking in again after ".toList ++ outage ++ " (".toList ++ scope ++
        [')']
  let fields := alertFields alert now
  { subject
    headline
    text := ['\n'].intercalate ([headline, []] ++
      (fields.map fun field => field.label ++ ": ".toList ++ field.value) ++ [[], alert.url])
    html := renderHtml alert headline fields
    fields }

/-! ### The mail as its reader sees it -/

/-- A reader of mail knows the references that `HTML_ESCAPES` writes. -/
structure KnowsEscapes (named : List Char → Option Char) : Prop where
  amp : named "amp".toList = some '&'
  lt : named "lt".toList = some '<'
  gt : named "gt".toList = some '>'
  quot : named "quot".toList = some '"'
  apos : named "#39".toList = some '\''

/-- How `escapeHtml` writes a character. -/
def htmlText (c : Char) : List Char := (htmlEscapes.lookup c).getD [c]

/-- A character that `HTML_ESCAPES` does not list is written as it is. -/
theorem htmlText_of_ne {c : Char} (hamp : c ≠ '&') (hlt : c ≠ '<') (hgt : c ≠ '>')
    (hquot : c ≠ '"') (hapos : c ≠ '\'') : htmlText c = [c] := by
  have hnone : htmlEscapes.lookup c = none := by
    simp only [htmlEscapes, List.lookup_cons, List.lookup_nil, beq_false_of_ne hamp, beq_false_of_ne hlt,
      beq_false_of_ne hgt, beq_false_of_ne hquot, beq_false_of_ne hapos]
  rw [htmlText, hnone]
  rfl

/-- What `escapeHtml` writes for a character is read as that character, in the text and in an
attribute. -/
def htmlEscape {named : List Char → Option Char} (h : KnowsEscapes named) :
    Markup.Escape named where
  text := htmlText
  scan_text c place := by
    by_cases hamp : c = '&'
    · subst hamp
      exact Markup.scan_reference (by decide) h.amp place
    by_cases hlt : c = '<'
    · subst hlt
      exact Markup.scan_reference (by decide) h.lt place
    by_cases hgt : c = '>'
    · subst hgt
      exact Markup.scan_reference (by decide) h.gt place
    by_cases hquot : c = '"'
    · subst hquot
      exact Markup.scan_reference (by decide) h.quot place
    by_cases hapos : c = '\''
    · subst hapos
      exact Markup.scan_reference (by decide) h.apos place
    rw [htmlText_of_ne hamp hlt hgt hquot hapos]
    cases place <;>
      simp [Markup.scan, Markup.next, Markup.Place.mode, Markup.Place.add, hamp, hlt, hquot]

namespace Mail

/-- A start tag whose attributes are the template's own. -/
def tag (name : String) (attributes : List (String × String)) : Markup.Piece :=
  .start name.toList (attributes.map fun a => (a.1.toList, .own a.2.toList))

/-- Text of the template. -/
def words (content : String) : Markup.Piece := .text (.own content.toList)

/-- An end tag. -/
def endTag (name : String) : Markup.Piece := .end name.toList

/-- The mail up to its headline. -/
def head (kind : AlertKind) : List Markup.Piece :=
  let (accent, badge) :=
    match kind with
    | .down => ("#b3261e", "DOWN")
    | .up => ("#146c2e", "RECOVERED")
  [.declaration "doctype html".toList, words "\n", tag "html" [("lang", "en")],
    tag "body" [("style", "margin:0;padding:24px;background:#f4f4f4;" ++
      "font-family:-apple-system,BlinkMacSystemFont,'Segoe UI',Roboto,Helvetica,Arial," ++
      "sans-serif")],
    words "\n  ",
    tag "table" [("role", "presentation"), ("cellpadding", "0"), ("cellspacing", "0"),
      ("style", "max-width:560px;margin:0 auto;background:#fff;border-radius:12px;" ++
        "border:1px solid #e2e2e2")],
    words "\n    ", tag "tr" [], tag "td" [("style", "padding:24px")], words "\n      ",
    tag "span" [("style", "display:inline-block;padding:4px 10px;border-radius:999px;" ++
      "background:" ++ accent ++ ";color:#fff;font-size:11px;font-weight:700;" ++
      "letter-spacing:.6px")],
    words badge, endTag "span", words "\n      ",
    tag "h1" [("style", "margin:16px 0 4px;font-size:18px;line-height:1.35;color:#0a0a0a")]]

/-- The mail from its headline to its table. -/
def table : List Markup.Piece :=
  [endTag "h1", words "\n      ",
    tag "table" [("role", "presentation"), ("cellpadding", "0"), ("cellspacing", "0"),
      ("style", "margin-top:16px;width:100%")]]

/-- A row up to its label. -/
def rowHead : List Markup.Piece :=
  [words "\n        ", tag "tr" [], words "\n          ",
    tag "td" [("style", "padding:6px 16px 6px 0;color:#5e5e5e;font-size:13px;white-space:nowrap")]]

/-- A row from its label to its value. -/
def rowMiddle : List Markup.Piece :=
  [endTag "td", words "\n          ",
    tag "td" [("style", "padding:6px 0;color:#0a0a0a;font-size:13px")]]

/-- A row after its value. -/
def rowTail : List Markup.Piece := [endTag "td", words "\n        ", endTag "tr"]

/-- One row of the table. -/
def row (field : AlertField) : List Markup.Piece :=
  rowHead ++ [.text (.typed field.label)] ++ rowMiddle ++ [.text (.typed field.value)] ++ rowTail

/-- How the link looks. -/
def linkStyle : List Char × Markup.Text :=
  ("style".toList, .own ("display:inline-block;margin-top:20px;padding:10px 18px;" ++
    "background:#0a0a0a;color:#ffffff;text-decoration:none;border-radius:8px;" ++
    "font-size:14px;font-weight:600").toList)

/-- The mail from its link to the name of the project. -/
def reason : List Markup.Piece :=
  [words "Open check", endTag "a", words "\n      ",
    tag "p" [("style", "margin:20px 0 0;color:#737373;font-size:12px;line-height:1.5")],
    words ("\n        You are receiving this because a SilenceWatch notification channel for" ++
      "\n        ")]

/-- The mail from its table to the name of the project, with the link to the check. -/
def link (url : List Char) : List Markup.Piece :=
  [endTag "table", words "\n      "] ++
    [.start ['a'] [("href".toList, .typed url), linkStyle]] ++ reason

/-- The rest of the mail. -/
def tail : List Markup.Piece :=
  [words " points at this address.\n      ", endTag "p", words "\n    ", endTag "td",
    endTag "tr", words "\n  ", endTag "table", words "\n", endTag "body", endTag "html"]

/-- The mail in pieces: tags and texts of the template, and what was typed. -/
def page (alert : Alert) (headline : List Char) (fields : List AlertField) :
    List Markup.Piece :=
  head alert.kind ++ [.text (.typed headline)] ++ table ++ fields.flatMap row ++
    link alert.url ++ [.text (.typed alert.projectName)] ++ tail

open Markup (print print_append)

theorem escapeHtml_eq (value : List Char) : escapeHtml value = value.flatMap htmlText := rfl

/-- Typed text is printed as `escapeHtml` writes it. -/
theorem print_typed (value : List Char) :
    print htmlText [.text (.typed value)] = escapeHtml value := by
  simp [Markup.print, Markup.Piece.print, Markup.Text.print, escapeHtml_eq]

/-- An attribute of the template. -/
def written (a : String × String) : List Char :=
  ' ' :: a.1.toList ++ '=' :: '"' :: a.2.toList ++ ['"']

theorem print_nil : print htmlText [] = [] := rfl

theorem print_declaration (content : List Char) (rest : List Markup.Piece) :
    print htmlText (.declaration content :: rest) =
      '<' :: '!' :: content ++ '>' :: print htmlText rest := by
  simp [Markup.print, Markup.Piece.print]

theorem print_words (content : String) (rest : List Markup.Piece) :
    print htmlText (words content :: rest) = content.toList ++ print htmlText rest := rfl

theorem print_endTag (name : String) (rest : List Markup.Piece) :
    print htmlText (endTag name :: rest) =
      '<' :: '/' :: name.toList ++ '>' :: print htmlText rest := by
  simp [Markup.print, Markup.Piece.print, endTag]

theorem print_tag (name : String) (attributes : List (String × String))
    (rest : List Markup.Piece) :
    print htmlText (tag name attributes :: rest) =
      '<' :: name.toList ++ attributes.flatMap written ++ '>' :: print htmlText rest := by
  have hattributes : attributes.flatMap written =
      (attributes.map fun a => (a.1.toList, Markup.Text.own a.2.toList)).flatMap
        (Markup.printAttribute htmlText) := by
    rw [List.flatMap_map]
    rfl
  rw [hattributes]
  simp [Markup.print, Markup.Piece.print, tag]

theorem print_head (kind : AlertKind) :
    print htmlText (head kind) =
      ("<!doctype html>\n<html lang=\"en\"><body style=\"margin:0;padding:24px;" ++
        "background:#f4f4f4;font-family:-apple-system,BlinkMacSystemFont,'Segoe UI'," ++
        "Roboto,Helvetica,Arial,sans-serif\">\n  <table role=\"presentation\" " ++
        "cellpadding=\"0\" cellspacing=\"0\" style=\"max-width:560px;margin:0 auto;" ++
        "background:#fff;border-radius:12px;" ++
        "border:1px solid #e2e2e2\">\n    <tr><td style=\"padding:24px\">\n" ++
        "      <span style=\"display:inline-block;padding:4px 10px;border-radius:999px;" ++
        "background:").toList ++
      (if kind = .down then "#b3261e" else "#146c2e").toList ++
      ";color:#fff;font-size:11px;font-weight:700;letter-spacing:.6px\">".toList ++
      (if kind = .down then "DOWN" else "RECOVERED").toList ++
      ("</span>\n      <h1 style=\"margin:16px 0 4px;font-size:18px;line-height:1.35;" ++
        "color:#0a0a0a\">").toList := by
  cases kind
  all_goals
    simp only [head, print_declaration, print_words, print_endTag, print_tag, print_nil,
      written, List.flatMap_cons, List.flatMap_nil, String.toList_append, reduceCtorEq,
      if_true, if_false]
    repeat rw [String.toList_ofList]
    decide +kernel

/-- What the parts of the template around typed texts are printed as. -/
theorem print_parts :
    print htmlText rowHead =
        ("\n        <tr>\n          <td style=\"padding:6px 16px 6px 0;color:#5e5e5e;" ++
          "font-size:13px;white-space:nowrap\">").toList ∧
      print htmlText rowMiddle =
        "</td>\n          <td style=\"padding:6px 0;color:#0a0a0a;font-size:13px\">".toList ∧
      print htmlText rowTail = "</td>\n        </tr>".toList ∧
      print htmlText table =
        ("</h1>\n      <table role=\"presentation\" cellpadding=\"0\" cellspacing=\"0\" " ++
          "style=\"margin-top:16px;width:100%\">").toList ∧
      print htmlText [endTag "table", words "\n      "] ++ "<a href=\"".toList =
        "</table>\n      <a href=\"".toList ∧
      ['"'] ++ (Markup.printAttribute htmlText linkStyle ++ (['>'] ++ print htmlText reason)) =
      ("\" style=\"display:inline-block;margin-top:20px;padding:10px 18px;background:#0a0a0a;" ++
        "color:#ffffff;text-decoration:none;border-radius:8px;font-size:14px;font-weight:600\">" ++
        "Open check</a>\n      <p style=\"margin:20px 0 0;color:#737373;font-size:12px;" ++
        "line-height:1.5\">\n        You are receiving this because a SilenceWatch notification " ++
        "channel for\n        ").toList ∧
      print htmlText tail =
        (" points at this address.\n      </p>\n    </td></tr>\n  </table>\n</body>" ++
          "</html>").toList := by
  refine ⟨?_, ?_, ?_, ?_, ?_, ?_, ?_⟩
  all_goals
    simp only [rowHead, rowMiddle, rowTail, table, linkStyle, reason, tail,
      Markup.printAttribute, Markup.Text.print, print_words, print_endTag, print_tag, print_nil,
      written, List.flatMap_cons, List.flatMap_nil, String.toList_append]
    repeat rw [String.toList_ofList]
    decide +kernel

theorem print_row (field : AlertField) : print htmlText (row field) = htmlRow field := by
  obtain ⟨hhead, hmiddle, htail, -⟩ := print_parts
  rw [row, print_append, print_append, print_append, print_append, print_typed, print_typed,
    hhead, hmiddle, htail]
  rfl

theorem print_rows (fields : List AlertField) :
    print htmlText (fields.flatMap row) = fields.flatMap htmlRow := by
  induction fields with
  | nil => rfl
  | cons field fields ih =>
    rw [List.flatMap_cons, List.flatMap_cons, print_append, print_row, ih]

/-- A link with one more attribute. -/
theorem print_href (url : List Char) (style : List Char × Markup.Text) :
    print htmlText [.start ['a'] [("href".toList, .typed url), style]] =
      "<a href=\"".toList ++ (escapeHtml url ++ ['"']) ++
        (Markup.printAttribute htmlText style ++ ['>']) := by
  simp [escapeHtml_eq, Markup.print, Markup.Piece.print, Markup.printAttribute,
    Markup.Text.print]

theorem print_link (url : List Char) :
    print htmlText (link url) =
      "</table>\n      <a href=\"".toList ++ escapeHtml url ++
      ("\" style=\"display:inline-block;margin-top:20px;padding:10px 18px;background:#0a0a0a;" ++
        "color:#ffffff;text-decoration:none;border-radius:8px;font-size:14px;font-weight:600\">" ++
        "Open check</a>\n      <p style=\"margin:20px 0 0;color:#737373;font-size:12px;" ++
        "line-height:1.5\">\n        You are receiving this because a SilenceWatch notification " ++
        "channel for\n        ").toList := by
  obtain ⟨-, -, -, -, hopen, hclose, -⟩ := print_parts
  rw [link, print_append, print_append, print_href, ← hopen, ← hclose]
  simp only [List.append_assoc]

/-- `renderHtml` prints the page. -/
theorem print_page (alert : Alert) (headline : List Char) (fields : List AlertField) :
    print htmlText (page alert headline fields) = renderHtml alert headline fields := by
  obtain ⟨-, -, -, htable, -, -, htail⟩ := print_parts
  rw [page, print_append, print_append, print_append, print_append, print_append, print_append,
    print_typed, print_typed, print_head, htable, print_rows, print_link, htail,
    ← List.append_assoc, ← List.append_assoc]
  rfl

/-- What the template says itself can be read back. -/
theorem wellFormed_parts :
    (∀ kind, ∀ piece ∈ head kind, piece.WellFormed) ∧ (∀ piece ∈ table, piece.WellFormed) ∧
      (∀ piece ∈ rowHead ++ rowMiddle ++ rowTail, piece.WellFormed) ∧
      (∀ piece ∈ [endTag "table", words "\n      "] ++ reason, piece.WellFormed) ∧
      (Markup.IsName "href".toList ∧ Markup.IsName linkStyle.1 ∧ linkStyle.2.Plain) ∧
      ∀ piece ∈ tail, piece.WellFormed := by
  refine ⟨fun kind => ?_, ?_, ?_, ?_, ?_, ?_⟩
  · cases kind
    all_goals
      simp only [head, tag, words, endTag, List.map_cons, List.map_nil, String.toList_append]
      repeat rw [String.toList_ofList]
      decide +kernel
  all_goals
    simp only [table, rowHead, rowMiddle, rowTail, reason, tail, linkStyle, tag, words, endTag,
      List.map_cons, List.map_nil, String.toList_append]
    repeat rw [String.toList_ofList]
    decide +kernel

theorem wellFormed_row (field : AlertField) : ∀ piece ∈ row field, piece.WellFormed := by
  obtain ⟨-, -, hframe, -⟩ := wellFormed_parts
  intro piece hpiece
  simp only [row, List.mem_append, List.mem_singleton] at hpiece hframe
  rcases hpiece with (((h | rfl) | h) | rfl) | h
  · exact hframe piece (Or.inl (Or.inl h))
  · trivial
  · exact hframe piece (Or.inl (Or.inr h))
  · trivial
  · exact hframe piece (Or.inr h)

theorem wellFormed_link (url : List Char) : ∀ piece ∈ link url, piece.WellFormed := by
  obtain ⟨-, -, -, hframe, ⟨hhref, hstyle⟩, -⟩ := wellFormed_parts
  intro piece hpiece
  simp only [link, List.mem_append, List.mem_singleton] at hpiece hframe
  rcases hpiece with (h | rfl) | h
  · exact hframe piece (Or.inl h)
  · refine ⟨by decide, fun a ha => ?_⟩
    rcases List.mem_pair.mp ha with rfl | rfl
    · exact ⟨hhref, trivial⟩
    · exact hstyle
  · exact hframe piece (Or.inr h)

/-- Every piece of the mail can be read back. -/
theorem wellFormed_page (alert : Alert) (headline : List Char) (fields : List AlertField) :
    ∀ piece ∈ page alert headline fields, piece.WellFormed := by
  obtain ⟨hhead, htable, -, -, -, htail⟩ := wellFormed_parts
  intro piece hpiece
  simp only [page, List.mem_append, List.mem_singleton, List.mem_flatMap] at hpiece
  rcases hpiece with (((((h | rfl) | h) | ⟨field, _, h⟩) | h) | rfl) | h
  · exact hhead alert.kind piece h
  · trivial
  · exact htable piece h
  · exact wellFormed_row field piece h
  · exact wellFormed_link alert.url piece h
  · trivial
  · exact htail piece h

/-- The tags of a list of pieces. -/
def tags (pieces : List Markup.Piece) : List Markup.Tag :=
  Markup.tagsOf (pieces.flatMap Markup.Piece.tokens)

theorem tags_append (pieces pieces' : List Markup.Piece) :
    tags (pieces ++ pieces') = tags pieces ++ tags pieces' := by
  rw [tags, List.flatMap_append, Markup.tagsOf_append]
  rfl

/-- Typed text adds no tag. -/
theorem tags_typed (content : List Char) : tags [.text (.typed content)] = [] := by
  have htokens : [Markup.Piece.text (.typed content)].flatMap Markup.Piece.tokens =
      content.map Markup.Token.char :=
    List.append_nil _
  rw [tags, htokens, Markup.tagsOf_chars]

theorem tags_row (field : AlertField) :
    tags (row field) = tags (rowHead ++ rowMiddle ++ rowTail) := by
  simp only [row, tags_append, tags_typed, List.append_nil]

/-- The tags of a mail of this kind, with this link and this many rows. -/
def frame (kind : AlertKind) (url : List Char) (rows : ℕ) : List Markup.Tag :=
  tags (head kind) ++ tags table ++
    (List.replicate rows (tags (rowHead ++ rowMiddle ++ rowTail))).flatten ++
    tags (link url) ++ tags tail

theorem tags_rows (fields : List AlertField) :
    tags (fields.flatMap row) =
      (List.replicate fields.length (tags (rowHead ++ rowMiddle ++ rowTail))).flatten := by
  induction fields with
  | nil => rfl
  | cons field fields ih =>
    rw [List.flatMap_cons, tags_append, tags_row, ih, List.length_cons, List.replicate_succ,
      List.flatten_cons]

/-- What was typed changes none of the tags. -/
theorem tags_page (alert : Alert) (headline : List Char) (fields : List AlertField) :
    tags (page alert headline fields) = frame alert.kind alert.url fields.length := by
  simp only [page, frame, tags_append, tags_typed, tags_rows, List.append_nil]

end Mail

/-- **The mail is its template, with the typed texts as characters.** Whatever the names, tags
and expressions of an alert are, a reader of the mail finds the page of the template with these
texts in their places, and the tags are those of a mail of this kind with this link and this
many rows. -/
theorem mail_is_template {named : List Char → Option Char} (h : KnowsEscapes named)
    (alert : Alert) (now : ℤ) :
    ∃ tokens, Markup.read named (renderAlert alert now).html = some tokens ∧
      tokens = (Mail.page alert (renderAlert alert now).headline
        (renderAlert alert now).fields).flatMap Markup.Piece.tokens ∧
      Markup.tagsOf tokens =
        Mail.frame alert.kind alert.url (renderAlert alert now).fields.length := by
  refine ⟨_, ?_, rfl, Mail.tags_page _ _ _⟩
  have hpage : (renderAlert alert now).html =
      Markup.print (htmlEscape h).text (Mail.page alert (renderAlert alert now).headline
        (renderAlert alert now).fields) :=
    (Mail.print_page _ _ _).symm
  rw [hpage]
  exact Markup.read_print (Mail.wellFormed_page _ _ _)

/-- The five references of `HTML_ESCAPES`, and no others. -/
def fiveReferences (name : List Char) : Option Char :=
  [("amp".toList, '&'), ("lt".toList, '<'), ("gt".toList, '>'), ("quot".toList, '"'),
    ("#39".toList, '\'')].lookup name

theorem fiveReferences_knows : KnowsEscapes fiveReferences := by
  constructor <;> decide +kernel

/-- An alert of a check whose name is markup. -/
def hostileAlert : Alert where
  kind := .down
  check :=
    { name := "<img src=x onerror=\"alert(1)\">".toList, environment := none,
      tags := ["<script>".toList], lastPingAt := none, nextDueAt := some 0, graceSeconds := 300,
      scheduleType := .cron, periodSeconds := none, cronExpression := some "0 2 * * *".toList,
      timezone := "Europe/Paris".toList }
  projectName := "R&D".toList
  incident := { startedAt := 0, resolvedAt := none, cause := .missed }
  url := "https://silencewatch.com/checks/c1".toList

theorem mail_is_template_hostile :
    ∃ tokens, Markup.read fiveReferences (renderAlert hostileAlert 0).html = some tokens ∧
      tokens = (Mail.page hostileAlert (renderAlert hostileAlert 0).headline
        (renderAlert hostileAlert 0).fields).flatMap Markup.Piece.tokens ∧
      Markup.tagsOf tokens =
        Mail.frame .down hostileAlert.url (renderAlert hostileAlert 0).fields.length :=
  mail_is_template fiveReferences_knows hostileAlert 0

end SilenceWatch
