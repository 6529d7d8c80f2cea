import CatalogueSync.Config.Basic
import CatalogueSync.Issue
import CatalogueSync.Report.Outcome
import CatalogueSync.Report.Style

/-!
# Reports

A report shows the issues of a run and then what the run has done, line by line. Notes are shown
only to users who ask for details, warnings always.
-/

set_option autoImplicit false

namespace CatalogueSync

/-- A line of a report. -/
inductive ReportLine where
  | blank
  /-- The description of an issue. -/
  | issue (i : Issue)
  /-- The place that an issue is about. -/
  | location (place : Text)
  /-- What was done about an issue. -/
  | details (text : String)
  /-- The number of warnings. -/
  | warnings (count : Nat)
  | referenceWritten (r : ReferenceOutcome)
  | referenceUnchanged (r : ReferenceOutcome)
  /-- The reference file would be written. -/
  | referenceOutOfDate (r : ReferenceOutcome)
  /-- The progress of a locale, marked as good or bad. -/
  | locale (good : Bool) (l : LocaleOutcome)
  | fileWritten (file : Text)
  /-- A file of a locale would be written. -/
  | fileOutOfDate (file : Text)
  | upToDate
  /-- The number of files that would be written. -/
  | outOfDate (count : Nat)
  | noLocales
  /-- The progress of a locale as a percentage. -/
  | share (p : Progress)
  | initialised
  deriving DecidableEq

namespace ReportLine

/-- A count and the word for what is counted. -/
def counted (n : Nat) (one many : String) : String :=
  String.ofList (Text.ofNat n) ++ " " ++ if n = 1 then one else many

/-- The mark in front of good news. -/
def success : Span :=
  .styled (.inColour .green) "✓"

/-- The mark in front of bad news. -/
def failure (c : Colour) : Span :=
  .styled (.inColour c) "✘"

/-- What was extracted, in numbers. -/
def extractedText (r : ReferenceOutcome) : String :=
  "Extracted " ++ counted r.messages "message" "messages" ++ " from " ++
    counted r.templates "template" "templates"

/-- How many messages a locale has translated. -/
def progress (p : Progress) : List Span :=
  [⟨.strong, p.locale⟩, .plain ": ", .number p.translated, .plain "/",
    .plain (counted p.total "message" "messages"), .plain " translated"]

/-- What a reconciliation has moved, each kind that occurred. -/
def movements (l : LocaleOutcome) : List String :=
  let unused := String.ofList (Locale.unusedName l.locale)
  let say (n : Nat) (what : String) : List String :=
    if n = 0 then [] else [String.ofList (Text.ofNat n) ++ what]
  say l.pending " pending" ++ say l.revived (" restored from " ++ unused) ++
    say l.demoted (" moved to " ++ unused) ++ say l.discarded " dropped"

/-- The movements in brackets, if there are any. -/
def movementSpans (l : LocaleOutcome) : List Span :=
  if (movements l).isEmpty then []
  else [.plain (" (" ++ String.intercalate ", " (movements l) ++ ")")]

/-- The percentage of translated messages. Of no messages, all are translated. -/
def percent (p : Progress) : Nat :=
  if p.total = 0 then 100 else p.translated * 100 / p.total

/-- The start of the line of a file that would be written. -/
def wouldUpdate : Span :=
  .styled (.strongIn .yellow) "Would update"

/-- The mark of a severity. -/
def severity : Severity → Span
  | .warning => .styled (.strongIn .yellow) Severity.warning.word
  | .note => .styled (.strongIn .cyan) Severity.note.word

/-- The spans of a line. -/
def spans : ReportLine → List Span
  | blank => []
  | issue i =>
    [severity i.severity, .plain ": \"", .quoted i.key, .plain ("\" " ++ i.message ++ "  "),
      .styled (.dimmedIn .cyan) i.rule]
  | location place => [.plain "  ", .styled (.inColour .blue) "-->", .plain " ", .quoted place]
  | details text =>
    [.plain "   ", .styled (.inColour .blue) "=", .plain " ", .styled .strong "note:", .plain " ",
      .plain text]
  | warnings count =>
    [failure .yellow, .plain " ", .number count, .plain " ",
      .styled (.inColour .yellow) (if count = 1 then "warning" else "warnings")]
  | referenceWritten r =>
    [success, .plain " ", .styled (.inColour .green) (extractedText r), .plain " into ",
      .quoted r.file]
  | referenceUnchanged r =>
    [success, .plain " ", .styled (.inColour .green) (extractedText r), .plain " (",
      .quoted r.file, .plain " unchanged)"]
  | referenceOutOfDate r =>
    [wouldUpdate, .plain " ", .quoted r.file, .plain " (", .plain (extractedText r), .plain ")"]
  | locale good l =>
    (if good then success else failure .red) :: .plain " " :: progress l.toProgress ++
      movementSpans l
  | fileWritten file =>
    [.plain "  ", .styled (.strongIn .green) "Updated", .plain " ", .quoted file]
  | fileOutOfDate file => [.plain "  ", wouldUpdate, .plain " ", .quoted file]
  | upToDate =>
    [success, .plain " ", .styled (.inColour .green) "All catalogues are up to date"]
  | outOfDate count =>
    [failure .red, .plain " ", .number count, .plain " catalogue ",
      .plain (if count = 1 then "file is" else "files are"), .plain " out of date. Run without ",
      .styled (.inColour .cyan) "--check", .plain " to update ",
      .plain (if count = 1 then "it" else "them"), .plain "."]
  | noLocales => [.plain "No locale catalogues found"]
  | share p =>
    progress p ++
      [.plain " (",
        ⟨.inColour (if p.translated = p.total then .green else .yellow),
          Text.ofNat (percent p) ++ ['%']⟩,
        .plain ")"]
  | initialised =>
    [success, .plain " ",
      .styled (.inColour .green) ("Created " ++ String.ofList Config.fileName)]

end ReportLine

/-- A report, as its lines. -/
abbrev Report := List ReportLine

namespace Report

/-- The lines of one issue. -/
def ofIssue (i : Issue) : Report :=
  .issue i :: (i.location?.map ReportLine.location).toList ++
    (i.details?.map ReportLine.details).toList

/-- The lines of the issues that are shown, and their count. -/
def ofIssues (verbose : Bool) (issues : List Issue) : Report :=
  let shown := issues.filter fun i => verbose || i.severity = .warning
  let warnings := shown.countP fun i => i.severity = .warning
  if shown.isEmpty then []
  else shown.flatMap ofIssue ++ (if warnings = 0 then [] else [.warnings warnings]) ++ [.blank]

/-- The line of the reference catalogue. -/
def ofReference (checkOnly : Bool) (r : ReferenceOutcome) : ReportLine :=
  if r.changed then if checkOnly then .referenceOutOfDate r else .referenceWritten r
  else .referenceUnchanged r

/-- The lines of a locale. -/
def ofLocale (checkOnly : Bool) (l : LocaleOutcome) : Report :=
  .locale (!checkOnly || l.changedFiles.isEmpty) l ::
    l.changedFiles.map (if checkOnly then .fileOutOfDate else .fileWritten)

/-- The lines that sum up what would be written. -/
def ofChangedCount (count : Nat) : Report :=
  if count = 0 then [.upToDate] else [.blank, .outOfDate count]

/-- The lines of what a run has done. -/
def ofOutcome : Outcome → Report
  | .extracted r => [ofReference false r]
  | .synchronised checkOnly r ls =>
    ofReference checkOnly r :: ls.flatMap (ofLocale checkOnly) ++
      if checkOnly then ofChangedCount (Outcome.changedCount r ls) else []
  | .merged l => ofLocale false l
  | .counted ps => if ps.isEmpty then [.noLocales] else ps.map .share
  | .initialised => [.initialised]

/-- The report of a run. -/
def ofRun (verbose : Bool) (issues : List Issue) (outcome : Outcome) : Report :=
  ofIssues verbose issues ++ ofOutcome outcome

/-- A report as it is printed. -/
def render (colours : Bool) (r : Report) : Text :=
  r.flatMap fun line => Span.renderLine colours line.spans

end Report

end CatalogueSync
