import CatalogueSync.Report.Basic
import Mathlib.Data.List.Basic

/-!
# Printed lines

What a report prints, letter by letter and apart from the spans that it is made of. A line is what is
printed at once: names and keys of the user's can hold line breaks of their own. The issues of a
synchronisation, what it did and the closing words of a check are the texts listed here
(`Report.render_synchronised`), and so are the shares that are counted (`Report.render_counted`).
The lines of a check that name a file are as many as its closing words say
(`Printed.countP_synchronised`).
-/

set_option autoImplicit false

namespace CatalogueSync

namespace Printed

/-- A text in the style of some codes. -/
def painted (colours : Bool) (codes text : String) : Text :=
  if colours then ("\x1b[" ++ codes ++ "m" ++ text ++ "\x1b[0m").toList else text.toList

/-- The name of a locale in bold letters, which a reset in the name does not end. -/
def name (colours : Bool) (locale : Text) : Text :=
  if colours then
    "\x1b[1m".toList ++ Span.restart "\x1b[1m".toList 0 locale ++ "\x1b[0m".toList
  else locale

/-- A number of things of one kind. -/
def amount (n : Nat) (one : String) : String :=
  String.ofList (Text.ofNat n) ++ " " ++ one ++ if n = 1 then "" else "s"

/-- What was extracted. -/
def extracted (r : ReferenceOutcome) : String :=
  "Extracted " ++ amount r.messages "message" ++ " from " ++ amount r.templates "template"

/-- The line of the reference. -/
def reference (colours checkOnly : Bool) (r : ReferenceOutcome) : Text :=
  if r.changed then
    if checkOnly then
      painted colours "1;33" "Would update" ++ " ".toList ++ r.file ++
        (" (" ++ extracted r ++ ")\n").toList
    else
      painted colours "32" "✓" ++ " ".toList ++ painted colours "32" (extracted r) ++
        " into ".toList ++ r.file ++ "\n".toList
  else
    painted colours "32" "✓" ++ " ".toList ++ painted colours "32" (extracted r) ++ " (".toList ++
      r.file ++ " unchanged)\n".toList

/-- How many messages of a locale are translated. -/
def progress (colours : Bool) (p : Progress) : Text :=
  name colours p.locale ++
    (": " ++ String.ofList (Text.ofNat p.translated) ++ "/" ++ amount p.total "message").toList ++
    " translated".toList

/-- What happened to the messages of a locale, as far as anything did. -/
def movements (l : LocaleOutcome) : List Text :=
  (if l.pending = 0 then [] else [Text.ofNat l.pending ++ " pending".toList]) ++
    (if l.revived = 0 then []
      else [Text.ofNat l.revived ++ " restored from ".toList ++ l.locale ++ ".unused".toList]) ++
    (if l.demoted = 0 then []
      else [Text.ofNat l.demoted ++ " moved to ".toList ++ l.locale ++ ".unused".toList]) ++
    (if l.discarded = 0 then [] else [Text.ofNat l.discarded ++ " dropped".toList])

/-- The line of a locale. -/
def locale (colours good : Bool) (l : LocaleOutcome) : Text :=
  (if good then painted colours "32" "✓" else painted colours "31" "✘") ++ " ".toList ++
    progress colours l.toProgress ++
    (if movements l = [] then []
      else " (".toList ++ ", ".toList.intercalate (movements l) ++ ")".toList) ++ "\n".toList

/-- The line of a file. -/
def file (colours checkOnly : Bool) (file : Text) : Text :=
  "  ".toList ++
    (if checkOnly then painted colours "1;33" "Would update"
      else painted colours "1;32" "Updated") ++ " ".toList ++ file ++ "\n".toList

/-- The last line of a check that found nothing. -/
def upToDate (colours : Bool) : Text :=
  painted colours "32" "✓" ++ " ".toList ++ painted colours "32" "All catalogues are up to date" ++
    "\n".toList

/-- The last line of a check that found some files. -/
def outOfDate (colours : Bool) (n : Nat) : Text :=
  painted colours "31" "✘" ++
    (" " ++ String.ofList (Text.ofNat n) ++ " catalogue " ++
      (if n = 1 then "file is" else "files are") ++ " out of date. Run without ").toList ++
    painted colours "36" "--check" ++
    (" to update " ++ if n = 1 then "it" else "them").toList ++ ".\n".toList

/-- The last lines of a check that found some number of files. -/
def closing (colours : Bool) (n : Nat) : List Text :=
  if n = 0 then [upToDate colours] else ["\n".toList, outOfDate colours n]

/-- The lines of an issue. -/
def issue (colours : Bool) (i : Issue) : List Text :=
  let severity := match i.severity with
    | .warning => painted colours "1;33" "warning"
    | .note => painted colours "1;36" "note"
  (severity ++ ": \"".toList ++ i.key ++ ("\" " ++ i.message ++ "  ").toList ++
      painted colours "2;36" i.rule ++ "\n".toList) ::
    (i.location?.map fun place =>
      "  ".toList ++ painted colours "34" "-->" ++ " ".toList ++ place ++ "\n".toList).toList ++
    (i.details?.map fun details =>
      "   ".toList ++ painted colours "34" "=" ++ " ".toList ++ painted colours "1" "note:" ++
        (" " ++ details ++ "\n").toList).toList

/-- The line that counts warnings. -/
def warnings (colours : Bool) (n : Nat) : Text :=
  painted colours "33" "✘" ++ (" " ++ String.ofList (Text.ofNat n) ++ " ").toList ++
    painted colours "33" (if n = 1 then "warning" else "warnings") ++ "\n".toList

/-- The lines of all issues. Notes are for users who ask for details. -/
def issues (colours verbose : Bool) (is : List Issue) : List Text :=
  let shown := is.filter fun i => verbose || i.severity = .warning
  let n := shown.countP fun i => i.severity = .warning
  if shown = [] then []
  else shown.flatMap (issue colours) ++ (if n = 0 then [] else [warnings colours n]) ++
    ["\n".toList]

/-- The lines of a synchronisation. A check counts the files that it names. -/
def synchronised (colours verbose checkOnly : Bool) (is : List Issue) (r : ReferenceOutcome)
    (ls : List LocaleOutcome) : List Text :=
  let count := (if r.changed then 1 else 0) + (ls.flatMap fun l => l.changedFiles).length
  issues colours verbose is ++ (reference colours checkOnly r ::
    (ls.flatMap fun l => locale colours (!checkOnly || l.changedFiles.isEmpty) l ::
      l.changedFiles.map (file colours checkOnly)) ++
    if checkOnly then closing colours count else [])

/-- How the line of a locale ends that is given as a share. -/
def shareEnd (colours : Bool) (translated total : Nat) : Text :=
  let percent := if total = 0 then 100 else translated * 100 / total
  " (".toList ++
    painted colours (if translated = total then "32" else "33")
      (String.ofList (Text.ofNat percent) ++ "%") ++ ")\n".toList

/-- The lines of statistics. -/
def counted (colours : Bool) (ps : List Progress) : List Text :=
  if ps = [] then ["No locale catalogues found\n".toList]
  else ps.map fun p => progress colours p ++ shareEnd colours p.translated p.total

/-- Whether a line says that a file would be written. -/
def saysWouldUpdate (colours : Bool) (line : Text) : Bool :=
  (painted colours "1;33" "Would update").isPrefixOf (line.dropWhile fun c => c = ' ')

end Printed

/-! ## The lines of a report are printed so -/

theorem Text.escape_notMem_ofNat (n : Nat) : '\x1b' ∉ Text.ofNat n := by
  intro hmem
  have hdigit := isDigit_of_mem_ofNat hmem
  revert hdigit
  decide

namespace Span

variable {colours : Bool}

theorem restart_of_notMem {start s : Text} (h : '\x1b' ∉ s) : restart start 0 s = s := by
  induction s with
  | nil => rfl
  | cons c s ih =>
    rw [List.mem_cons, not_or] at h
    have hreset : reset.isPrefixOf (c :: s) = false := by
      rw [reset, List.isPrefixOf, beq_eq_false_iff_ne.2 h.1, Bool.false_and]
    rw [restart, hreset, if_neg Bool.false_ne_true, ih h.2]

theorem render_of_notMem {style : Style} {s : String} (codes : String)
    (hcodes : style.codes ≠ []) (hcode : String.intercalate ";" style.codes = codes)
    (h : '\x1b' ∉ s.toList) : render colours (styled style s) = Printed.painted colours codes s := by
  subst hcode
  have hne : style.codes.isEmpty = false := by simpa using hcodes
  cases colours with
  | false => rfl
  | true => simp [render, styled, restart_of_notMem h, hne, Style.start, Printed.painted, reset]

theorem render_plain (s : String) : render colours (plain s) = s.toList := by
  cases colours <;> rfl

theorem render_quoted (s : Text) : render colours (quoted s) = s := by
  cases colours <;> rfl

theorem render_number (n : Nat) : render colours (number n) = Text.ofNat n := by
  cases colours <;> rfl

theorem render_strong (s : Text) : render colours ⟨.strong, s⟩ = Printed.name colours s := by
  have hstart : Style.strong.start = "\x1b[1m".toList := by decide
  cases colours with
  | false => rfl
  | true =>
    have hcodes : Style.strong.codes.isEmpty = false := rfl
    simp [render, Printed.name, hstart, hcodes, reset]

end Span

theorem Printed.shareEnd_eq (colours : Bool) (p : Progress) :
    shareEnd colours p.translated p.total = " (".toList ++
      painted colours (if p.translated = p.total then "32" else "33")
        (String.ofList (Text.ofNat (ReportLine.percent p)) ++ "%") ++ ")\n".toList :=
  rfl

namespace ReportLine

open Printed

variable {colours : Bool}

theorem counted_eq (n : Nat) (one : String) : counted n one (one ++ "s") = amount n one := by
  unfold counted amount
  split <;> simp [String.append_assoc]

theorem extractedText_eq (r : ReferenceOutcome) : extractedText r = extracted r := by
  have hmessages := counted_eq r.messages "message"
  have htemplates := counted_eq r.templates "template"
  rw [extracted, ← hmessages, ← htemplates]
  rfl

theorem escape_notMem_extracted (r : ReferenceOutcome) : '\x1b' ∉ (extracted r).toList := by
  have hamount (n : Nat) {one : String} (hone : '\x1b' ∉ one.toList) :
      '\x1b' ∉ (amount n one).toList := by
    unfold amount
    split <;> simp [Text.escape_notMem_ofNat, hone]
  simp [extracted, hamount]

theorem render_success : Span.render colours success = painted colours "32" "✓" :=
  Span.render_of_notMem "32" (by decide) (by decide) (by decide)

theorem render_wouldUpdate :
    Span.render colours wouldUpdate = painted colours "1;33" "Would update" :=
  Span.render_of_notMem "1;33" (by decide) (by decide) (by decide)

theorem renderLine_ofReference (checkOnly : Bool) (r : ReferenceOutcome) :
    Span.renderLine colours (Report.ofReference checkOnly r).spans =
      reference colours checkOnly r := by
  have hextracted : Span.render colours (.styled (.inColour .green) (extracted r)) =
      painted colours "32" (extracted r) :=
    Span.render_of_notMem "32" (by decide) (by decide) (escape_notMem_extracted r)
  unfold Report.ofReference reference
  split
  · cases checkOnly <;>
      simp [spans, Span.renderLine, extractedText_eq, render_success, render_wouldUpdate,
        hextracted, Span.render_plain, Span.render_quoted]
  · simp [spans, Span.renderLine, extractedText_eq, render_success, hextracted, Span.render_plain,
      Span.render_quoted]

theorem flatMap_progress (p : Progress) :
    (ReportLine.progress p).flatMap (Span.render colours) = Printed.progress colours p := by
  have hmessages : counted p.total "message" "messages" = amount p.total "message" :=
    counted_eq p.total "message"
  simp [ReportLine.progress, Printed.progress, Span.render_plain, Span.render_number,
    Span.render_strong, hmessages]

theorem map_movements (l : LocaleOutcome) :
    (ReportLine.movements l).map String.toList = Printed.movements l := by
  have hunused : Locale.unusedName l.locale = l.locale ++ ".unused".toList := rfl
  simp only [ReportLine.movements, Printed.movements, hunused, List.map_append]
  congr 1
  · congr 1
    · congr 1 <;> split <;> simp
    · split <;> simp
  · split <;> simp

theorem flatMap_movementSpans (l : LocaleOutcome) :
    (movementSpans l).flatMap (Span.render colours) =
      if Printed.movements l = [] then []
      else " (".toList ++ ", ".toList.intercalate (Printed.movements l) ++ ")".toList := by
  rw [movementSpans, ← map_movements]
  cases hmovements : ReportLine.movements l with
  | nil => rfl
  | cons what more => simp [Span.render_plain, String.toList_intercalate]

theorem renderLine_locale (good : Bool) (l : LocaleOutcome) :
    Span.renderLine colours (ReportLine.locale good l).spans = Printed.locale colours good l := by
  have hfailure : Span.render colours (failure .red) = painted colours "31" "✘" :=
    Span.render_of_notMem "31" (by decide) (by decide) (by decide)
  rw [spans, Span.renderLine, List.cons_append, List.cons_append, List.flatMap_cons,
    List.flatMap_cons, List.flatMap_append, flatMap_progress, flatMap_movementSpans, Printed.locale]
  cases good <;> simp [hfailure, render_success, Span.render_plain]

theorem renderLine_file (checkOnly : Bool) (file : Text) :
    Span.renderLine colours
        (if checkOnly then ReportLine.fileOutOfDate file else .fileWritten file).spans =
      Printed.file colours checkOnly file := by
  have hupdated : Span.render colours (.styled (.strongIn .green) "Updated") =
      painted colours "1;32" "Updated" :=
    Span.render_of_notMem "1;32" (by decide) (by decide) (by decide)
  cases checkOnly <;>
    simp [spans, Span.renderLine, Printed.file, hupdated, render_wouldUpdate, Span.render_plain,
      Span.render_quoted]

theorem renderLine_upToDate :
    Span.renderLine colours upToDate.spans = Printed.upToDate colours := by
  have htext : Span.render colours (.styled (.inColour .green) "All catalogues are up to date") =
      painted colours "32" "All catalogues are up to date" :=
    Span.render_of_notMem "32" (by decide) (by decide) (by decide)
  simp [spans, Span.renderLine, Printed.upToDate, render_success, htext, Span.render_plain]

theorem renderLine_outOfDate (n : Nat) :
    Span.renderLine colours (outOfDate n).spans = Printed.outOfDate colours n := by
  have hfailure : Span.render colours (failure .red) = painted colours "31" "✘" :=
    Span.render_of_notMem "31" (by decide) (by decide) (by decide)
  have hcheck : Span.render colours (.styled (.inColour .cyan) "--check") =
      painted colours "36" "--check" :=
    Span.render_of_notMem "36" (by decide) (by decide) (by decide)
  simp [spans, Span.renderLine, Printed.outOfDate, hfailure, hcheck, Span.render_plain,
    Span.render_number]

theorem renderLine_warnings (n : Nat) :
    Span.renderLine colours (warnings n).spans = Printed.warnings colours n := by
  have hfailure : Span.render colours (failure .yellow) = painted colours "33" "✘" :=
    Span.render_of_notMem "33" (by decide) (by decide) (by decide)
  have hword : Span.render colours
      (.styled (.inColour .yellow) (if n = 1 then "warning" else "warnings")) =
        painted colours "33" (if n = 1 then "warning" else "warnings") := by
    split <;> exact Span.render_of_notMem "33" (by decide) (by decide) (by decide)
  simp [spans, Span.renderLine, Printed.warnings, hfailure, hword, Span.render_plain,
    Span.render_number]

theorem render_ofIssue (i : Issue) :
    (Report.ofIssue i).map (fun line => Span.renderLine colours line.spans) =
      Printed.issue colours i := by
  have hwarning : Span.render colours (severity .warning) = painted colours "1;33" "warning" :=
    Span.render_of_notMem "1;33" (by decide) (by decide) (by decide)
  have hnote : Span.render colours (severity .note) = painted colours "1;36" "note" :=
    Span.render_of_notMem "1;36" (by decide) (by decide) (by decide)
  have hrule : Span.render colours (.styled (.dimmedIn .cyan) i.rule) =
      painted colours "2;36" i.rule :=
    Span.render_of_notMem "2;36" (by decide) (by decide)
      (by cases i <;> simp only [Issue.rule] <;> decide)
  have harrow : Span.render colours (.styled (.inColour .blue) "-->") =
      painted colours "34" "-->" :=
    Span.render_of_notMem "34" (by decide) (by decide) (by decide)
  have hequals : Span.render colours (.styled (.inColour .blue) "=") = painted colours "34" "=" :=
    Span.render_of_notMem "34" (by decide) (by decide) (by decide)
  have hword : Span.render colours (.styled .strong "note:") = painted colours "1" "note:" :=
    Span.render_of_notMem "1" (by decide) (by decide) (by decide)
  have hseverity : Span.render colours (severity i.severity) =
      match i.severity with
      | .warning => painted colours "1;33" "warning"
      | .note => painted colours "1;36" "note" := by
    cases i.severity <;> assumption
  cases hplace : i.location? <;> cases hdetails : i.details? <;>
    simp [Report.ofIssue, Printed.issue, spans, Span.renderLine, hplace, hdetails, hseverity, hrule,
      harrow, hequals, hword, Span.render_plain, Span.render_quoted]

theorem renderLine_share (p : Progress) :
    Span.renderLine colours (share p).spans =
      Printed.progress colours p ++ Printed.shareEnd colours p.translated p.total := by
  have hshare : Span.render colours
      ⟨.inColour (if p.translated = p.total then .green else .yellow),
        Text.ofNat (percent p) ++ ['%']⟩ =
      painted colours (if p.translated = p.total then "32" else "33")
        (String.ofList (Text.ofNat (percent p)) ++ "%") := by
    have hescape : '\x1b' ∉ (String.ofList (Text.ofNat (percent p)) ++ "%").toList := by
      simp [Text.escape_notMem_ofNat]
    have hspan (style : Style) : (⟨style, Text.ofNat (percent p) ++ ['%']⟩ : Span) =
        .styled style (String.ofList (Text.ofNat (percent p)) ++ "%") := by
      simp [Span.styled]
    rw [hspan]
    split
    · exact Span.render_of_notMem "32" (by decide) (by decide) hescape
    · exact Span.render_of_notMem "33" (by decide) (by decide) hescape
  rw [spans, Span.renderLine, List.flatMap_append, flatMap_progress, List.append_assoc,
    Printed.shareEnd_eq]
  simp [hshare, Span.render_plain]

end ReportLine

namespace Report

variable {colours verbose : Bool}

theorem render_eq_flatten (lines : Report) :
    lines.render colours = (lines.map fun line => Span.renderLine colours line.spans).flatten :=
  List.flatMap_def ..

theorem map_ofIssues (is : List Issue) :
    (ofIssues verbose is).map (fun line => Span.renderLine colours line.spans) =
      Printed.issues colours verbose is := by
  unfold ofIssues Printed.issues
  simp only [List.isEmpty_iff]
  split
  · rfl
  · rw [List.map_append, List.map_append, List.map_flatMap]
    simp only [ReportLine.render_ofIssue]
    congr 2
    split
    · rfl
    · rw [List.map_singleton, ReportLine.renderLine_warnings]

theorem map_ofLocale (checkOnly : Bool) (l : LocaleOutcome) :
    (ofLocale checkOnly l).map (fun line => Span.renderLine colours line.spans) =
      Printed.locale colours (!checkOnly || l.changedFiles.isEmpty) l ::
        l.changedFiles.map (Printed.file colours checkOnly) := by
  rw [ofLocale, List.map_cons, List.map_map, ReportLine.renderLine_locale]
  refine congrArg _ (List.map_congr_left fun file _ => ?_)
  rw [← ReportLine.renderLine_file]
  cases checkOnly <;> rfl

theorem map_ofChangedCount (count : Nat) :
    (ofChangedCount count).map (fun line => Span.renderLine colours line.spans) =
      Printed.closing colours count := by
  unfold ofChangedCount Printed.closing
  split
  · rw [List.map_singleton, ReportLine.renderLine_upToDate]
  · rw [List.map_cons, List.map_singleton, ReportLine.renderLine_outOfDate]
    rfl

/-- What is printed of a synchronisation and of a check. -/
theorem render_synchronised (checkOnly : Bool) (is : List Issue) (r : ReferenceOutcome)
    (ls : List LocaleOutcome) :
    (ofRun verbose is (.synchronised checkOnly r ls)).render colours =
      (Printed.synchronised colours verbose checkOnly is r ls).flatten := by
  have hlocales : (ls.flatMap (ofLocale checkOnly)).map
      (fun line => Span.renderLine colours line.spans) =
      ls.flatMap fun l => Printed.locale colours (!checkOnly || l.changedFiles.isEmpty) l ::
        l.changedFiles.map (Printed.file colours checkOnly) := by
    rw [List.map_flatMap]
    simp only [map_ofLocale]
  have hclosing : (if checkOnly then ofChangedCount (Outcome.changedCount r ls) else []).map
      (fun line => Span.renderLine colours line.spans) =
      if checkOnly then Printed.closing colours (Outcome.changedCount r ls) else [] := by
    cases checkOnly with
    | false => rfl
    | true => exact map_ofChangedCount _
  rw [render_eq_flatten, ofRun, ofOutcome, List.map_append, List.map_append, List.map_cons,
    map_ofIssues, ReportLine.renderLine_ofReference, hlocales, hclosing, Printed.synchronised,
    Outcome.changedCount]

/-- What is printed of statistics. -/
theorem render_counted (ps : List Progress) :
    (ofRun verbose [] (.counted ps)).render colours = (Printed.counted colours ps).flatten := by
  have hissues : ofIssues verbose [] = [] := rfl
  rw [render_eq_flatten, ofRun, hissues, List.nil_append, ofOutcome]
  cases ps with
  | nil => simp [Printed.counted, ReportLine.spans, Span.renderLine, Span.render_plain]
  | cons p ps =>
    simp [Printed.counted, ReportLine.renderLine_share, Function.comp_def]

end Report

/-! ## The closing words of a check -/

namespace Printed

variable {colours verbose : Bool} {is : List Issue} {r : ReferenceOutcome}
  {ls : List LocaleOutcome} {line : Text} {n : Nat}

/-- The closing words of a check. -/
def IsClosing (colours : Bool) (line : Text) : Prop :=
  line = upToDate colours ∨ ∃ n, line = outOfDate colours n

theorem outOfDate_inj {m : Nat} (h : outOfDate colours m = outOfDate colours n) : m = n := by
  -- the digits are what stands between the mark and the words
  have hcut (k : Nat) : ((outOfDate colours k).drop
      ((painted colours "31" "✘").length + 1)).takeWhile Char.isDigit = Text.ofNat k := by
    have hdigits : ∀ c ∈ Text.ofNat k, c.isDigit = true := fun _ => Text.isDigit_of_mem_ofNat
    rw [outOfDate]
    simp [List.takeWhile_append_of_pos hdigits]
  exact Text.ofNat_inj (by rw [← hcut m, h, hcut n])

/-- Lines that end differently are different. -/
theorem ne_of_ends {a b : Text} {c d : Char} (ha : [c, '\n'] <:+ a) (hb : [d, '\n'] <:+ b)
    (hne : c ≠ d) : a ≠ b := by
  rintro rfl
  have hends := List.suffix_of_suffix_length_le ha hb (Nat.le_refl 2)
  exact hne (by simpa using hends.eq_of_length rfl)

theorem outOfDate_ends (n : Nat) : ['.', '\n'] <:+ outOfDate colours n :=
  List.suffix_append ..

theorem upToDate_ends : [if colours then 'm' else 'e', '\n'] <:+ upToDate colours := by
  cases colours <;> decide

theorem warnings_ends (n : Nat) :
    [if colours then 'm' else if n = 1 then 'g' else 's', '\n'] <:+ warnings colours n := by
  have hword : [if colours then 'm' else if n = 1 then 'g' else 's', '\n'] <:+
      painted colours "33" (if n = 1 then "warning" else "warnings") ++ "\n".toList := by
    cases colours <;> by_cases h : n = 1 <;> simp only [h, if_true, if_false] <;> decide
  rw [warnings, List.append_assoc]
  exact hword.trans (List.suffix_append ..)

theorem locale_ends (good : Bool) (l : LocaleOutcome) :
    [if movements l = [] then 'd' else ')', '\n'] <:+ locale colours good l := by
  rw [locale]
  split
  · have hword : ['d', '\n'] <:+ " translated".toList ++ "\n".toList := by decide
    rw [List.append_nil, progress, ← List.append_assoc, List.append_assoc]
    exact hword.trans (List.suffix_append ..)
  · have hbracket : [')', '\n'] <:+ ")".toList ++ "\n".toList := by decide
    rw [← List.append_assoc, List.append_assoc]
    exact hbracket.trans (List.suffix_append ..)

/-- The lines of an issue name no file and are no closing words. -/
theorem of_mem_issue {i : Issue} (h : line ∈ issue colours i) :
    saysWouldUpdate colours line = false ∧ ¬ IsClosing colours line := by
  simp only [issue, List.cons_append, List.mem_cons, List.mem_append, Option.mem_toList,
    Option.map_eq_some_iff] at h
  rcases h with rfl | ⟨place, -, rfl⟩ | ⟨details, -, rfl⟩
  · cases i.severity <;> cases colours <;>
      simp [saysWouldUpdate, IsClosing, upToDate, outOfDate, painted, List.isPrefixOf]
  all_goals
    cases colours <;>
      simp [saysWouldUpdate, IsClosing, upToDate, outOfDate, painted, List.isPrefixOf]

theorem saysWouldUpdate_warnings (n : Nat) :
    saysWouldUpdate colours (warnings colours n) = false := by
  cases colours <;> simp [saysWouldUpdate, warnings, painted, List.isPrefixOf]

/-- Without colours the line that counts warnings begins like the closing words of a check. -/
theorem not_isClosing_warnings (n : Nat) : ¬ IsClosing colours (warnings colours n) := by
  rintro (heq | ⟨k, heq⟩)
  · revert heq
    cases colours <;> simp [warnings, upToDate, painted]
  · refine ne_of_ends (warnings_ends n) (outOfDate_ends k) ?_ heq
    split
    · decide
    · split <;> decide

theorem of_mem_issues (h : line ∈ issues colours verbose is) :
    saysWouldUpdate colours line = false ∧ ¬ IsClosing colours line := by
  unfold issues at h
  simp only at h
  split at h
  · cases h
  · simp only [List.mem_append, List.mem_flatMap, List.mem_singleton] at h
    rcases h with (⟨i, -, hissue⟩ | hwarnings) | rfl
    · exact of_mem_issue hissue
    · split at hwarnings
      · cases hwarnings
      · obtain rfl := List.mem_singleton.1 hwarnings
        exact ⟨saysWouldUpdate_warnings _, not_isClosing_warnings _⟩
    · cases colours <;>
        simp [saysWouldUpdate, IsClosing, upToDate, outOfDate, painted, List.isPrefixOf]

theorem not_isClosing_reference (r : ReferenceOutcome) :
    ¬ IsClosing colours (reference colours true r) := by
  unfold IsClosing reference
  cases r.changed <;> cases colours <;> simp [upToDate, outOfDate, painted, extracted]

/-- The name of a locale can be anything, but its line does not end like closing words. -/
theorem not_isClosing_locale (good : Bool) (l : LocaleOutcome) :
    ¬ IsClosing colours (locale colours good l) := by
  rintro (heq | ⟨n, heq⟩)
  · refine ne_of_ends (locale_ends good l) upToDate_ends ?_ heq
    cases colours <;> split <;> decide
  · refine ne_of_ends (locale_ends good l) (outOfDate_ends n) ?_ heq
    split <;> decide

theorem not_isClosing_file (f : Text) : ¬ IsClosing colours (file colours true f) := by
  unfold IsClosing
  cases colours <;> simp [file, upToDate, outOfDate, painted]

theorem saysWouldUpdate_reference (r : ReferenceOutcome) :
    saysWouldUpdate colours (reference colours true r) = r.changed := by
  unfold reference
  cases r.changed <;> cases colours <;> simp [saysWouldUpdate, painted, List.isPrefixOf]

theorem saysWouldUpdate_locale (good : Bool) (l : LocaleOutcome) :
    saysWouldUpdate colours (locale colours good l) = false := by
  cases colours <;> cases good <;> simp [saysWouldUpdate, locale, painted, List.isPrefixOf]

theorem saysWouldUpdate_file (f : Text) : saysWouldUpdate colours (file colours true f) = true := by
  cases colours <;> simp [saysWouldUpdate, file, painted, List.isPrefixOf]

theorem saysWouldUpdate_of_isClosing (h : IsClosing colours line) :
    saysWouldUpdate colours line = false := by
  rcases h with rfl | ⟨n, rfl⟩ <;> cases colours <;>
    simp [saysWouldUpdate, upToDate, outOfDate, painted, List.isPrefixOf]

theorem isClosing_or_eq_of_mem_closing (h : line ∈ closing colours n) :
    IsClosing colours line ∨ line = "\n".toList := by
  unfold closing at h
  split at h
  · exact .inl (.inl (List.mem_singleton.1 h))
  · rcases List.mem_cons.1 h with heq | h
    · exact .inr heq
    · exact .inl (.inr ⟨n, List.mem_singleton.1 h⟩)

theorem synchronised_check (is : List Issue) (r : ReferenceOutcome) (ls : List LocaleOutcome) :
    synchronised colours verbose true is r ls =
      issues colours verbose is ++ (reference colours true r ::
        (ls.flatMap fun l => locale colours l.changedFiles.isEmpty l ::
          l.changedFiles.map (file colours true)) ++
        closing colours (Outcome.changedCount r ls)) :=
  rfl

/-- A check names as many files as would be written. -/
theorem countP_synchronised (is : List Issue) (r : ReferenceOutcome) (ls : List LocaleOutcome) :
    (synchronised colours verbose true is r ls).countP (saysWouldUpdate colours) =
      Outcome.changedCount r ls := by
  have hissues : (issues colours verbose is).countP (saysWouldUpdate colours) = 0 :=
    List.countP_eq_zero.2 fun line hline => by simp [(of_mem_issues hline).1]
  have hlocale (l : LocaleOutcome) :
      (locale colours l.changedFiles.isEmpty l ::
        l.changedFiles.map (file colours true)).countP (saysWouldUpdate colours) =
          l.changedFiles.length := by
    rw [List.countP_cons_of_neg (by simp [saysWouldUpdate_locale]), List.countP_map,
      List.countP_eq_length]
    exact fun f _ => saysWouldUpdate_file f
  have hclosing : (closing colours (Outcome.changedCount r ls)).countP (saysWouldUpdate colours) =
      0 := by
    refine List.countP_eq_zero.2 fun line hline => ?_
    rcases isClosing_or_eq_of_mem_closing hline with hclosing | rfl
    · simp [saysWouldUpdate_of_isClosing hclosing]
    · cases colours <;> decide
  rw [synchronised_check, List.countP_append, List.countP_append, List.countP_cons,
    List.countP_flatMap, hissues, hclosing, saysWouldUpdate_reference, Outcome.changedCount,
    List.length_flatMap]
  simp only [Function.comp_def, hlocale]
  omega

/-- Only the end of a check says whether the catalogues are up to date. -/
theorem mem_synchronised_iff (h : IsClosing colours line) :
    line ∈ synchronised colours verbose true is r ls ↔
      line ∈ closing colours (Outcome.changedCount r ls) := by
  have hissues : line ∉ issues colours verbose is := fun hmem => (of_mem_issues hmem).2 h
  have hreference : line ≠ reference colours true r := by
    rintro rfl
    exact not_isClosing_reference r h
  have hlocale (good : Bool) (l : LocaleOutcome) : line ≠ locale colours good l := by
    rintro rfl
    exact not_isClosing_locale good l h
  have hfile (f : Text) : file colours true f ≠ line := by
    rintro rfl
    exact not_isClosing_file f h
  rw [synchronised_check]
  simp [hissues, hreference, hlocale, hfile]

theorem upToDate_mem_synchronised_iff :
    upToDate colours ∈ synchronised colours verbose true is r ls ↔
      Outcome.changedCount r ls = 0 := by
  rw [mem_synchronised_iff (.inl rfl), closing]
  split
  · simp [*]
  · rename_i hcount
    refine iff_of_false (fun hmem => ?_) hcount
    rcases List.mem_cons.1 hmem with heq | hmem
    · revert heq
      cases colours <;> decide
    · refine ne_of_ends upToDate_ends (outOfDate_ends _) ?_ (List.mem_singleton.1 hmem)
      cases colours <;> decide

theorem outOfDate_mem_synchronised_iff :
    outOfDate colours n ∈ synchronised colours verbose true is r ls ↔
      n = Outcome.changedCount r ls ∧ n ≠ 0 := by
  rw [mem_synchronised_iff (.inr ⟨n, rfl⟩), closing]
  split
  · rename_i hcount
    rw [hcount, List.mem_singleton]
    refine iff_of_false (fun heq => ?_) (by simp)
    refine ne_of_ends (outOfDate_ends n) upToDate_ends ?_ heq
    cases colours <;> decide
  · rename_i hcount
    constructor
    · intro hmem
      rcases List.mem_cons.1 hmem with heq | hmem
      · revert heq
        cases colours <;> simp [outOfDate, painted]
      · obtain rfl := outOfDate_inj (List.mem_singleton.1 hmem)
        exact ⟨rfl, hcount⟩
    · rintro ⟨rfl, -⟩
      simp

end Printed

end CatalogueSync
