import Findings.Convert.Arguments
import Findings.Proofs.Labels
import Findings.Proofs.Lists

/-!
# The command line of a JSON report

Arguments are read one after another: the findings file (`readAll_operand`), an option with its value
(`readAll_option`), an option without (`readAll_flag`). Where a category is to be hidden, a value that is no
category's label is refused, whatever it looks like (`readAll_hide_of_none`). So the command line for a JSON
report with full paths gives the options that it names, with the categories of its labels, or is refused
(`ofArguments_jsonReport`). That for a report on the standard output gives its options for every format,
directory and choice of categories (`ofArguments_printedReport`).
-/

namespace Findings
namespace Convert

/-! ## Words -/

/-- The word can be an argument's: as an operand it is the argument itself. -/
def Word.StandsFor (w : Word) (t : Text) : Prop := ∀ u, w = .operand u → u = t

theorem wordOfRest_standsFor (t : Text) : (wordOfRest t).StandsFor t := by
  unfold wordOfRest
  split <;> simp [Word.StandsFor]

theorem ofSwitch_standsFor (s : Switch) (value : Option Text) (t : Text) :
    (Word.ofSwitch s value).StandsFor t := by
  cases value <;> simp [Word.ofSwitch, Word.StandsFor]

theorem wordOf_cases (t : Text) :
    (∃ spellings, wordOf t = .error (.ambiguous t spellings)) ∨ ∃ w, wordOf t = .ok w ∧
      w.StandsFor t := by
  unfold wordOf
  split
  · exact .inr ⟨_, rfl, by simp [Word.StandsFor]⟩
  · split
    · exact .inr ⟨_, rfl, by simp [Word.StandsFor]⟩
    · split
      · exact .inr ⟨_, rfl, by simp [Word.StandsFor]⟩
      · simp only
        split
        · refine .inr ⟨_, rfl, ?_⟩
          split <;> simp [Word.StandsFor]
        · split
          · split
            · exact .inr ⟨_, rfl, wordOfRest_standsFor t⟩
            · exact .inr ⟨_, rfl, ofSwitch_standsFor _ _ t⟩
            · exact .inl ⟨_, rfl⟩
          · split
            · exact .inr ⟨_, rfl, by simp [Word.StandsFor]⟩
            · exact .inr ⟨_, rfl, wordOfRest_standsFor t⟩

theorem wordsOf_ne_help (ts : List Text) : wordsOf ts ≠ .error .help := by
  induction ts with
  | nil => simp [wordsOf]
  | cons t ts ih =>
    rw [wordsOf]
    split
    · simp
    · rcases wordOf_cases t with ⟨spellings, ht⟩ | ⟨w, ht, -⟩
      · simp [ht]
      · rw [ht]
        cases hts : wordsOf ts with
        | error e => simpa [Except.map, hts] using ih
        | ok ws => simp [Except.map]

/-- The first of some words stands for the first argument. -/
theorem head_of_wordsOf {t : Text} {ts : List Text} {words : List Word}
    (h : wordsOf (t :: ts) = .ok words) :
    ∃ w ws, words = w :: ws ∧ ∀ u, w = .operand u → u = t ∧ t ≠ Text.ofString "--" := by
  rw [wordsOf] at h
  split at h
  · obtain rfl := Except.ok.inj h
    exact ⟨_, _, rfl, by simp⟩
  · next hsep =>
    rcases wordOf_cases t with ⟨spellings, ht⟩ | ⟨w, ht, hw⟩
    · simp [ht] at h
    · rw [ht] at h
      cases hws : wordsOf ts with
      | error e => simp [hws, Except.map] at h
      | ok ws =>
        rw [hws] at h
        obtain rfl := Except.ok.inj h
        exact ⟨w, ws, rfl, fun u hu => ⟨hw u hu, hsep⟩⟩

/-- The mark before operands is none itself. -/
theorem ne_separator_of_wordOf {t : Text} {w : Word} (h : wordOf t = .ok w) :
    t ≠ Text.ofString "--" := by
  rintro rfl
  have hseparator : ∃ e, wordOf (Text.ofString "--") = .error e := ⟨_, rfl⟩
  obtain ⟨e, he⟩ := hseparator
  simp [he] at h

theorem wordsOf_cons {t : Text} {w : Word} (h : wordOf t = .ok w) (ts : List Text) :
    wordsOf (t :: ts) = (wordsOf ts).map (w :: ·) := by
  rw [wordsOf, if_neg (ne_separator_of_wordOf h), h]

namespace Reading

/-- Reads arguments on from what has been read. -/
def readAll (r : Reading) (arguments : List Text) : Except Usage Reading :=
  match wordsOf arguments with
  | .error e => .error e
  | .ok words => r.read words

theorem readAll_nil (r : Reading) : r.readAll [] = .ok r := by simp [readAll, wordsOf, read]

theorem readAll_option {r r' : Reading} {s : Switch} {spelling value : Text}
    (hspelling : wordOf spelling = .ok (.switch s)) (hvalue : wordOf value = .ok (.operand value))
    (hs : s.takesValue) (hset : r.set s value = .ok r') (rest : List Text) :
    r.readAll (spelling :: value :: rest) = r'.readAll rest := by
  rw [readAll, wordsOf_cons hspelling, wordsOf_cons hvalue, readAll]
  cases wordsOf rest with
  | error e => rfl
  | ok ws => simp only [Except.map, Reading.read, hs, hset, ↓reduceIte]

theorem readAll_flag {r r' : Reading} {s : Switch} {spelling : Text}
    (hspelling : wordOf spelling = .ok (.switch s)) (hs : s.takesValue = false)
    (hon : r.turnOn s = .ok r') (rest : List Text) :
    r.readAll (spelling :: rest) = r'.readAll rest := by
  rw [readAll, wordsOf_cons hspelling, readAll]
  cases wordsOf rest with
  | error e => rfl
  | ok ws =>
    simp only [Except.map]
    cases ws with
    | nil => simp only [Reading.read, hon]
    | cons w ws => cases w <;> simp [Reading.read, hs, hon]

theorem readAll_switchWith {r r' : Reading} {s : Switch} {t value : Text}
    (ht : wordOf t = .ok (.switchWith s value)) (hset : r.set s value = .ok r') (rest : List Text) :
    r.readAll (t :: rest) = r'.readAll rest := by
  rw [readAll, wordsOf_cons ht, readAll]
  cases wordsOf rest with
  | error e => rfl
  | ok ws => simp only [Except.map, Reading.read, hset]

theorem readAll_operand {r : Reading} {name spelling : Text} {s : Switch}
    (hname : wordOf name = .ok (.operand name)) (hfree : r.findings = none)
    (hspelling : wordOf spelling = .ok (.switch s)) (rest : List Text) :
    r.readAll (name :: spelling :: rest) =
      { r with findings := some name }.readAll (spelling :: rest) := by
  rw [readAll, wordsOf_cons hname, wordsOf_cons hspelling, readAll, wordsOf_cons hspelling]
  cases wordsOf rest with
  | error e => rfl
  | ok ws => simp [Except.map, Reading.read, hfree]

/-- What is no label is refused where one is expected, whether it looks like a value or not. -/
theorem readAll_hide_of_none (r : Reading) {label : Text} (h : Category.ofLabel? label = none)
    (rest : List Text) :
    ∃ u, r.readAll ("--hide" :: label :: rest) = .error u ∧ u ≠ .help := by
  have hspelling : wordOf (Text.ofString "--hide") = .ok (.switch .hide) := rfl
  rw [readAll, wordsOf_cons hspelling]
  cases hwords : wordsOf (label :: rest) with
  | error e => exact ⟨e, rfl, fun he => wordsOf_ne_help _ (he ▸ hwords)⟩
  | ok words =>
    obtain ⟨w, ws, rfl, hw⟩ := head_of_wordsOf hwords
    cases w with
    | operand u =>
      obtain ⟨rfl, hsep⟩ := hw u rfl
      refine ⟨.noChoice .hide u, ?_, by simp⟩
      simp [Except.map, Reading.read, Reading.set, Switch.takesValue, hsep, h]
    | _ =>
      -- What is no operand is never taken for a value, so the option has none.
      refine ⟨.valueMissing .hide, ?_, by simp⟩
      simp [Except.map, Reading.read, Reading.turnOn]

/-- The reading with categories to hide. -/
def hide (r : Reading) (categories : List Category) : Reading :=
  { r with options := { r.options with hidden := r.options.hidden ++ categories.map some } }

end Reading

/-- Options that hide categories, each by its label. -/
def hideOptions (labels : List Text) : List Text :=
  labels.flatMap fun label => [Text.ofString "--hide", label]

/-- Categories are hidden if all labels are some category's. -/
theorem Reading.readAll_hideOptions (r : Reading) (labels rest : List Text) :
    match labels.mapM Category.ofLabel? with
    | some categories => r.readAll (hideOptions labels ++ rest) = (r.hide categories).readAll rest
    | none => ∃ u, r.readAll (hideOptions labels ++ rest) = .error u ∧ u ≠ .help := by
  induction labels generalizing r with
  | nil => simp [hide, hideOptions]
  | cons label labels ih =>
    rw [hideOptions, List.flatMap_cons, List.append_assoc, List.mapM_cons]
    cases hlabel : Category.ofLabel? label with
    | none => exact readAll_hide_of_none r hlabel _
    | some c =>
      obtain rfl := Category.label_of_ofLabel? hlabel
      have hspelling : wordOf (Text.ofString "--hide") = .ok (.switch .hide) := rfl
      have hvalue : wordOf c.label = .ok (.operand c.label) := by cases c <;> rfl
      have hset : r.set .hide c.label = .ok (r.hide [c]) := by cases c <;> rfl
      have hread := readAll_option hspelling hvalue rfl hset (hideOptions labels ++ rest)
      have hrest := ih (r.hide [c])
      cases hlabels : labels.mapM Category.ofLabel? with
      | none =>
        rw [hlabels] at hrest
        obtain ⟨u, hu, hhelp⟩ := hrest
        exact ⟨u, hread.trans hu, hhelp⟩
      | some categories =>
        rw [hlabels] at hrest
        refine (hread.trans hrest).trans ?_
        simp [hide, List.append_assoc]

theorem mapM_ofLabel?_label (categories : List Category) :
    (categories.map Category.label).mapM Category.ofLabel? = some categories :=
  mapM_map_eq_self Category.ofLabel?_label categories

/-! ## A JSON report with full paths -/

/-- The option for a report on shown findings only, if it is wanted. -/
def visibleOption (visibleOnly : Bool) : List Text := if visibleOnly then ["--visible-only"] else []

/-- The command line for a JSON report with full paths. -/
def jsonReport (findings out : Text) (labels : List Text) (visibleOnly : Bool) : List Text :=
  findings :: "--format" :: "json" :: "--full-path" :: "--out" :: out ::
    (hideOptions labels ++ visibleOption visibleOnly)

/-- The options that it gives. -/
def Options.jsonReport (findings out : Text) (categories : List Category) (visibleOnly : Bool) :
    Options where
  findings
  format := some .json
  out := some out
  fullPath := true
  visibleOnly
  hidden := categories.map some

theorem Reading.readAll_visibleOption {r : Reading} (h : r.options.visibleOnly = false)
    (visibleOnly : Bool) :
    r.readAll (visibleOption visibleOnly) =
      .ok { r with options := { r.options with visibleOnly } } := by
  cases visibleOnly with
  | false =>
    obtain ⟨options, findings, unused⟩ := r
    cases options
    simp_all [visibleOption, readAll_nil]
  | true =>
    have hspelling : wordOf (Text.ofString "--visible-only") = .ok (.switch .visibleOnly) := rfl
    exact (readAll_flag hspelling rfl rfl []).trans (readAll_nil _)

theorem Options.ofArguments_eq (arguments : List Text) :
    Options.ofArguments arguments =
      match Reading.readAll {} arguments with
      | .error e => .error e
      | .ok r => match r.findings, r.unused with
        | none, _ => .error .findingsMissing
        | some findings, [] => .ok { r.options with findings }
        | some _, unused => .error (.unrecognized unused) := by
  rw [Options.ofArguments, Reading.readAll]
  cases wordsOf arguments <;> rfl

/-- What has been read of the command line when the labels come. -/
def Reading.beforeLabels (findings out : Text) : Reading where
  options := { findings := [], format := some .json, fullPath := true, out := some out }
  findings := some findings

theorem Reading.readAll_jsonReport {findings out : Text}
    (hfindings : wordOf findings = .ok (.operand findings)) (hout : wordOf out = .ok (.operand out))
    (labels : List Text) (visibleOnly : Bool) :
    Reading.readAll {} (jsonReport findings out labels visibleOnly) =
      (beforeLabels findings out).readAll (hideOptions labels ++ visibleOption visibleOnly) := by
  have hformat : wordOf (Text.ofString "--format") = .ok (.switch .format) := rfl
  have hjson : wordOf (Text.ofString "json") = .ok (.operand (Text.ofString "json")) := rfl
  have hfull : wordOf (Text.ofString "--full-path") = .ok (.switch .fullPath) := rfl
  have houtput : wordOf (Text.ofString "--out") = .ok (.switch .out) := rfl
  have hset : Reading.set
      { options := { findings := [], format := some .json, fullPath := true }
        findings := some findings } .out out = .ok (beforeLabels findings out) := by
    simp [Reading.set, Switch.takesValue, ne_separator_of_wordOf hout, beforeLabels]
  rw [jsonReport, readAll_operand hfindings rfl hformat, readAll_option hformat hjson rfl rfl,
    readAll_flag hfull rfl rfl]
  exact readAll_option houtput hout rfl hset _

/-- The command line gives its options with the categories of its labels; it is refused if a label is no
category's. -/
theorem ofArguments_jsonReport {findings out : Text}
    (hfindings : wordOf findings = .ok (.operand findings)) (hout : wordOf out = .ok (.operand out))
    (labels : List Text) (visibleOnly : Bool) :
    match labels.mapM Category.ofLabel? with
    | some categories => Options.ofArguments (jsonReport findings out labels visibleOnly) =
        .ok (.jsonReport findings out categories visibleOnly)
    | none => ∃ u, Options.ofArguments (jsonReport findings out labels visibleOnly) = .error u ∧
        u ≠ .help := by
  rw [Options.ofArguments_eq, Reading.readAll_jsonReport hfindings hout]
  have hhide := (Reading.beforeLabels findings out).readAll_hideOptions labels
    (visibleOption visibleOnly)
  cases hlabels : labels.mapM Category.ofLabel? with
  | none =>
    rw [hlabels] at hhide
    obtain ⟨u, hu, hhelp⟩ := hhide
    exact ⟨u, by rw [hu], hhelp⟩
  | some categories =>
    rw [hlabels] at hhide
    rw [hhide, Reading.readAll_visibleOption rfl]
    rfl

/-! ## A report on the standard output -/

def fullPathOption (fullPath : Bool) : List Text := if fullPath then ["--full-path"] else []

/-- The option for a checked directory, with its value behind an equals sign, where it can be any text. -/
def directoryOption (directory : Text) : Text := "--check-dir=" ++ directory

/-- The command line for a report on the standard output. -/
def printedReport (findings : Text) (format : Format) (directory : Text) (fullPath visibleOnly : Bool)
    (categories : List Category) : List Text :=
  findings :: "--format" :: format.name :: directoryOption directory ::
    (fullPathOption fullPath ++
      (hideOptions (categories.map Category.label) ++ visibleOption visibleOnly))

/-- The directory that is taken from the option; two minus signs stand for none. -/
def givenDirectory (directory : Text) : Text := if directory = Text.ofString "--" then [] else directory

/-- The options that the command line gives. -/
def Options.printed (findings : Text) (format : Format) (directory : Text) (fullPath visibleOnly : Bool)
    (categories : List Category) : Options where
  findings
  format := some format
  checkDirectory := givenDirectory directory
  fullPath
  visibleOnly
  hidden := categories.map some

theorem Reading.set_checkDirectory (r : Reading) (directory : Text) :
    r.set .checkDirectory directory =
      .ok { r with options := { r.options with checkDirectory := givenDirectory directory } } := by
  unfold givenDirectory
  by_cases h : directory = Text.ofString "--" <;>
    simp [Reading.set, Switch.takesValue, Reading.setNothing, h]

theorem Reading.readAll_fullPathOption {r : Reading} (h : r.options.fullPath = false) (fullPath : Bool)
    (rest : List Text) :
    r.readAll (fullPathOption fullPath ++ rest) =
      { r with options := { r.options with fullPath } }.readAll rest := by
  cases fullPath with
  | false =>
    obtain ⟨options, findings, unused⟩ := r
    cases options
    simp_all [fullPathOption]
  | true =>
    have hspelling : wordOf (Text.ofString "--full-path") = .ok (.switch .fullPath) := rfl
    exact readAll_flag hspelling rfl rfl rest

theorem ofArguments_printedReport {findings : Text}
    (hfindings : wordOf findings = .ok (.operand findings)) (format : Format) (directory : Text)
    (fullPath visibleOnly : Bool) (categories : List Category) :
    Options.ofArguments (printedReport findings format directory fullPath visibleOnly categories) =
      .ok (.printed findings format directory fullPath visibleOnly categories) := by
  have hspelling : wordOf (Text.ofString "--format") = .ok (.switch .format) := rfl
  have hname : wordOf format.name = .ok (.operand format.name) := by cases format <;> rfl
  have hset : Reading.set { findings := some findings } .format format.name =
      .ok { options := { findings := [], format := some format }, findings := some findings } := by
    cases format <;> rfl
  have hdirectory : wordOf (directoryOption directory) = .ok (.switchWith .checkDirectory directory) :=
    rfl
  have hhide := fun r : Reading => r.readAll_hideOptions (categories.map Category.label)
    (visibleOption visibleOnly)
  rw [mapM_ofLabel?_label] at hhide
  rw [Options.ofArguments_eq, printedReport, Reading.readAll_operand hfindings rfl hspelling,
    Reading.readAll_option hspelling hname rfl hset,
    Reading.readAll_switchWith hdirectory (Reading.set_checkDirectory _ _),
    Reading.readAll_fullPathOption rfl, hhide, Reading.readAll_visibleOption rfl]
  rfl

end Convert
end Findings
