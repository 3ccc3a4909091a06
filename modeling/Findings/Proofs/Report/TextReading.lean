import Findings.Report.Text
import Findings.Proofs.Text.Numerals
import Findings.Proofs.Text.Split
import Mathlib.Tactic.SplitIfs

/-!
# Reading text reports

A reader for text reports that needs nothing but the text. Each line ends with a newline. A line with
three tabs is a finding, a line with one tab, at its start, a location of the finding above it; it is
split at its last colon. In each field the escapes are undone.

A field comes back with a question mark for each surrogate (`readField_textField`), and so does a whole
line (`readLine_text`): a field has neither tabs nor newlines (`not_mem_textField`), and a numeral has no
colon.
-/

namespace Findings

def CodePoint.toEncodable (c : CodePoint) : CodePoint := if c.isSurrogate then .ofChar '?' else c

/-- The text with a question mark for each surrogate. -/
def Text.toEncodable (t : Text) : Text := t.map CodePoint.toEncodable

theorem Text.toEncodable_eq_self {t : Text} (h : t.isEncodable) : t.toEncodable = t := by
  have hself : ∀ c ∈ t, c.toEncodable = c := by
    intro c hc
    have hc := List.all_eq_true.mp h c hc
    rw [CodePoint.toEncodable, if_neg (by simpa using hc)]
  rw [toEncodable, List.map_congr_left hself, List.map_id']

namespace Report

/-! ## Fields -/

/-- The character that is written as a backslash and `c`. -/
def unescape? (c : CodePoint) : Option CodePoint :=
  if c = .ofChar '\\' then some (.ofChar '\\')
  else if c = .ofChar 't' then some (.ofChar '\t')
  else if c = .ofChar 'n' then some (.ofChar '\n')
  else if c = .ofChar 'r' then some (.ofChar '\r')
  else none

def readField : Text → Option Text
  | [] => some []
  | c :: r =>
    if c = .ofChar '\\' then
      match r with
      | [] => none
      | d :: r =>
        match unescape? d with
        | none => none
        | some e => (readField r).map (e :: ·)
    else (readField r).map (c :: ·)

theorem readField_cons {c : CodePoint} (h : c ≠ .ofChar '\\') (rest : Text) :
    readField (c :: rest) = (readField rest).map (c :: ·) := by
  rw [readField.eq_def]
  exact if_neg h

theorem readField_textChar (c : CodePoint) (rest : Text) :
    readField (textChar c ++ rest) = (readField rest).map (c.toEncodable :: ·) := by
  unfold textChar CodePoint.toEncodable
  split_ifs with hsurrogate hbackslash htab hnewline hreturn
  · exact readField_cons (by decide) rest
  · rw [hbackslash]; rfl
  · rw [htab]; rfl
  · rw [hnewline]; rfl
  · rw [hreturn]; rfl
  · exact readField_cons hbackslash rest

theorem readField_textField (t : Text) : readField (textField t) = some t.toEncodable := by
  induction t with
  | nil => rfl
  | cons c t ih =>
    show readField (textChar c ++ textField t) = _
    rw [readField_textChar, ih]
    rfl

theorem not_mem_textChar {sep : CodePoint} (h : sep = .ofChar '\t' ∨ sep = .ofChar '\n')
    (c : CodePoint) : sep ∉ textChar c := by
  unfold textChar
  split_ifs with hsurrogate hbackslash htab hnewline hreturn
  · rcases h with rfl | rfl <;> decide
  · rcases h with rfl | rfl <;> decide
  · rcases h with rfl | rfl <;> decide
  · rcases h with rfl | rfl <;> decide
  · rcases h with rfl | rfl <;> decide
  · rcases h with rfl | rfl
    · simpa using Ne.symm htab
    · simpa using Ne.symm hnewline

/-- A field stays in its column and on its line. -/
theorem not_mem_textField {sep : CodePoint} (h : sep = .ofChar '\t' ∨ sep = .ofChar '\n')
    (t : Text) : sep ∉ textField t := by
  intro hmem
  obtain ⟨c, -, hc⟩ := List.mem_flatMap.mp hmem
  exact not_mem_textChar h c hc

/-! ## Lines -/

/-- A line of a text report, read: the fields of a finding, or a location. -/
inductive Line where
  | finding (file severity id msg : Text)
  | location (l : Location)

namespace Line

/-- The line as it is written, without its newline. -/
def text : Line → Text
  | finding file severity id msg =>
    Text.join tab [textField file, textField severity, textField id, textField msg]
  | location l => textLocation l

def toEncodable : Line → Line
  | finding file severity id msg =>
    finding file.toEncodable severity.toEncodable id.toEncodable msg.toEncodable
  | location l => location { l with file := l.file.toEncodable }

end Line

def readLine (t : Text) : Option Line :=
  match Text.split (.ofChar '\t') t with
  | [file, severity, id, msg] => do
    return .finding (← readField file) (← readField severity) (← readField id) (← readField msg)
  | [[], place] => do
    let (file, line) ← Text.splitLast (.ofChar ':') place
    return .location ⟨← readField file, ← Text.readInteger line⟩
  | _ => none

theorem split_finding (file severity id msg : Text) :
    Text.split (.ofChar '\t') (Line.finding file severity id msg).text =
      [textField file, textField severity, textField id, textField msg] := by
  refine Text.split_join (by simp) ?_
  intro t ht
  simp only [List.mem_cons, List.not_mem_nil, or_false] at ht
  rcases ht with rfl | rfl | rfl | rfl <;> exact not_mem_textField (.inl rfl) _

theorem not_mem_place {sep : CodePoint} (h : sep = .ofChar '\t' ∨ sep = .ofChar '\n')
    (l : Location) : sep ∉ textField l.file ++ .ofChar ':' :: Text.ofInt l.line := by
  have hnumeral : sep ∉ Text.ofInt l.line := by
    rcases h with rfl | rfl <;> exact Text.not_mem_ofInt (by decide) (by decide)
  have hcolon : sep ≠ .ofChar ':' := by
    rcases h with rfl | rfl <;> decide
  simp [not_mem_textField h, hcolon, hnumeral]

theorem textLocation_eq (l : Location) :
    textLocation l = .ofChar '\t' :: (textField l.file ++ .ofChar ':' :: Text.ofInt l.line) := by
  show [.ofChar '\t'] ++ textField l.file ++ [.ofChar ':'] ++ Text.ofInt l.line = _
  simp

theorem split_location (l : Location) :
    Text.split (.ofChar '\t') (Line.location l).text =
      [[], textField l.file ++ .ofChar ':' :: Text.ofInt l.line] := by
  rw [Line.text, textLocation_eq, Text.split, if_pos rfl,
    Text.split_of_not_mem (not_mem_place (.inl rfl) l)]

theorem readLine_text (l : Line) : readLine l.text = some l.toEncodable := by
  cases l with
  | finding file severity id msg =>
    rw [readLine, split_finding]
    simp [readField_textField, Line.toEncodable]
  | location l =>
    have hcolon : Text.splitLast (.ofChar ':')
        (textField l.file ++ .ofChar ':' :: Text.ofInt l.line) =
          some (textField l.file, Text.ofInt l.line) :=
      Text.splitLast_append_sep _ (Text.not_mem_ofInt (by decide) (by decide))
    rw [readLine, split_location]
    simp [hcolon, readField_textField, Text.readInteger_ofInt, Line.toEncodable]

theorem newline_not_mem_text (l : Line) : .ofChar '\n' ∉ l.text := by
  cases l with
  | finding file severity id msg =>
    have htab : .ofChar '\n' ∉ tab := by decide
    simp [Line.text, Text.join, not_mem_textField (.inr rfl), htab]
  | location l =>
    rw [Line.text, textLocation_eq, List.mem_cons, not_or]
    exact ⟨by decide, not_mem_place (.inr rfl) l⟩

end Report
end Findings
