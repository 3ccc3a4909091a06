import Findings.Proofs.Lists
import Findings.Proofs.Report.Rendering
import Findings.Proofs.Report.TextReading

/-!
# Text reports can be read back

The lines of a report are those of its entries, one after another (`textLines_eq`), and no line goes over
its newline, so splitting gives the same lines again (`split_text`). `gather` puts each location back
under its finding (`gather_lines`). Reading a report therefore gives the entries it was written from, but
for surrogates (`text_readable`). There is no report if a line number has too many digits
(`overlong_line_no_text`).
-/

namespace Findings.Report

/-- The entry with a question mark for each surrogate in its texts. -/
def Entry.toEncodable (e : Entry Text) : Entry Text where
  file := e.file.toEncodable
  severity := e.severity.toEncodable
  id := e.id.toEncodable
  msg := e.msg.toEncodable
  locations := e.locations.map fun l => { l with file := l.file.toEncodable }

/-- No text of the entry has a surrogate. -/
def Entry.isEncodable (e : Entry Text) : Bool :=
  e.file.isEncodable && e.severity.isEncodable && e.id.isEncodable && e.msg.isEncodable &&
    e.locations.all (·.file.isEncodable)

theorem Entry.toEncodable_eq_self {e : Entry Text} (h : e.isEncodable) : e.toEncodable = e := by
  simp only [isEncodable, Bool.and_eq_true, List.all_eq_true] at h
  obtain ⟨⟨⟨⟨hfile, hseverity⟩, hid⟩, hmsg⟩, hlocations⟩ := h
  have hself : ∀ l ∈ e.locations, { l with file := l.file.toEncodable } = l := by
    intro l hl
    rw [Text.toEncodable_eq_self (hlocations l hl)]
  rw [toEncodable, Text.toEncodable_eq_self hfile, Text.toEncodable_eq_self hseverity,
    Text.toEncodable_eq_self hid, Text.toEncodable_eq_self hmsg, List.map_congr_left hself,
    List.map_id']

/-! ## The lines of an entry -/

def Entry.lines (e : Entry Text) : List Line :=
  .finding e.file e.severity e.id e.msg :: e.locations.map .location

theorem textLines_eq (e : Entry Text) : textLines e = e.lines.map Line.text := by
  simp [textLines, Entry.lines, textRecord, Line.text]

theorem lines_toEncodable (e : Entry Text) :
    e.toEncodable.lines = e.lines.map Line.toEncodable := by
  simp [Entry.lines, Entry.toEncodable, Line.toEncodable]

/-- The locations above the first finding, and the entries, each with the locations that follow it. -/
def gather : List Line → List Location × List (Entry Text)
  | [] => ([], [])
  | .location l :: r => (l :: (gather r).1, (gather r).2)
  | .finding file severity id msg :: r =>
    ([], ⟨file, severity, id, msg, (gather r).1⟩ :: (gather r).2)

theorem gather_locations (ls : List Location) (r : List Line) :
    gather (ls.map .location ++ r) = (ls ++ (gather r).1, (gather r).2) := by
  induction ls with
  | nil => rfl
  | cons l ls ih => rw [List.map_cons, List.cons_append, gather, ih, List.cons_append]

theorem gather_lines (es : List (Entry Text)) : gather (es.flatMap Entry.lines) = ([], es) := by
  induction es with
  | nil => rfl
  | cons e es ih =>
    rw [List.flatMap_cons, Entry.lines, List.cons_append, gather, gather_locations, ih]
    simp

/-! ## Whole reports -/

/-- The entries of a text report, if it is one. -/
def readText (t : Text) : Option (List (Entry Text)) :=
  let pieces := Text.split (.ofChar '\n') t
  if pieces.getLast? = some [] then
    match (pieces.dropLast.mapM readLine).map gather with
    | some ([], es) => some es
    | _ => none
  else none

theorem flatMap_textLines (es : List (Entry Text)) :
    es.flatMap textLines = (es.flatMap Entry.lines).map Line.text := by
  rw [List.map_flatMap, funext textLines_eq]

/-- The lines of a report are those written for its entries, and nothing follows the last newline. -/
theorem split_text (es : List (Entry Text)) :
    Text.split (.ofChar '\n') (text es) = es.flatMap textLines ++ [[]] := by
  refine Text.split_lines ?_
  rw [flatMap_textLines]
  intro t ht
  obtain ⟨l, -, rfl⟩ := List.mem_map.mp ht
  exact newline_not_mem_text l

theorem mapM_readLine (ls : List Line) :
    (ls.map Line.text).mapM readLine = some (ls.map Line.toEncodable) :=
  mapM_map_pure readLine_text ls

theorem readText_text (es : List (Entry Text)) :
    readText (text es) = some (es.map Entry.toEncodable) := by
  have hlines : (es.flatMap Entry.lines).map Line.toEncodable =
      (es.map Entry.toEncodable).flatMap Entry.lines := by
    rw [List.map_flatMap, List.flatMap_map, funext lines_toEncodable]
  have hread : (es.flatMap textLines).mapM readLine =
      some ((es.map Entry.toEncodable).flatMap Entry.lines) := by
    rw [flatMap_textLines, mapM_readLine, hlines]
  simp [readText, split_text, hread, gather_lines]

theorem length_textLines (es : List (Entry Text)) :
    (es.flatMap textLines).length = es.length + (es.flatMap (·.locations)).length := by
  induction es with
  | nil => rfl
  | cons e es ih =>
    simp only [List.flatMap_cons, List.length_append, List.length_cons, textLines,
      List.length_map, ih]
    omega

theorem text_injective {es es' : List (Entry Text)} (h : es.all Entry.isEncodable)
    (h' : es'.all Entry.isEncodable) (heq : text es = text es') : es = es' := by
  have hself {es : List (Entry Text)} (h : es.all Entry.isEncodable) :
      es.map Entry.toEncodable = es := by
    rw [List.map_congr_left fun e he => Entry.toEncodable_eq_self (List.all_eq_true.mp h e he),
      List.map_id']
  have hread : some (es.map Entry.toEncodable) = some (es'.map Entry.toEncodable) := by
    rw [← readText_text, heq, readText_text]
  simpa [hself h, hself h'] using hread

/-- There is a report just when no line number has too many digits. It is read back as the entries it was written
from, with a question mark for each surrogate; its lines are one for each entry and one for each location, each
with its newline; and entries without surrogates have a report of their own. -/
theorem text_readable (es : List (Entry Text)) :
    render .text (es.map Entry.values) =
        (if ∀ e ∈ es, e.Legible then .ok (text es) else .error .integerTooLong) ∧
      readText (text es) = some (es.map Entry.toEncodable) ∧
      Text.split (.ofChar '\n') (text es) = es.flatMap textLines ++ [[]] ∧
      (es.flatMap textLines).length = es.length + (es.flatMap (·.locations)).length ∧
      ∀ es' : List (Entry Text), es.all Entry.isEncodable → es'.all Entry.isEncodable →
        (text es = text es' ↔ es = es') :=
  ⟨render_text es, readText_text es, split_text es, length_textLines es,
    fun _ h h' => ⟨text_injective h h', congrArg text⟩⟩

/-- An entry without a file, so that its line starts as a location does. -/
def fileless : Entry Text := ⟨"", "style", "id\n", "tab\there", [⟨"C:\\a.c", -3⟩]⟩

/-- The severity of `fileless` in the column of the file. -/
def shifted : Entry Text := ⟨"style", "", "id\n", "tab\there", [⟨"C:\\a.c", -3⟩]⟩

theorem fileless_readable :
    render .text [fileless.values] = .ok (text [fileless]) ∧
      readText (text [fileless]) = some [fileless] ∧
      [fileless].all Entry.isEncodable ∧ [shifted].all Entry.isEncodable ∧
      text [fileless] ≠ text [shifted] := by
  obtain ⟨hrender, hread, -, -, hinjective⟩ := text_readable [fileless]
  have hfileless : [fileless].all Entry.isEncodable := by decide
  have hshifted : [shifted].all Entry.isEncodable := by decide
  refine ⟨hrender.trans (if_pos (by decide)), hread.trans rfl, hfileless, hshifted, ?_⟩
  intro h
  have hsame : [fileless] = [shifted] := (hinjective [shifted] hfileless hshifted).mp h
  exact absurd (congrArg (List.map Entry.file) hsame) (by decide)

/-- Of an entry with a line that has too many digits there is no report that could be read back. -/
theorem overlong_line_no_text : ¬∃ report, render .text ([overlongEntry].map Entry.values) = .ok report := by
  rw [render_overlongEntry]
  simp

end Findings.Report
