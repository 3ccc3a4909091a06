import Findings.Proofs.Convert.Reimport
import Findings.Proofs.Tree.Saving

/-!
# Runs that end without failure

A run that ends without failure has read its findings file, every item of which reports a finding, has rendered
and given out the report on the tree with these findings, and closes with its summary (`run_completed`).
-/

namespace Findings.Convert

/-! ## Giving the report out -/

/-- The report is where the options ask for it: on the standard output, or in the file that was opened. A device
keeps nothing. -/
def Run.Holds (r : Run) (o : Options) (folder : Folder) (report : Text) : Prop :=
  match o.out with
  | none | some [] => r.output = report
  | some name => ∃ after d, folder.create name = .ok (after, d) ∧
      ∀ route, d = .file route → r.folder.contentAt route = some (Utf8.encode report)

/-- The report on a tree was rendered and given out, and the summary comes last. -/
structure Run.Completed (r : Run) (o : Options) (folder : Folder) (t : Tree) (report : Text) : Prop where
  rendered : t.exported o.formatValue = .ok report
  holds : r.Holds o folder report
  summarised : ∃ before, r.messages = before ++ [summary t o]

section Steps

variable {o : Options} {t : Tree} {messages : List Text} {folder : Folder}

theorem print_completed (hout : o.out.getD [] = []) (h : (print o t messages folder).ending = .ok 0) :
    (∃ report, (print o t messages folder).Completed o folder t report) ∧
      (print o t messages folder).messages = messages ++ [summary t o] := by
  obtain ⟨report, hexported⟩ := exported_of_print h
  rw [print_of_exported hexported]
  refine ⟨⟨report, hexported, ?_, messages, rfl⟩, rfl⟩
  cases hname : o.out with
  | none => simp [Run.Holds, hname]
  | some name =>
    obtain rfl : name = [] := by simpa [hname] using hout
    simp [Run.Holds, hname]

theorem write_completed {name : Text} (hout : o.out = some name) (hne : name ≠ [])
    (h : (write o t messages folder name).ending = .ok 0) :
    (∃ report, (write o t messages folder name).Completed o folder t report) ∧
      (write o t messages folder name).messages = messages ++ [summary t o] := by
  obtain ⟨c, name, rfl⟩ := List.exists_cons_of_ne_nil hne
  unfold write at h ⊢
  cases hcreate : folder.create (c :: name) with
  | error e =>
    simp only [hcreate] at h
    split_ifs at h
    simp at h
  | ok created =>
    obtain ⟨after, d⟩ := created
    simp only [hcreate] at h ⊢
    obtain ⟨report, hexported, hfits⟩ := fits_of_deliver h
    rw [deliver_of_fits hexported hfits]
    refine ⟨⟨report, hexported, ?_, messages, rfl⟩, rfl⟩
    simp only [Run.Holds, hout]
    refine ⟨after, d, hcreate, ?_⟩
    rintro route rfl
    exact Folder.contentAt_put after route _

end Steps

/-! ## Whole runs -/

/-- The items of the findings file report these findings. -/
def FindingsIn (folder : Folder) (name : Text) (fs : List Finding) : Prop :=
  ∃ content items, folder.read name = .ok content ∧ readItems content = .ok items ∧
    List.Forall₂ Reports items fs

/-- What such a run says is what taking the items in gave, and the summary. -/
theorem convert_completed {o : Options} {items : List Value} {folder : Folder}
    (h : (convert o items folder).ending = .ok 0) :
    ∃ categories fs, o.hidden = categories.map some ∧ List.Forall₂ Reports items fs ∧
      (∃ report, (convert o items folder).Completed o folder (o.filledTree categories fs) report) ∧
      (convert o items folder).messages =
        shown (takeIn (o.emptyTree categories) items).log ++ [summary (o.filledTree categories fs) o] := by
  cases htaken : (taken o items).1 with
  | error e => simp [convert_of_taken_error htaken] at h
  | ok t =>
    obtain ⟨categories, fs, hhidden, hfs, rfl⟩ := reports_of_taken htaken
    refine ⟨categories, fs, hhidden, hfs, ?_⟩
    simp only [convert, taken_of_reports hhidden hfs] at h ⊢
    rcases hout : o.out with _ | _ | ⟨c, name⟩ <;> simp only [hout] at h ⊢
    · exact print_completed (by simp [hout]) h
    · exact print_completed (by simp [hout]) h
    · exact write_completed hout (List.cons_ne_nil c name) h

/-- A run with options that ends without failure took in what its findings file reports, gave out the report on
that, and told so. -/
theorem run_completed {arguments : List Text} {o : Options} (hoptions : Options.ofArguments arguments = .ok o)
    {folder : Folder} (h : (run arguments folder).ending = .ok 0) :
    ∃ categories fs, o.hidden = categories.map some ∧ FindingsIn folder o.findings fs ∧
      ∃ report, (run arguments folder).Completed o folder (o.filledTree categories fs) report := by
  obtain ⟨content, items, hread, hitems⟩ := items_of_run hoptions h
  rw [run_eq_convert hoptions hread hitems] at h ⊢
  obtain ⟨categories, fs, hhidden, hfs, hcompleted, -⟩ := convert_completed h
  exact ⟨categories, fs, hhidden, ⟨content, items, hread, hitems, hfs⟩, hcompleted⟩

end Findings.Convert
