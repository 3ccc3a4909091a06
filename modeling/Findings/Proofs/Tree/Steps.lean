import Findings.Proofs.Lists
import Findings.Proofs.Store.Content
import Findings.Tree.Run

/-!
# What a step does to the store and the mask

`ViewStep` lists the effects that an operation on a tree can have on its store and mask; reading
operations, settings and rejected reports have none. Every step is one of them (`view_step`), so what all
of them keep is kept by every run. A report is refused or its finding filed (`add_cases`); it is filed when
its file and severity are texts and its backtrace has locations (`add_filed`). Reports whose files and lines
come as two lists are reports with the pairs of the two as backtrace.
-/

namespace Findings

theorem Value.orEmpty_text (t : Text) : (Value.text t).orEmpty = .text t := by
  cases t <;> rfl

theorem Value.toCanonicalPath_text (t : Text) :
    (Value.text t).toCanonicalPath = .ok (Path.canonical t) := by
  rw [toCanonicalPath, orEmpty_text]

namespace Tree

theorem toLocation_file {file line : Value} {l : Location} (h : toLocation file line = .ok l) :
    file.toCanonicalPath = .ok l.file := by
  unfold toLocation at h
  cases hfile : file.toCanonicalPath with
  | error e => simp [hfile] at h
  | ok path =>
    cases hline : line.toLine with
    | error e => simp [hfile, hline] at h
    | ok n =>
      obtain rfl : ⟨path, n⟩ = l := by simpa [hfile, hline] using h
      rfl

/-- The locations of a backtrace stand for the pairs of the report, one by one. -/
theorem forall₂_of_toLocations {pairs : List (Value × Value)} {ls : List Location}
    (h : toLocations pairs = .ok ls) :
    List.Forall₂ (fun p l => toLocation p.1 p.2 = .ok l) pairs ls := by
  induction pairs generalizing ls with
  | nil =>
    obtain rfl := Except.ok.inj h
    exact .nil
  | cons p pairs ih =>
    rw [toLocations] at h
    cases hfirst : toLocation p.1 p.2 with
    | error e => simp [hfirst] at h
    | ok first =>
      cases hrest : toLocations pairs with
      | error e => simp [hfirst, hrest] at h
      | ok rest =>
        obtain rfl : first :: rest = ls := by simpa [hfirst, hrest] using h
        exact .cons hfirst (ih hrest)

/-- Each location of a backtrace stands for a pair of the report. -/
theorem exists_of_mem_toLocations {pairs : List (Value × Value)} {ls : List Location}
    (h : toLocations pairs = .ok ls) {l : Location} (hl : l ∈ ls) :
    ∃ p ∈ pairs, toLocation p.1 p.2 = .ok l :=
  exists_of_forall₂ (forall₂_of_toLocations h) hl

/-- `f` is the finding, still shown, that a report describes. -/
structure Report.Yields (r : Report) (f : Finding) : Prop where
  file : r.file.toCanonicalPath = .ok f.file
  category : ∃ known, classify r.severity = .ok (f.category, known)
  message : f.message = r.message
  backtrace : toLocations r.backtrace = .ok f.backtrace
  id : f.id = r.id
  label : f.label = match r.severity with
    | .null => .text f.category.label
    | given => given
  shown : f.hidden = false

/-- A report as the analysis engine makes them. -/
def unusedVariable : Report where
  file := .text "/src/a.cpp"
  severity := .text "style"
  message := .text "unused variable"
  id := .text "unusedVariable"

theorem submission_yields {r : Report} {c : Category} {known : Bool} {n : Submission}
    (hc : classify r.severity = .ok (c, known)) (hn : submission r c = .ok n) :
    n.category = .real c ∧ ∃ backtrace, n.backtrace = .ok backtrace ∧ r.Yields (n.finding c backtrace) := by
  unfold submission at hn
  cases hl : toLocations r.backtrace with
  | error e => simp [hl] at hn
  | ok backtrace =>
    cases hf : r.file.orEmpty with
    | text file =>
      simp only [hl, hf, Except.ok.injEq] at hn
      subst hn
      refine ⟨rfl, backtrace, rfl, ⟨?_, ⟨known, hc⟩, rfl, hl, rfl, rfl, rfl⟩⟩
      simp [Value.toCanonicalPath, hf, Submission.finding]
    | _ => simp [hl, hf] at hn

/-- The store and the mask with a finding more, in line with the mask. -/
def file (v : Filtered) (f : Finding) : Filtered :=
  { v with store := (v.store.insert f).applyMask v.mask (v.store.nextRef f.file) }

/-- A report is refused, or its finding is filed and the reference to it is the answer. -/
theorem add_cases (t : Tree) (r : Report) :
    (∃ e log, t.add r = .error t e log) ∨
      ∃ f log, r.Yields f ∧ t.add r =
        .ok { t with view := file t.view f } (t.store.nextRef f.file) log := by
  unfold add
  cases hc : classify r.severity with
  | error e => exact Or.inl ⟨e, [], rfl⟩
  | ok p =>
    obtain ⟨c, known⟩ := p
    cases hn : submission r c with
    | error e =>
      refine Or.inl ⟨e, if known then [] else [.unknownSeverity r.severity r.file c], ?_⟩
      simp only [hn]
    | ok n =>
      obtain ⟨hreal, backtrace, hbacktrace, hy⟩ := submission_yields hc hn
      refine Or.inr ⟨n.finding c backtrace,
        if known then [] else [.unknownSeverity r.severity r.file c], hy, ?_⟩
      simp only [hn, Filtered.add, Store.add_eq_insert _ hreal hbacktrace]
      rfl

/-- A backtrace has locations when each of its pairs stands for one. -/
theorem exists_toLocations {pairs : List (Value × Value)}
    (h : ∀ p ∈ pairs, ∃ l, toLocation p.1 p.2 = .ok l) : ∃ ls, toLocations pairs = .ok ls := by
  induction pairs with
  | nil => exact ⟨[], rfl⟩
  | cons p pairs ih =>
    rw [List.forall_mem_cons] at h
    obtain ⟨l, hl⟩ := h.1
    obtain ⟨ls, hls⟩ := ih h.2
    exact ⟨l :: ls, by simp [toLocations, hl, hls]⟩

/-- A report is filed when its file and its severity are texts, and the pairs of its backtrace locations. -/
theorem add_filed (t : Tree) {r : Report} {path severity : Text} (hfile : r.file = .text path)
    (hseverity : r.severity = .text severity)
    (hbacktrace : ∀ p ∈ r.backtrace, ∃ l, toLocation p.1 p.2 = .ok l) :
    ∃ f log, r.Yields f ∧
      t.add r = .ok { t with view := file t.view f } (t.store.nextRef f.file) log := by
  obtain ⟨ls, hls⟩ := exists_toLocations hbacktrace
  rcases add_cases t r with ⟨e, log, h⟩ | hfiled
  · simp [add, classify, submission, hfile, hseverity, hls, Value.orEmpty_text, Filtered.add, Store.add,
      Outcome.ok, Outcome.error] at h
  · exact hfiled

/-- A report without backtrace is filed when its file and its severity are texts. -/
theorem add_texts (t : Tree) (path severity : Text) (message id : Value) :
    ∃ f log, f.file = Path.canonical path ∧ f.backtrace = [] ∧ f.hidden = false ∧
      t.add { file := .text path, severity := .text severity, message, id } =
        .ok { t with view := file t.view f } (t.store.nextRef f.file) log := by
  obtain ⟨f, log, hy, h⟩ :=
    add_filed t (r := { file := .text path, severity := .text severity, message, id }) rfl rfl (by simp)
  have hfile : Path.canonical path = f.file :=
    Except.ok.inj ((Value.toCanonicalPath_text path).symm.trans hy.file)
  have hbacktrace : [] = f.backtrace := by simpa [toLocations] using hy.backtrace
  exact ⟨f, log, hfile.symm, hbacktrace.symm, hy.shown, h⟩

/-- What an operation can do to the store and the mask. -/
inductive ViewStep (v : Filtered) : Op → Filtered → Prop
  | same (op : Op) : op ≠ .clear → ViewStep v op v
  | filed {r : Report} {f : Finding} : r.Yields f → ViewStep v (.add r) (file v f)
  | cleared : ViewStep v .clear v.clear
  | category (code : CategoryCode) (shown : Bool) :
      ViewStep v (.showCategory code shown) (v.setMask code shown).state
  | categories (entries : List (CategoryCode × Bool)) :
      ViewStep v (.showCategories entries) (v.setMasks entries).state

theorem view_step (t : Tree) (op : Op) : ViewStep t.view op (t.step op).1.view := by
  cases op with
  | add r =>
    rcases add_cases t r with ⟨e, log, h⟩ | ⟨f, log, hy, h⟩
    · simp only [step, h]
      exact .same _ (by simp)
    · simp only [step, h]
      exact .filed hy
  | clear => exact .cleared
  | showCategory code shown => exact .category code shown
  | showCategories entries => exact .categories entries
  | _ => exact .same _ (by simp)

end Tree
end Findings
