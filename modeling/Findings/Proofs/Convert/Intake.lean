import Findings.Convert.Run
import Findings.Proofs.Lists
import Findings.Proofs.Tree.Filing

/-!
# Taking items in

The policy and the categories that its options name make up the tree that a run takes findings into
(`tree_of_hidden`, `hidden_of_tree`). Items are taken in one after another up to the first that fails. So none
fails just when each reports a finding (`reports_of_takeIn`), and then these findings are what is filed
(`takeIn_of_reports`).
-/

namespace Findings

namespace Tree

theorem Report.Yields.unique {r : Report} {f f' : Finding} (h : r.Yields f) (h' : r.Yields f') :
    f = f' := by
  obtain ⟨known, hknown⟩ := h.category
  obtain ⟨known', hknown'⟩ := h'.category
  have hcategory : f.category = f'.category :=
    (Prod.mk.inj (Except.ok.inj (hknown.symm.trans hknown'))).1
  have hfile : f.file = f'.file := Except.ok.inj (h.file.symm.trans h'.file)
  have hbacktrace : f.backtrace = f'.backtrace :=
    Except.ok.inj (h.backtrace.symm.trans h'.backtrace)
  have hlabel : f.label = f'.label := by rw [h.label, h'.label, hcategory]
  cases f
  cases f'
  simp only [Finding.mk.injEq]
  exact ⟨hfile, hcategory, h.message.trans h'.message.symm, hbacktrace, h.id.trans h'.id.symm, hlabel,
    h.shown.trans h'.shown.symm⟩

theorem Report.Yields.submission {r : Report} {f : Finding} (h : r.Yields f) :
    ∃ n, submission r f.category = .ok n := by
  have hfile := h.file
  unfold Value.toCanonicalPath at hfile
  unfold Tree.submission
  rw [h.backtrace]
  cases hf : r.file.orEmpty with
  | text file => exact ⟨_, rfl⟩
  | _ => simp [hf] at hfile

/-- A report of a finding is not refused. -/
theorem add_of_yields {r : Report} {f : Finding} (h : r.Yields f) (t : Tree) :
    ∃ log, t.add r = .ok { t with view := file t.view f } (t.store.nextRef f.file) log := by
  obtain ⟨known, hknown⟩ := h.category
  obtain ⟨n, hn⟩ := h.submission
  rcases add_cases t r with ⟨e, log, hadd⟩ | ⟨f', log, hy, hadd⟩
  · -- Label, file and locations are what a refusal could be about, and all three are read.
    obtain ⟨hreal, backtrace, hbacktrace, -⟩ := submission_yields hknown hn
    simp only [add, hknown, hn, Filtered.add, Store.add_eq_insert _ hreal hbacktrace, Outcome.ok, Outcome.error,
      Outcome.mk.injEq] at hadd
    exact absurd hadd.2.1 (by simp)
  · exact ⟨log, h.unique hy ▸ hadd⟩

end Tree

namespace Convert

/-! ## The tree of a run -/

/-- The policy of a run with options. -/
def Options.policy (o : Options) : PathPolicy where
  checkDirectory := o.checkDirectory
  showFullPath := o.fullPath
  saveFullPath := o.fullPath
  saveAllErrors := !o.visibleOnly

/-- The tree that a run takes findings into if it hides categories. -/
def Options.emptyTree (o : Options) (categories : List Category) : Tree where
  view := { mask := ({} : Mask).hideAll categories }
  policy := o.policy

theorem tree_of_hidden {o : Options} {categories : List Category} (h : o.hidden = categories.map some) :
    o.tree = .ok (o.emptyTree categories) := by
  have hsome : ∀ c : Category, id (some c) = pure c := fun _ => rfl
  have hhidden : o.hidden.mapM id = some categories := h ▸ mapM_map_eq_self hsome categories
  simp only [Options.tree, hhidden]
  rfl

/-- Only options whose categories all have a label give a tree. -/
theorem hidden_of_tree {o : Options} {start : Tree} (h : o.tree = .ok start) :
    ∃ categories, o.hidden = categories.map some ∧ start = o.emptyTree categories := by
  have htree := h
  unfold Options.tree at h
  split at h
  · simp at h
  · next categories hcategories =>
    have hhidden : o.hidden = categories.map some := by
      rw [← List.forall₂_eq_eq_eq, List.forall₂_map_right_iff]
      exact forall₂_of_mapM hcategories
    exact ⟨categories, hhidden, Except.ok.inj (htree.symm.trans (tree_of_hidden hhidden))⟩

/-! ## The items -/

/-- The item is an object that reports the finding. -/
def Reports (item : Value) (f : Finding) : Prop := ∃ r, reportOf item = .ok r ∧ r.Yields f

/-- What reports a finding is an object, and the finding is what its fields say. -/
theorem Reports.fields {item : Value} {f : Finding} (h : Reports item f) :
    ∃ fields backtrace, item = .object fields ∧ locationsOf (fieldOf fields "locations") = .ok backtrace ∧
      Tree.Report.Yields
        { file := (fieldOf fields "file").orEmpty
          severity := (fieldOf fields "severity").orEmpty
          message := (fieldOf fields "msg").orEmpty
          backtrace
          id := (fieldOf fields "id").orEmpty } f := by
  obtain ⟨r, hr, hy⟩ := h
  cases item with
  | object fields =>
    simp only [reportOf] at hr
    cases hlocations : locationsOf (fieldOf fields "locations") with
    | error e => simp [hlocations, Except.map] at hr
    | ok backtrace =>
      rw [hlocations] at hr
      obtain rfl := Except.ok.inj hr
      exact ⟨fields, backtrace, rfl, hlocations, hy⟩
  | _ => simp [reportOf] at hr

theorem Reports.shown {item : Value} {f : Finding} (h : Reports item f) : f.hidden = false := by
  obtain ⟨r, -, hy⟩ := h
  exact hy.shown

theorem shown_of_reports {items : List Value} {fs : List Finding} (h : List.Forall₂ Reports items fs) :
    ∀ f ∈ fs, f.hidden = false := by
  intro f hf
  obtain ⟨item, -, hreports⟩ := exists_of_forall₂ h hf
  exact hreports.shown

theorem takeIn_of_reports {items : List Value} {fs : List Finding}
    (h : List.Forall₂ Reports items fs) (t : Tree) :
    (takeIn t items).failure = none ∧
      (takeIn t items).tree = { t with view := fs.foldl Tree.file t.view } := by
  induction h generalizing t with
  | nil => exact ⟨rfl, rfl⟩
  | cons hitem _ ih =>
    obtain ⟨r, hr, hy⟩ := hitem
    obtain ⟨log, hadd⟩ := Tree.add_of_yields hy t
    simp only [takeIn, hr, hadd, Outcome.ok]
    exact ih _

theorem reports_of_takeIn {items : List Value} {t : Tree} (h : (takeIn t items).failure = none) :
    ∃ fs, List.Forall₂ Reports items fs := by
  induction items generalizing t with
  | nil => exact ⟨[], .nil⟩
  | cons item items ih =>
    unfold takeIn at h
    cases hr : reportOf item with
    | error e => simp [hr] at h
    | ok r =>
      rcases Tree.add_cases t r with ⟨e, log, hadd⟩ | ⟨f, log, hy, hadd⟩
      · simp [hr, hadd, Outcome.error] at h
      · simp only [hr, hadd, Outcome.ok] at h
        obtain ⟨fs, hfs⟩ := ih h
        exact ⟨f :: fs, .cons ⟨r, hr, hy⟩ hfs⟩

/-! ## The tree with the findings -/

/-- The tree after findings were taken in. -/
def Options.filledTree (o : Options) (categories : List Category) (fs : List Finding) : Tree :=
  { o.emptyTree categories with view := fs.foldl Tree.file (o.emptyTree categories).view }

theorem tree_takeIn {items : List Value} {fs : List Finding} (h : List.Forall₂ Reports items fs) (o : Options)
    (categories : List Category) : (takeIn (o.emptyTree categories) items).tree = o.filledTree categories fs :=
  (takeIn_of_reports h (o.emptyTree categories)).2

theorem taken_of_reports {o : Options} {categories : List Category} (hhidden : o.hidden = categories.map some)
    {items : List Value} {fs : List Finding} (h : List.Forall₂ Reports items fs) :
    taken o items = (.ok (o.filledTree categories fs), shown (takeIn (o.emptyTree categories) items).log) := by
  simp only [taken, tree_of_hidden hhidden, (takeIn_of_reports h _).1, tree_takeIn h]

/-- Only items that all report a finding are taken in. -/
theorem reports_of_taken {o : Options} {items : List Value} {t : Tree} (h : (taken o items).1 = .ok t) :
    ∃ categories fs, o.hidden = categories.map some ∧ List.Forall₂ Reports items fs ∧
      t = o.filledTree categories fs := by
  cases htree : o.tree with
  | error e => simp [taken, htree] at h
  | ok start =>
    obtain ⟨categories, hhidden, rfl⟩ := hidden_of_tree htree
    cases hfailure : (takeIn (o.emptyTree categories) items).failure with
    | some e => simp [taken, htree, hfailure] at h
    | none =>
      obtain ⟨fs, hfs⟩ := reports_of_takeIn hfailure
      refine ⟨categories, fs, hhidden, hfs, ?_⟩
      rw [taken_of_reports hhidden hfs] at h
      exact (Except.ok.inj h).symm

theorem convert_of_taken_error {o : Options} {items : List Value} {e : Failure} (h : (taken o items).1 = .error e)
    (folder : Folder) : convert o items folder = { ending := .error e, messages := (taken o items).2, folder } := by
  unfold convert
  generalize taken o items = intake at h ⊢
  obtain ⟨result, messages⟩ := intake
  obtain rfl : result = .error e := h
  rfl

/-- What a run reports on. -/
theorem entries_filledTree (o : Options) (categories : List Category) {fs : List Finding}
    (h : ∀ f ∈ fs, f.hidden = false) :
    (o.filledTree categories fs).store.entries o.policy =
      (Tree.covered (({} : Mask).hideAll categories) (!o.visibleOnly) fs).map (.ofFinding o.policy) :=
  Tree.entries_foldl_file _ o.policy h

end Convert
end Findings
