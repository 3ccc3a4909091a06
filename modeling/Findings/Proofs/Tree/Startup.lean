import Findings.Proofs.Labels
import Findings.Proofs.Text.Split
import Findings.Proofs.Tree.BulkChange
import Findings.Settings

/-!
# Categories hidden at the start

The settings name a category if its label stands between two commas of their list, with nothing but blanks around
it (`mem_hiddenCategories`). The tree that a program starts with hides the categories that are named and no others
(`hides_iff`), so whatever else stands in the list, how often a label does and where, makes no difference, and the
tree is the one on which these categories were hidden one after another, in any order: `startup_hiding`.
-/

namespace Findings

open Findings.Tree (showEach)

namespace Category

theorem label_ne_nil (c : Category) : c.label ≠ [] := by
  cases c <;> decide

theorem not_isBlank_of_mem_label {c : Category} : ∀ ch ∈ c.label, ¬ch.isBlank := by
  cases c <;> decide

/-- The text is the label of the category, but for blanks around it. -/
def IsNamedBy (c : Category) (t : Text) : Prop :=
  ∃ before after : Text, before.all CodePoint.isBlank ∧ after.all CodePoint.isBlank ∧
    t = before ++ c.label ++ after

theorem isNamedBy_iff {c : Category} {t : Text} : c.IsNamedBy t ↔ t.trim = c.label :=
  (Text.trimBy_eq_iff c.label_ne_nil not_isBlank_of_mem_label).symm

end Category

namespace Settings

/-- A piece between the commas of the list names the category. -/
def Hides (s : Settings) (c : Category) : Prop :=
  ∃ piece ∈ s.hiddenLabels.split (.ofChar ','), c.IsNamedBy piece

theorem mem_hiddenCategories {s : Settings} {c : Category} : c ∈ s.hiddenCategories ↔ s.Hides c := by
  simp only [hiddenCategories, List.mem_filterMap, Category.ofLabel?_eq_some_iff, Hides,
    Category.isNamedBy_iff]

/-- The tree at the start hides the categories that the settings name, and no others. -/
theorem hides_iff (s : Settings) (applications : Registry) (c : Category) :
    (s.tree applications).mask.shows c = false ↔ s.Hides c := by
  have hmask : (s.tree applications).mask = ({} : Mask).hideAll s.hiddenCategories := rfl
  have hshown : ({} : Mask).shows c = true := by cases c <;> rfl
  rw [hmask, Mask.shows_hideAll, hshown, Bool.true_and, decide_eq_false_iff_not, not_not,
    mem_hiddenCategories]

theorem mask_congr {s s' : Settings} (h : ∀ c, s.Hides c ↔ s'.Hides c) : s.mask = s'.mask :=
  Mask.hideAll_congr (fun c => by rw [mem_hiddenCategories, mem_hiddenCategories, h]) {}

/-- Hiding categories one after another, before anything else is done, hides what the mask at the start would. -/
theorem run_hiding (s : Settings) (applications : Registry) (categories : List Category) :
    (s.tree applications).run (showEach (categories.map fun c => (c, false))) =
      { s.tree applications with view := { mask := s.mask.hideAll categories } } := by
  have hmask : s.mask.setEach (categories.map fun c => (c, false)) = s.mask.hideAll categories :=
    List.foldl_map
  rw [Tree.run_showCategory (Filtered.consistent_empty s.mask), ← hmask]
  rfl

/-- The tree at the start hides a category just if a piece between the commas of the list is its label, but for
blanks around the piece. Any other list with pieces for the same categories, be they in another order or
repeated, with blank pieces or such that name no category, gives the same tree. And so does hiding these
categories, in any order, in the tree that hides nothing at the start, before any finding is added. -/
theorem startup_hiding (s : Settings) (applications : Registry) :
    (∀ c, (s.tree applications).mask.shows c = false ↔ s.Hides c) ∧
    (∀ pieces : List Text, pieces ≠ [] → (∀ piece ∈ pieces, .ofChar ',' ∉ piece) →
      (∀ c, (∃ piece ∈ pieces, Category.IsNamedBy c piece) ↔ s.Hides c) →
      tree { s with hiddenLabels := Text.join "," pieces } applications = s.tree applications) ∧
    ∀ categories : List Category, (∀ c, c ∈ categories ↔ s.Hides c) →
      let start := tree { s with hiddenLabels := [] } applications
      let changes := showEach (categories.map fun c => (c, false))
      (∀ c, start.mask.shows c = true) ∧ (∀ reply ∈ start.replies changes, reply.result = .ok .done) ∧
        start.run changes = s.tree applications := by
  refine ⟨s.hides_iff applications, fun pieces hne hpieces hsame => ?_, fun categories hnamed => ?_⟩
  · have hsplit : (Text.join "," pieces).split (.ofChar ',') = pieces := Text.split_join hne hpieces
    have hmask : mask { s with hiddenLabels := Text.join "," pieces } = s.mask := by
      refine mask_congr fun c => ?_
      rw [← hsame, Hides, hsplit]
    rw [tree, hmask]
    rfl
  · intro start changes
    have hshown : ∀ c, start.mask.shows c = true := fun c => by cases c <;> rfl
    refine ⟨hshown, Tree.replies_showEach start _, ?_⟩
    have hmask : ({} : Mask).hideAll categories = s.mask :=
      Mask.hideAll_congr (fun c => by rw [mem_hiddenCategories, hnamed]) {}
    have hrun := run_hiding { s with hiddenLabels := [] } applications categories
    have hstart : mask { s with hiddenLabels := [] } = {} := rfl
    rw [hstart, hmask] at hrun
    exact hrun

/-- Settings with a list that names two categories, one of them twice, among pieces that name none. -/
def untidy : Settings where
  hiddenLabels := "none, style,,Style,\u3000information ,style"

theorem untidy_hides :
    (∀ c, (untidy.tree {}).mask.shows c = false ↔ c = .style ∨ c = .information) ∧
    tree { untidy with hiddenLabels := "information,style" } {} = untidy.tree {} ∧
    (tree { untidy with hiddenLabels := [] } {}).run (showEach [(.information, false), (.style, false)]) =
      untidy.tree {} := by
  obtain ⟨hhidden, hpieces, hcategories⟩ := startup_hiding untidy {}
  have hnamed : ∀ c, untidy.Hides c ↔ c = .style ∨ c = .information := by
    intro c
    rw [← mem_hiddenCategories]
    cases c <;> decide
  have htidy : ∀ c, (∃ piece ∈ [Text.ofString "information", "style"], Category.IsNamedBy c piece) ↔
      untidy.Hides c := by
    intro c
    rw [hnamed]
    simp only [Category.isNamedBy_iff]
    cases c <;> decide
  refine ⟨fun c => (hhidden c).trans (hnamed c), hpieces _ (by decide) (by decide) htidy, ?_⟩
  exact (hcategories [.information, .style] fun c => by rw [hnamed]; cases c <;> decide).2.2

end Settings
end Findings
