import Findings.Proofs.Tree.Accumulation
import Findings.Proofs.Tree.Visibility

/-!
# Settings and masks do not interfere with the data

Operations do not interfere with what is seen of a tree when they leave it as it is, and when all others make
of trees that look the same trees that look the same and answer additions alike (`Noninterfering`). Such
operations can be deleted from a run without a trace (`Noninterfering.run_filter`,
`Noninterfering.additions_filter`). Settings do not interfere with the store and the mask
(`noninterfering_settings`), nor what is shown and hidden with the content of the store and the policy
(`noninterfering_masks`), on which alone a report on all findings depends (`entries_content`). What this means
for the answers and the rows of a tree and for the reports is `settings_and_masks_apart`.
-/

namespace Findings

namespace Store

/-- A report on all findings does not depend on flags. -/
theorem entries_content (s : Store) {policy : PathPolicy} (h : policy.saveAllErrors = true) :
    s.content.entries policy = s.entries policy := by
  have hentry : ∀ f : Finding,
      Report.Entry.ofFinding policy f.content = Report.Entry.ofFinding policy f := fun _ => rfl
  simp only [entries, select, h, traverse_true, content_files, List.flatMap_map, List.map_flatMap,
    FileGroup.content_findings, List.map_map, Function.comp_def, hentry]

end Store

namespace Tree

/-! ## Deleting operations -/

def Op.isAdd : Op → Bool
  | .add _ => true
  | _ => false

/-- The replies of a run to its additions. -/
def additions (t : Tree) (ops : List Op) : List Reply :=
  ((ops.zip (t.replies ops)).filter (·.1.isAdd)).map (·.2)

theorem additions_cons (t : Tree) (op : Op) (ops : List Op) :
    t.additions (op :: ops) =
      (if op.isAdd then [(t.step op).2] else []) ++ (t.step op).1.additions ops := by
  cases hop : op.isAdd <;> simp [additions, replies, hop]

/-- The operations that `keep` leaves out do not interfere with what `look` sees of a tree. -/
structure Noninterfering {α : Type} (keep : Op → Bool) (look : Tree → α) : Prop where
  keeps_add : ∀ r, keep (.add r) = true
  left_out : ∀ (t : Tree) (op : Op), keep op = false → look (t.step op).1 = look t
  kept : ∀ (t t' : Tree) (op : Op), keep op = true → look t = look t' →
    look (t.step op).1 = look (t'.step op).1
  answers : ∀ (t t' : Tree) (r : Report), look t = look t' → (t.step (.add r)).2 = (t'.step (.add r)).2

section Noninterfering

variable {α : Type} {keep : Op → Bool} {look : Tree → α} (h : Noninterfering keep look)
include h

theorem Noninterfering.run_filter {t t' : Tree} (hlook : look t = look t') (ops : List Op) :
    look (t.run (ops.filter keep)) = look (t'.run ops) := by
  induction ops generalizing t t' with
  | nil => exact hlook
  | cons op ops ih =>
    cases hop : keep op with
    | true =>
      rw [List.filter_cons_of_pos hop, run, run]
      exact ih (h.kept t t' op hop hlook)
    | false =>
      rw [List.filter_cons_of_neg (by simp [hop]), run]
      exact ih (hlook.trans (h.left_out t' op hop).symm)

theorem Noninterfering.additions_filter {t t' : Tree} (hlook : look t = look t') (ops : List Op) :
    t.additions (ops.filter keep) = t'.additions ops := by
  induction ops generalizing t t' with
  | nil => rfl
  | cons op ops ih =>
    cases hop : keep op with
    | true =>
      have hreply : (if op.isAdd then [(t.step op).2] else []) =
          if op.isAdd then [(t'.step op).2] else [] := by
        cases op with
        | add r => rw [h.answers t t' r hlook]
        | _ => rfl
      rw [List.filter_cons_of_pos hop, additions_cons, additions_cons, hreply,
        ih (h.kept t t' op hop hlook)]
    | false =>
      have hadd : op.isAdd = false := by
        cases op with
        | add r => rw [h.keeps_add r] at hop; exact absurd hop (by decide)
        | _ => rfl
      rw [List.filter_cons_of_neg (by simp [hop]), additions_cons, hadd]
      exact ih (hlook.trans (h.left_out t' op hop).symm)

end Noninterfering

/-! ## Settings -/

/-- Settings of what is shown, saved and stripped of paths. -/
def Op.isSetting : Op → Bool
  | .updateSettings .. => true
  | .setCheckDirectory _ => true
  | _ => false

theorem noninterfering_settings : Noninterfering (fun op => !op.isSetting) Tree.view where
  keeps_add _ := rfl
  left_out t op hop := by
    cases op with
    | updateSettings _ _ _ => rfl
    | setCheckDirectory _ => rfl
    | _ => simp [Op.isSetting] at hop
  kept t t' op hop hview := by
    cases op with
    | add r =>
      simp only [step, add_eq]
      cases r.filed with
      | error e => exact hview
      | ok f => exact congrArg (file · f) hview
    | clear => exact congrArg Filtered.clear hview
    | showCategory code shown => exact congrArg (fun v => (Filtered.setMask v code shown).state) hview
    | showCategories entries => exact congrArg (fun v => (Filtered.setMasks v entries).state) hview
    | _ => exact hview
  answers t t' r hview := by
    have hstore : t.store = t'.store := congrArg Filtered.store hview
    simp only [step, add_eq, hstore]
    cases r.filed <;> rfl

/-! ## Masks -/

/-- Changes of what is shown and hidden. -/
def Op.isShowing : Op → Bool
  | .showCategory .. => true
  | .showCategories _ => true
  | _ => false

theorem noninterfering_masks :
    Noninterfering (fun op => !op.isShowing) fun t => (t.store.content, t.policy) where
  keeps_add _ := rfl
  left_out t op hop := by
    cases op with
    | showCategory code shown => exact congrArg (·, t.policy) (t.view.content_setMask code shown)
    | showCategories entries => exact congrArg (·, t.policy) (t.view.content_setMasks entries)
    | _ => simp [Op.isShowing] at hop
  kept t t' op hop hlook := by
    obtain ⟨hcontent, hpolicy⟩ := Prod.mk.inj hlook
    have hgeneration : t.store.generation = t'.store.generation := by
      rw [← Store.content_generation t.store, hcontent, Store.content_generation]
    cases op with
    | add r =>
      simp only [step, add_eq]
      cases r.filed with
      | error e => exact hlook
      | ok f =>
        have hsame : (file t.view f).store.content = (file t'.view f).store.content := by
          rw [content_file_insert, content_file_insert]
          exact congrArg (·.insert f.content) hcontent
        exact Prod.ext hsame hpolicy
    | clear =>
      have hclear : t.store.clear = t'.store.clear := by rw [Store.clear, Store.clear, hgeneration]
      exact Prod.ext (congrArg Store.content hclear) hpolicy
    | showCategory code shown => simp [Op.isShowing] at hop
    | showCategories entries => simp [Op.isShowing] at hop
    | updateSettings showFullPath saveFullPath saveAllErrors =>
      exact Prod.ext hcontent
        (congrArg (fun p : PathPolicy => { p with showFullPath, saveFullPath, saveAllErrors }) hpolicy)
    | setCheckDirectory directory =>
      exact Prod.ext hcontent
        (congrArg (fun p : PathPolicy => { p with checkDirectory := Path.canonical directory }) hpolicy)
    | _ => exact hlook
  answers t t' r hlook := by
    have hcontent : t.store.content = t'.store.content := congrArg Prod.fst hlook
    have href : ∀ path, t.store.nextRef path = t'.store.nextRef path := by
      intro path
      rw [← Store.nextRef_content t.store, hcontent, Store.nextRef_content]
    simp only [step, add_eq, href]
    cases r.filed <;> rfl

/-! ## Both -/

/-- The path of a listed file and the references to its listed findings. -/
def FileRow.places (row : FileRow) : Text × List Ref := (row.path, row.findings.map (·.ref))

/-- Where findings are listed depends on the store alone. -/
theorem places_rows (t : Tree) (includeHidden : Bool) :
    (t.rows includeHidden).map FileRow.places = (t.store.groups includeHidden).map fun g =>
      (g.path, (g.findings.zipIdx.filter fun p => includeHidden || !p.1.hidden).map fun p =>
        t.store.refTo g p.2) := by
  rw [rows, List.map_map]
  refine List.map_congr_left fun g _ => ?_
  simp only [Function.comp_apply, FileRow.places, fileRow, List.map_map]
  rfl

/-- Settings and masks do not interfere with the data. Without its changes of settings, a run answers all
additions as before and leaves the same files and findings with the same flags, the same mask, and rows with the
same paths and references. Without its changes of what is shown and hidden, refused ones included, a run answers
all additions as before, and whenever all findings are saved, the reports are the same in each format. -/
theorem settings_and_masks_apart (t : Tree) (ops : List Op) :
    (let t' := t.run ops
     let without := ops.filter fun op => !op.isSetting
     t.additions without = t.additions ops ∧ (t.run without).store = t'.store ∧
     (t.run without).mask = t'.mask ∧
     ∀ includeHidden, ((t.run without).rows includeHidden).map FileRow.places =
       (t'.rows includeHidden).map FileRow.places) ∧
    (let t' := t.run ops
     let without := ops.filter fun op => !op.isShowing
     t.additions without = t.additions ops ∧ (t.run without).policy = t'.policy ∧
     (t'.policy.saveAllErrors = true →
       ∀ format, (t.run without).exported format = t'.exported format)) := by
  constructor
  · intro t' without
    have hview : (t.run without).view = t'.view := noninterfering_settings.run_filter rfl ops
    have hstore : (t.run without).store = t'.store := congrArg Filtered.store hview
    refine ⟨noninterfering_settings.additions_filter rfl ops, hstore, congrArg Filtered.mask hview, ?_⟩
    intro includeHidden
    rw [places_rows, places_rows, hstore]
  · intro t' without
    obtain ⟨hcontent, hpolicy⟩ := Prod.mk.inj (noninterfering_masks.run_filter (rfl : _ = _) ops)
    refine ⟨noninterfering_masks.additions_filter rfl ops, hpolicy, fun hall format => ?_⟩
    have hentries : (t.run without).store.entries t'.policy = t'.store.entries t'.policy := by
      rw [← Store.entries_content _ hall, hcontent, Store.entries_content _ hall]
    unfold exported Store.exported
    rw [hpolicy, hentries]

theorem mixedRun_apart :
    let without := mixedRun.filter fun op => !op.isShowing
    without.length = 3 ∧ (({} : Tree).run mixedRun).policy.saveAllErrors = true ∧
    ∀ format, (({} : Tree).run without).exported format = (({} : Tree).run mixedRun).exported format := by
  intro without
  have hall : (({} : Tree).run mixedRun).policy.saveAllErrors = true := rfl
  exact ⟨rfl, hall, (settings_and_masks_apart {} mixedRun).2.2.2 hall⟩

end Tree
end Findings
