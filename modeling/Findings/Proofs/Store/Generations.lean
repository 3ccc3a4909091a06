import Findings.Proofs.Store.Content

/-!
# Stores of other generations

A store does with its generation nothing but compare it with that of a reference, and pass it on. So a store
of a later generation, asked with references of a later generation, answers as before (`resolve_shift`,
`nextRef_shift`), and whatever changes the store changes it in the same way (`insert_shift`,
`applyMask_shift`, `showCategory_shift`, `clear_shift`).
-/

namespace Findings

/-- The reference to the same slot, `d` generations later. -/
def Ref.shift (d : Nat) (r : Ref) : Ref := { r with generation := r.generation + d }

namespace Store

/-- The same store, `d` generations later. -/
def shift (d : Nat) (s : Store) : Store := { s with generation := s.generation + d }

variable (d : Nat) (s : Store)

@[simp] theorem shift_generation : (s.shift d).generation = s.generation + d := rfl

/-! ## Reading -/

theorem fileOf_shift (r : Ref) : (s.shift d).fileOf (r.shift d) = s.fileOf r := by
  have hgeneration : (r.shift d).generation = (s.shift d).generation ↔ r.generation = s.generation := by
    simp only [Ref.shift, shift_generation]
    omega
  simp only [fileOf, hgeneration]
  rfl

theorem resolve_shift (r : Ref) : (s.shift d).resolve (r.shift d) = s.resolve r := by
  simp only [resolve, fileOf_shift]
  rfl

theorem nextRef_shift (path : Text) : (s.shift d).nextRef path = (s.nextRef path).shift d := by
  simp only [nextRef, Ref.shift, shift_generation, Int.natCast_add]
  rfl

/-! ## Writing -/

theorem insert_shift (f : Finding) : (s.shift d).insert f = (s.insert f).shift d := rfl

theorem reserve_shift (path : Text) : (s.shift d).reserve path = (s.reserve path).shift d := by
  unfold reserve
  split_ifs with h h' h'
  · rfl
  · exact absurd h h'
  · exact absurd h' h
  · rfl

theorem modifyGroup_shift (path : Text) (change : FileGroup → FileGroup) :
    (s.shift d).modifyGroup path change = (s.modifyGroup path change).shift d := rfl

theorem applyMask_shift (m : Mask) (r : Ref) :
    (s.shift d).applyMask m (r.shift d) = (s.applyMask m r).shift d := by
  simp only [applyMask, resolve_shift]
  cases s.resolve r with
  | none => rfl
  | some f => exact modifyGroup_shift d s r.path _

theorem foldl_shift {α : Type} (act : Store → α → Store)
    (h : ∀ s a, act (s.shift d) a = (act s a).shift d) (l : List α) :
    l.foldl act (s.shift d) = (l.foldl act s).shift d := by
  induction l generalizing s with
  | nil => rfl
  | cons a l ih => rw [List.foldl_cons, h, ih, List.foldl_cons]

theorem showCategory_shift (c : Category) (shown : Bool) :
    (s.shift d).showCategory c shown = (s.showCategory c shown).shift d := by
  have hflags := foldl_shift d s (setHiddenAt · (!shown)) (fun _ _ => rfl) (s.slotsOf c)
  have hfiles := foldl_shift d ((s.slotsOf c).foldl (setHiddenAt · (!shown)) s)
    (fun s path => s.modifyGroup path FileGroup.refresh) (fun _ _ => rfl) (s.pathsOf c)
  calc (s.shift d).showCategory c shown =
      (s.pathsOf c).foldl (fun s path => s.modifyGroup path FileGroup.refresh)
        ((s.slotsOf c).foldl (setHiddenAt · (!shown)) (s.shift d)) := rfl
    _ = (s.showCategory c shown).shift d := by rw [hflags, hfiles, showCategory]

theorem clear_shift : (s.shift d).clear = s.clear.shift d := by
  have hgeneration : s.generation + d + 1 = s.generation + 1 + d := by omega
  simp only [clear, shift, hgeneration]

end Store
end Findings
