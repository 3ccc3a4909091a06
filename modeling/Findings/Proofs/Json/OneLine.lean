import Findings.Proofs.Json.Ascii

/-!
# JSON on one line

With blanks behind commas and colons, a value is written on one line: in printable ASCII only, whatever its
texts hold (`all_write`). A lossless value comes back from that line (`read_write`).
-/

namespace Findings.Json

theorem writeItems_eq (s : Style) (items : List Value) : writeItems s items = items.map (write s) := by
  induction items with
  | nil => rfl
  | cons v items ih => rw [writeItems, ih, List.map_cons]

theorem writeFields_eq (fields : List (Text × Value)) :
    writeFields .spaced fields = fields.map (writeField isPrintableAscii " " (write .spaced)) := by
  induction fields with
  | nil => rfl
  | cons f fields ih =>
    rw [writeFields, ih, List.map_cons, writeField, List.append_assoc]
    rfl

/-! ## Printable ASCII -/

theorem all_enclosed {opening closing : Text} {parts : List Text} (hopening : opening.all isPrintableAscii)
    (hclosing : closing.all isPrintableAscii) (h : ∀ t ∈ parts, t.all isPrintableAscii) :
    (opening ++ Text.join ", " parts ++ closing).all isPrintableAscii := by
  have hcomma : (Text.ofString ", ").all isPrintableAscii := by decide
  rw [List.all_append, List.all_append, hopening, Text.all_join hcomma h, hclosing]
  rfl

/-- A line has nothing but printable ASCII, and so no line end. -/
theorem all_write (v : Value) : (write .spaced v).all isPrintableAscii := by
  induction v using Value.induction with
  | null => rfl
  | bool b => cases b <;> rfl
  | int n => exact all_ofInt n
  | float x => exact all_writeFloat x
  | text t => exact all_writeText t
  | category c => exact all_writeText _
  | list items ih =>
    rw [write, writeItems_eq]
    refine all_enclosed (by decide) (by decide) fun t ht => ?_
    obtain ⟨v, hv, rfl⟩ := List.mem_map.mp ht
    exact ih v hv
  | object fields ih =>
    rw [write, writeFields_eq]
    refine all_enclosed (by decide) (by decide) fun t ht => ?_
    obtain ⟨f, hf, rfl⟩ := List.mem_map.mp ht
    have hcolon : (.ofChar ':' :: Text.ofString " " : Text).all isPrintableAscii := by decide
    simp only [writeField, List.all_append, all_writeText, hcolon, ih f hf, Bool.and_self]

/-! ## Reading back -/

section Parts

variable {depth : Nat}

/-- A list on one line is read if its items are. -/
theorem spells_line_list {items values : List Value}
    (h : List.Forall₂ (fun v => Spells (readValue depth) (write .spaced v)) items values) :
    Spells (readValue (depth + 1)) (write .spaced (.list items)) (.list values) := by
  rw [write, writeItems_eq]
  by_cases hempty : items = []
  · subst hempty
    cases h
    exact ⟨fun rest _ => rfl, _, _, rfl, by decide, by decide⟩
  · have hsep : (Text.ofString " ").all isBlank := by decide
    have hspells := spells_list hsep (List.all_nil : [].all isBlank) (List.all_nil : [].all isBlank) hempty h
    rw [List.append_assoc]
    exact hspells

/-- An object on one line is read if its values are. -/
theorem spells_line_object {fields values : List (Text × Value)}
    (h : List.Forall₂ (SpellsField isPrintableAscii (readValue depth) (write .spaced)) fields values) :
    Spells (readValue (depth + 1)) (write .spaced (.object fields)) (.object (mergeFields values)) := by
  rw [write, writeFields_eq]
  by_cases hempty : fields = []
  · subst hempty
    cases h
    exact ⟨fun rest _ => rfl, _, _, rfl, by decide, by decide⟩
  · have hblank : (Text.ofString " ").all isBlank := by decide
    have hspells := spells_object le_of_isPrintableAscii hblank hblank (List.all_nil : [].all isBlank)
      (List.all_nil : [].all isBlank) hempty h
    rw [List.append_assoc]
    exact hspells

end Parts

theorem spells_write {depth : Nat} {v : Value} (h : Lossless depth v) :
    Spells (readValue depth) (write .spaced v) v := by
  induction h with
  | null => exact spells_word (.head _) _
  | bool b => exact spells_bool b _
  | int h => exact spells_ofInt h _
  | @text depth t h =>
    have hspells := spells_writeText le_of_isPrintableAscii t depth
    rwa [respelled_eq_self isPrintableAscii h] at hspells
  | list h ih => exact spells_line_list (List.forall₂_same.mpr ih)
  | object hn hkeys h ih =>
    have hspells := spells_line_object (List.forall₂_same.mpr fun f hf =>
      ⟨(respelled_eq_self isPrintableAscii (hkeys f hf)).symm, ih f hf⟩)
    rwa [mergeFields_eq_self hn] at hspells

/-- A lossless value comes back from its line. -/
theorem read_write {depth : Nat} {v : Value} (h : Lossless depth v) :
    read depth (write .spaced v) = .ok v := by
  have hspells := spells_write h
  have hread := hspells.read [] fun c hc => by simp at hc
  have hstart : skipBlanks (write .spaced v) = write .spaced v := by
    obtain ⟨c, r, hwrite, hc, -⟩ := hspells.head
    rw [hwrite]
    exact skipBlanks_cons (by simpa using hc) r
  rw [List.append_nil] at hread
  simp only [read, hstart, hread]
  rfl

end Findings.Json
