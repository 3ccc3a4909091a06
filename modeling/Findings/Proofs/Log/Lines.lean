import Findings.Log.Call
import Findings.Proofs.Json.OneLine
import Findings.Proofs.Lists

/-!
# What a log line tells

A record made at a time of the calendar is written on one line, in printable ASCII whatever its texts hold, and
read as JSON the line gives back what the record has: nothing of it can end the line, start another field or
take the place of one (`line_readable`). A field is there just when the record has it, as the line is made of
the fields that are present (`payload_eq`), each under a key of its own (`field?_present`).
-/

namespace Findings

namespace Log

/-! ## Times -/

/-- The time is in one of the years 1 to 9999. -/
def Time.InCalendar (t : Time) : Prop := -62135596800 ≤ t.seconds ∧ t.seconds < 253402300800

theorem year_ofDays {days : Int} (hfirst : -719162 ≤ days) (hlast : days ≤ 2932896) :
    1 ≤ (Date.ofDays days).year ∧ (Date.ofDays days).year ≤ 9999 := by
  simp only [Date.ofDays]
  -- The day within its cycle of 400 years, the year within it, and the day within that.
  generalize hday : ((days + 719468) % 146097).toNat = day
  generalize hyear : (day - day / 1460 + day / 36524 - day / 146096) / 365 = year
  have hcycle : 0 ≤ (days + 719468) / 146097 ∧ (days + 719468) / 146097 ≤ 24 := by omega
  have hbound : day ≤ 146096 := by omega
  have hyears : year ≤ 399 := by omega
  generalize hdayOfYear : day - (365 * year + year / 4 - year / 100) = dayOfYear
  split_ifs with h1 h2 h3
  · omega
  · omega
  · omega
  · omega

theorem exists_utc {t : Time} (h : t.InCalendar) : ∃ text, t.utc = .ok text := by
  obtain ⟨hfirst, hlast⟩ := h
  have hyear := @year_ofDays (t.seconds / 86400) (by omega) (by omega)
  unfold Time.utc
  rw [if_neg (by simp; omega)]
  simp only
  rw [if_neg (by simp; omega), if_neg (by simp; omega)]
  exact ⟨_, rfl⟩

theorem all_padLeft {t : Text} (h : t.all Json.isPrintableAscii) (width : Nat) :
    (t.padLeft width '0').all Json.isPrintableAscii := by
  rw [Text.padLeft, List.all_append, h, Bool.and_true]
  exact Json.all_zeros _

theorem all_utc {t : Time} {text : Text} (h : t.utc = .ok text) : text.all Json.isPrintableAscii := by
  have hnumber : ∀ width n, ((Text.ofNat n).padLeft width '0').all Json.isPrintableAscii := fun width n =>
    all_padLeft (Json.all_ofNat n) width
  have hmarks : ∀ mark ∈ ["-", "T", ":", ".", "+00:00"], (Text.ofString mark).all Json.isPrintableAscii := by
    decide
  simp only [List.forall_mem_cons] at hmarks
  obtain ⟨hdash, hbetween, hcolon, hpoint, hzone, -⟩ := hmarks
  unfold Time.utc at h
  simp only at h
  -- Of the four branches only the two that give a text are left, with microseconds and without.
  split_ifs at h
  all_goals
    obtain rfl := Except.ok.inj h
    simp only [two, List.all_append, List.all_nil, hnumber, hdash, hbetween, hcolon, hpoint, hzone,
      Bool.and_self]

/-- The time that a value stands for. -/
def moment? : Value → Option Time
  | .int n => some ⟨n, 0⟩
  | .bool b => some ⟨b.toNat, 0⟩
  | .float x => (Time.ofFloat x).toOption
  | _ => none

theorem timeText_of_moment {v : Value} {t : Time} (h : moment? v = some t) {text : Text}
    (htext : t.utc = .ok text) : timeText v = .ok text := by
  cases v with
  | int n =>
    obtain rfl := Option.some.inj h
    simp only [timeText, Except.bind, htext, Except.mapError]
  | bool b =>
    obtain rfl := Option.some.inj h
    simp only [timeText, Except.bind, htext, Except.mapError]
  | float x =>
    cases hx : Time.ofFloat x with
    | error e => simp [moment?, hx, Except.toOption] at h
    | ok t' =>
      obtain rfl : t' = t := by simpa [moment?, hx, Except.toOption] using h
      simp only [timeText, hx, Except.bind, htext, Except.mapError]
  | _ => simp [moment?] at h

/-! ## The fields of a line -/

/-- The fields that are present, in their order. -/
def present (slots : List (String × Option Value)) : List (Text × Value) :=
  slots.filterMap fun (key, v) => v.map fun v => (Text.ofString key, v)

section Present

variable {slots : List (String × Option Value)}

theorem mem_present {f : Text × Value} :
    f ∈ present slots ↔ ∃ slot ∈ slots, slot.2 = some f.2 ∧ Text.ofString slot.1 = f.1 := by
  simp only [present, List.mem_filterMap, Option.map_eq_some_iff]
  constructor
  · rintro ⟨slot, hslot, v, hv, rfl⟩
    exact ⟨slot, hslot, hv, rfl⟩
  · rintro ⟨slot, hslot, hv, hkey⟩
    exact ⟨slot, hslot, f.2, hv, by rw [hkey]⟩

theorem keys_present_sublist (slots : List (String × Option Value)) :
    ((present slots).map (·.1)).Sublist (slots.map fun slot => Text.ofString slot.1) := by
  induction slots with
  | nil => exact List.Sublist.refl _
  | cons slot slots ih =>
    obtain ⟨key, v⟩ := slot
    cases v with
    | none => exact ih.cons _
    | some v => exact ih.cons_cons _

variable (hn : (slots.map fun slot => Text.ofString slot.1).Nodup)
include hn

theorem nodup_present : ((present slots).map (·.1)).Nodup := hn.sublist (keys_present_sublist slots)

/-- Under its key the line has what is in the slot. -/
theorem field?_present {slot : String × Option Value} (h : slot ∈ slots) :
    Value.field? (present slots) (Text.ofString slot.1) = slot.2 := by
  cases hv : slot.2 with
  | some v =>
    have hmem : (Text.ofString slot.1, v) ∈ present slots := mem_present.mpr ⟨slot, h, hv, rfl⟩
    exact (find?_key_eq_some_iff (nodup_present hn)).mpr hmem
  | none =>
    refine find?_key_eq_none_iff.mpr fun hkey => ?_
    obtain ⟨f, hf, hkey⟩ := List.mem_map.mp hkey
    obtain ⟨slot', hslot', hv', hkey'⟩ := mem_present.mp hf
    obtain rfl := List.inj_on_of_nodup_map hn hslot' h (hkey'.trans hkey)
    rw [hv] at hv'
    exact absurd hv' (by simp)

end Present

/-- What a line may have, and what of it is present. -/
def slots (time : Option Text) (level logger : Value) (message : Text) (fields : Fields)
    (exception : Option Text) : List (String × Option Value) :=
  [("ts", time.map .text), ("level", some level), ("logger", some logger), ("msg", some (.text message)),
   ("file", fields.file), ("category", fields.category), ("label", fields.label), ("format", fields.format),
   ("exc", exception.map .text)]

/-- The keys that a line may have. -/
def lineKeys : List String :=
  ["ts", "level", "logger", "msg", "file", "category", "label", "format", "exc"]

section Payload

variable (time : Option Text) (level logger : Value) (message : Text) (fields : Fields)
  (exception : Option Text)

theorem payload_eq :
    payload time level logger message fields exception =
      present (slots time level logger message fields exception) := by
  have hfields : fields.entries = present [("file", fields.file), ("category", fields.category),
      ("label", fields.label), ("format", fields.format)] := rfl
  have hoptional : ∀ (key : String) (t : Option Text),
      (t.map fun t => (Text.ofString key, Value.text t)).toList = present [(key, t.map .text)] := by
    intro key t
    cases t <;> rfl
  have happend : ∀ front rest, present (front ++ rest) = present front ++ present rest := fun _ _ =>
    List.filterMap_append
  have hfixed : [(Text.ofString "level", level), (Text.ofString "logger", logger),
      (Text.ofString "msg", .text message)] =
      present [("level", some level), ("logger", some logger), ("msg", some (.text message))] := rfl
  rw [payload, hfields, hfixed, hoptional, hoptional, ← happend, ← happend, ← happend]
  rfl

theorem nodup_keys : ((slots time level logger message fields exception).map
    fun slot => Text.ofString slot.1).Nodup := by
  have hkeys : (lineKeys.map Text.ofString).Nodup := by decide
  exact hkeys

end Payload

namespace Call

/-! ## Records -/

/-- What the record has as its level: its name, unless another value was set in its place. -/
def levelValue (c : Call) : Value := (c.attribute? "levelname").getD (.text (levelName c.level))

/-- What the record has as its logger. -/
def loggerValue (c : Call) : Value := (c.attribute? "name").getD (.text c.logger)

/-- When the record was made. -/
def created? (c : Call) : Option Value := (c.attribute? "created").or c.time

/-- The record carries an exception, be it that of the call or one set in its place, whose first part is not null
then. -/
def Carries (c : Call) : Prop :=
  match c.attribute? "exc_info" with
  | none => c.exception.isSome
  | some v => ∃ first rest, v = .list (first :: rest) ∧ first ≠ .null

/-- The attributes that are written if they are set. -/
def writtenAttributes : List String := ["file", "category", "label", "format"]

/-- The record was made at a time of the calendar, its message can be formatted, and what it has comes back from
JSON; a text does if it has no pair of surrogates. -/
structure Legible (c : Call) (message : Text) (exception : Option Text) (depth : Nat) : Prop where
  time : ∀ v ∈ c.created?, ∃ t, moment? v = some t ∧ t.InCalendar
  formatted : c.message = .ok message
  excepted : c.writtenException = .ok exception
  level : Json.Lossless depth c.levelValue
  logger : Json.Lossless depth c.loggerValue
  message : message.Unpaired
  attributes : ∀ key ∈ writtenAttributes, ∀ v ∈ c.attribute? key, Json.Lossless depth v
  exception : ∀ t ∈ exception, t.Unpaired

/-- The fields say what the record has, and nothing else but its time. -/
structure Tells (c : Call) (message : Text) (exception : Option Text) (fields : List (Text × Value)) : Prop where
  level : Value.field? fields (Text.ofString "level") = some c.levelValue
  logger : Value.field? fields (Text.ofString "logger") = some c.loggerValue
  message : Value.field? fields (Text.ofString "msg") = some (.text message)
  attributes : ∀ key ∈ writtenAttributes, Value.field? fields (Text.ofString key) = c.attribute? key
  exception : Value.field? fields (Text.ofString "exc") = exception.map .text
  carries : (Value.field? fields (Text.ofString "exc")).isSome ↔ c.Carries
  time : (Value.field? fields (Text.ofString "ts")).isSome = c.time.isSome
  keys : ∀ f ∈ fields, f.1 ∈ lineKeys.map Text.ofString
  distinct : (fields.map (·.1)).Nodup

theorem exists_writtenTime {c : Call} (h : ∀ v ∈ c.created?, ∃ t, moment? v = some t ∧ t.InCalendar) :
    ∃ time, c.writtenTime = .ok time ∧ time.isSome = c.time.isSome ∧ ∀ t ∈ time, t.Unpaired := by
  have hwritten : ∀ v ∈ c.created?, ∃ text, timeText v = .ok text ∧ text.Unpaired := by
    intro v hv
    obtain ⟨t, hmoment, hcalendar⟩ := h v hv
    obtain ⟨text, htext⟩ := exists_utc hcalendar
    exact ⟨text, timeText_of_moment hmoment htext,
      Text.unpaired_of_isEncodable (Json.isEncodable_of_isPrinted (Json.all_isPrinted (all_utc htext)))⟩
  unfold writtenTime
  unfold created? at hwritten
  cases hcreated : c.attribute? "created" with
  | some v =>
    obtain ⟨text, htext, hunpaired⟩ := hwritten v (by simp [hcreated])
    cases c.time <;> simp [htext, Except.map, hunpaired]
  | none =>
    cases htime : c.time with
    | none => exact ⟨none, rfl, rfl, by simp⟩
    | some v =>
      obtain ⟨text, htext, hunpaired⟩ := hwritten v (by simp [hcreated, htime])
      exact ⟨some text, by simp [htext, Except.map], rfl, by simpa using hunpaired⟩

theorem isSome_exceptionText {v : Value} {exception : Option Text} (h : exceptionText v = .ok exception) :
    exception.isSome ↔ ∃ first rest, v = .list (first :: rest) ∧ first ≠ .null := by
  unfold exceptionText at h
  split_ifs at h with hgiven
  · obtain rfl := Except.ok.inj h
    refine ⟨fun hsome => absurd hsome (by simp), ?_⟩
    rintro ⟨first, rest, rfl, -⟩
    exact absurd hgiven (by simp [Value.isGiven])
  · split at h
    · obtain rfl := Except.ok.inj h
      simp
    · next first rest hnull =>
      obtain rfl := Except.ok.inj h
      exact ⟨fun _ => ⟨first, _, rfl, hnull⟩, fun _ => rfl⟩
    all_goals simp at h

theorem isSome_writtenException {c : Call} {exception : Option Text}
    (h : c.writtenException = .ok exception) : exception.isSome ↔ c.Carries := by
  unfold writtenException at h
  unfold Carries
  cases hset : c.attribute? "exc_info" with
  | some v =>
    rw [hset] at h
    exact isSome_exceptionText h
  | none =>
    rw [hset] at h
    obtain rfl := Except.ok.inj h
    simp

/-! ## Lines -/

/-- The line of a record is the object with what is present of it. -/
theorem line_eq {c : Call} {time exception : Option Text} {message : Text} (htime : c.writtenTime = .ok time)
    (hmessage : c.message = .ok message) (hexception : c.writtenException = .ok exception)
    (hlegible : (Value.object
      (present (slots time c.levelValue c.loggerValue message c.fields exception))).isLegible) :
    c.line = .ok (Json.write .spaced (.object
      (present (slots time c.levelValue c.loggerValue message c.fields exception)))) := by
  rw [← payload_eq] at hlegible ⊢
  unfold line
  rw [htime, hmessage, hexception]
  exact if_pos hlegible

theorem lossless_levelName (level : Level) (depth : Nat) : Json.Lossless depth (.text (levelName level)) := by
  have hname : (levelName level).all Json.isPrintableAscii := by
    have hnumber : (Text.ofString "Level ").all Json.isPrintableAscii := by decide
    unfold levelName
    split_ifs
    all_goals first
      | decide
      | rw [List.all_append, hnumber, Json.all_ofInt]; rfl
  exact .text (Text.unpaired_of_isEncodable (Json.isEncodable_of_isPrinted (Json.all_isPrinted hname)))

section Legible

variable {c : Call} {message : Text} {exception : Option Text} {depth : Nat}

/-- All that may be on the line comes back from JSON. -/
theorem Legible.lossless_slots (h : c.Legible message exception depth) {time : Option Text}
    (htime : ∀ t ∈ time, t.Unpaired) :
    ∀ slot ∈ slots time c.levelValue c.loggerValue message c.fields exception,
      ∀ v ∈ slot.2, Json.Lossless depth v := by
  have htext : ∀ t : Option Text, (∀ t' ∈ t, t'.Unpaired) → ∀ v ∈ t.map Value.text, Json.Lossless depth v := by
    intro t ht v hv
    obtain ⟨t', ht', rfl⟩ := Option.map_eq_some_iff.mp hv
    exact .text (ht t' ht')
  have hattributes := h.attributes
  simp only [writtenAttributes, slots, List.forall_mem_cons, List.not_mem_nil, false_implies, implies_true,
    and_true] at hattributes ⊢
  obtain ⟨hfile, hcategory, hlabel, hformat⟩ := hattributes
  exact ⟨htext time htime, by simpa using h.level, by simpa using h.logger,
    by simpa using Json.Lossless.text h.message, hfile, hcategory, hlabel, hformat, htext exception h.exception⟩

theorem mem_lineKeys_of_mem_present {time : Option Text} {level logger : Value} {fields : Fields}
    {f : Text × Value} (h : f ∈ present (slots time level logger message fields exception)) :
    f.1 ∈ lineKeys.map Text.ofString :=
  (keys_present_sublist (slots time level logger message fields exception)).subset (List.mem_map_of_mem h)

theorem Legible.lossless_object (h : c.Legible message exception depth) {time : Option Text}
    (htime : ∀ t ∈ time, t.Unpaired) :
    Json.Lossless (depth + 1)
      (.object (present (slots time c.levelValue c.loggerValue message c.fields exception))) := by
  have hkeys : ∀ key ∈ lineKeys.map Text.ofString, key.Unpaired := by decide
  refine .object (nodup_present (nodup_keys _ _ _ _ _ _))
    (fun f hf => hkeys _ (mem_lineKeys_of_mem_present hf)) fun f hf => ?_
  obtain ⟨slot, hslot, hv, -⟩ := mem_present.mp hf
  exact h.lossless_slots htime slot hslot _ hv

/-- The fields that are present say what the record has. -/
theorem tells_present (hexception : c.writtenException = .ok exception) {time : Option Text}
    (htime : time.isSome = c.time.isSome) :
    c.Tells message exception
      (present (slots time c.levelValue c.loggerValue message c.fields exception)) := by
  have hn := nodup_keys time c.levelValue c.loggerValue message c.fields exception
  have hfound : ∀ slot ∈ slots time c.levelValue c.loggerValue message c.fields exception,
      Value.field? (present (slots time c.levelValue c.loggerValue message c.fields exception))
        (Text.ofString slot.1) = slot.2 := fun slot => field?_present hn
  simp only [slots, List.forall_mem_cons] at hfound
  obtain ⟨hts, hlevel, hlogger, hmsg, hfile, hcategory, hlabel, hformat, hexc, -⟩ := hfound
  refine ⟨hlevel, hlogger, hmsg, ?_, hexc, ?_, ?_, fun f => mem_lineKeys_of_mem_present, nodup_present hn⟩
  · simp only [writtenAttributes, List.forall_mem_cons]
    exact ⟨hfile, hcategory, hlabel, hformat, fun key hkey => absurd hkey List.not_mem_nil⟩
  · rw [slots, hexc, Option.isSome_map]
    exact isSome_writtenException hexception
  · rw [slots, hts, Option.isSome_map]
    exact htime

/-- Whatever its texts hold, a record is one line of printable ASCII, and read as JSON the line says what the
record has: level, logger and message, each attribute that is written just when it is set, an exception just when
the record carries one, and no more but the time. -/
theorem line_readable (h : c.Legible message exception depth) :
    ∃ line fields, c.line = .ok line ∧ (∀ ch ∈ line, 0x20 ≤ ch.val ∧ ch.val ≤ 0x7E) ∧
      Json.read (depth + 1) line = .ok (.object fields) ∧ c.Tells message exception fields := by
  obtain ⟨time, htime, hgiven, hunpaired⟩ := exists_writtenTime h.time
  have hlossless := h.lossless_object hunpaired
  refine ⟨_, _, line_eq htime h.formatted h.excepted hlossless.isLegible, fun ch hch => ?_,
    Json.read_write hlossless, tells_present h.excepted hgiven⟩
  have hplain := List.all_eq_true.mp (Json.all_write _) ch hch
  simpa [Json.isPrintableAscii] using hplain

end Legible

/-- A label with a line end, what looks like a field, a line separator and a lone surrogate. -/
def forgery : Text := Text.ofString "x\n\x7b\"level\": \"INFO\"\x7d\u2028" ++ [.ofNat 0xDC00]

/-- The record about it, which carries an exception. -/
def forgedLabel : Call where
  level := warning
  logger := Event.treeLogger
  template := "Unknown severity %s, filing under %s"
  arguments := [.text forgery, .text "error"]
  time := some (.int 1772366400)
  exception := some ⟨"ValueError", "two\nlines"⟩
  attributes := [("label", .text forgery), ("file", .text "a\r.c"), ("line", .int 7)]

theorem forgedLabel_readable :
    forgedLabel.Legible ("Unknown severity " ++ forgery ++ ", filing under error")
        (some "ValueError: two\nlines") 0 ∧
      ∃ line fields, forgedLabel.line = .ok line ∧ (∀ ch ∈ line, 0x20 ≤ ch.val ∧ ch.val ≤ 0x7E) ∧
        Json.read 1 line = .ok (.object fields) ∧
        forgedLabel.Tells ("Unknown severity " ++ forgery ++ ", filing under error")
          (some "ValueError: two\nlines") fields := by
  have hfile : forgedLabel.attribute? "file" = some (.text "a\r.c") := rfl
  have hcategory : forgedLabel.attribute? "category" = none := rfl
  have hlabel : forgedLabel.attribute? "label" = some (.text forgery) := rfl
  have hformat : forgedLabel.attribute? "format" = none := rfl
  have hlegible : forgedLabel.Legible ("Unknown severity " ++ forgery ++ ", filing under error")
      (some "ValueError: two\nlines") 0 := by
    refine ⟨?_, rfl, rfl, lossless_levelName _ 0, .text (by decide), by decide +kernel, ?_, by decide⟩
    · rintro v hv
      obtain rfl : .int 1772366400 = v := Option.some.inj hv
      exact ⟨_, rfl, by decide, by decide⟩
    · simp only [writtenAttributes, List.forall_mem_cons, hfile, hcategory, hlabel, hformat, Option.mem_def,
        Option.some.injEq, forall_eq', List.not_mem_nil, false_implies, implies_true, and_true, reduceCtorEq]
      exact ⟨.text (by decide), trivial, .text (by decide)⟩
  exact ⟨hlegible, line_readable hlegible⟩

end Call
end Log
end Findings
