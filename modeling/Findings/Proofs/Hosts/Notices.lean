import Findings.Proofs.Convert.JsonItems
import Findings.Proofs.Server.Reporting
import Findings.Proofs.Text.Encoding

/-!
# What both hosts are told

A finding is told to the converter as an item of a findings file and to the server in the body of a request.
The two name the message and the locations differently (`Host.messageKey`, `Host.locationsKey`), read the
fields by code of their own, and come to the same report (`reportOf_told`, `readReport_told`). Any finding
without surrogates whose line numbers have no more digits than are read can be written for both hosts, and
each reads what is written as it was told (`readItems_findingsFile`, `posts_posting`).
-/

namespace Findings

/-- A finding as an analysis tells it. -/
structure Notice where
  file : Text
  severity : Text
  message : Text
  id : Text
  locations : List (Text × Nat) := []
deriving DecidableEq, Repr

inductive Host where
  | converter
  | server
deriving DecidableEq, Repr

def Host.messageKey : Host → Text
  | converter => "msg"
  | server => "message"

def Host.locationsKey : Host → Text
  | converter => "locations"
  | server => "backtrace"

namespace Notice

/-- The report of it. -/
def report (n : Notice) : Tree.Report where
  file := .text n.file
  severity := .text n.severity
  message := .text n.message
  backtrace := n.locations.map fun l => (.text l.1, .int l.2)
  id := .text n.id

/-- The value is an object that tells a location, whatever else it holds. -/
structure LocationTold (l : Text × Nat) (fields : List (Text × Value)) : Prop where
  file : Value.field? fields (Text.ofString "file") = some (.text l.1)
  line : Value.field? fields (Text.ofString "line") = some (.int l.2)

/-- The fields tell the finding to a host, whatever else there is. -/
structure FieldsTell (host : Host) (n : Notice) (fields : List (Text × Value)) : Prop where
  file : Value.field? fields (Text.ofString "file") = some (.text n.file)
  severity : Value.field? fields (Text.ofString "severity") = some (.text n.severity)
  message : Value.field? fields host.messageKey = some (.text n.message)
  id : Value.field? fields (Text.ofString "id") = some (.text n.id)
  locations : ∃ ls : List (List (Text × Value)),
    Value.field? fields host.locationsKey = some (.list (ls.map .object)) ∧
      List.Forall₂ LocationTold n.locations ls

/-- The value tells the finding to a host. -/
def Told (host : Host) (n : Notice) (v : Value) : Prop := ∃ fields, v = .object fields ∧ FieldsTell host n fields

variable {n : Notice} {v : Value}

theorem report_ofTexts (n : Notice) : n.report.OfTexts := by
  refine ⟨⟨_, rfl⟩, ⟨_, rfl⟩, ⟨_, rfl⟩, ⟨_, rfl⟩, fun p hp => ?_⟩
  obtain ⟨l, -, rfl⟩ := List.mem_map.mp hp
  exact ⟨l.1, l.2, rfl⟩

end Notice

/-! ## Items of a findings file -/

namespace Convert

open Notice

theorem fieldOf_of_field? {fields : List (Text × Value)} {key : String} {v : Value}
    (h : Value.field? fields (Text.ofString key) = some v) : fieldOf fields key = v := by
  rw [fieldOf, h]
  rfl

theorem locationOf_told {l : Text × Nat} {fields : List (Text × Value)} (h : LocationTold l fields) :
    locationOf (.object fields) = .ok (.text l.1, .int l.2) := by
  simp only [locationOf, fieldOf_of_field? h.file, fieldOf_of_field? h.line, Value.orEmpty_text]
  by_cases hline : l.2 = 0 <;> simp [Value.isGiven, hline]

theorem mapM_locationOf_told {ls : List (Text × Nat)} {told : List (List (Text × Value))}
    (h : List.Forall₂ LocationTold ls told) :
    (told.map Value.object).mapM locationOf = .ok (ls.map fun l => (.text l.1, .int l.2)) := by
  induction h with
  | nil => rfl
  | cons hl _ ih =>
    rw [List.map_cons, List.mapM_cons, locationOf_told hl, ih]
    rfl

theorem locationsOf_told {ls : List (Text × Nat)} {told : List (List (Text × Value))}
    (h : List.Forall₂ LocationTold ls told) :
    locationsOf (.list (told.map .object)) = .ok (ls.map fun l => (.text l.1, .int l.2)) := by
  cases h with
  | nil => rfl
  | cons hl hls => exact mapM_locationOf_told (.cons hl hls)

/-- An item reports what it tells. -/
theorem reportOf_told {n : Notice} {v : Value} (h : Told .converter n v) : reportOf v = .ok n.report := by
  obtain ⟨fields, rfl, h⟩ := h
  obtain ⟨ls, hls, hlocations⟩ := h.locations
  have hmessage : fieldOf fields "msg" = .text n.message := fieldOf_of_field? h.message
  have hbacktrace : fieldOf fields "locations" = .list (ls.map .object) := fieldOf_of_field? hls
  simp only [reportOf, fieldOf_of_field? h.file, fieldOf_of_field? h.severity, hmessage,
    fieldOf_of_field? h.id, hbacktrace, locationsOf_told hlocations, Value.orEmpty_text]
  rfl

end Convert

/-! ## Bodies of requests -/

namespace Validation

theorem field_of_field? {α : Type} {fields : List (Text × Value)} {key : Text} {v : Value}
    (h : Value.field? fields key = some v) (place : List Text) (read : List Text → Value → Checked α)
    (default? : Option α) : field fields place key read default? = read (place ++ [key]) v := by
  simp only [field, h]

end Validation

namespace Server

open Notice Validation

theorem textField_of_field? {fields : List (Text × Value)} {key : String} {t : Text}
    (h : Value.field? fields (Text.ofString key) = some (.text t)) (default? : Option Text) :
    textField fields key default? = .ok t := by
  rw [textField, field_of_field? h]
  rfl

theorem readLocation_told {l : Text × Nat} {fields : List (Text × Value)} (h : LocationTold l fields)
    (place : List Text) : readLocation place (.object fields) = .ok (.text l.1, .int l.2) := by
  have hline : asNatural (.int l.2) = .ok l.2 := by simp [asNatural, asInt]
  simp only [readLocation, objectAt, field_of_field? h.file, field_of_field? h.line, checkAt, asText, hline]
  rfl

theorem collect_locations {ls : List (Text × Nat)} {told : List (List (Text × Value))}
    (h : List.Forall₂ LocationTold ls told) (place : List Text) (start : Nat) :
    Checked.collect (((told.map Value.object).zipIdx start).map fun p =>
      readLocation (place ++ [Text.ofNat p.2]) p.1) = .ok (ls.map fun l => (.text l.1, .int l.2)) := by
  induction h generalizing start with
  | nil => rfl
  | cons hl _ ih =>
    rw [List.map_cons, List.zipIdx_cons, List.map_cons, Checked.collect, readLocation_told hl, ih]
    rfl

/-- A body is read as what it tells. -/
theorem readReport_told {n : Notice} {v : Value} (h : Told .server n v) : readReport v = .ok n.report := by
  obtain ⟨fields, rfl, h⟩ := h
  obtain ⟨ls, hls, hlocations⟩ := h.locations
  have hmessage : textField fields "message" (some []) = .ok n.message := textField_of_field? h.message _
  have hbacktrace : field fields bodyPlace (Text.ofString "backtrace") readBacktrace (some []) =
      .ok (n.locations.map fun l => (.text l.1, .int l.2)) :=
    (field_of_field? hls bodyPlace readBacktrace (some [])).trans (collect_locations hlocations _ 0)
  simp only [readReport, readFields, objectAt, textField_of_field? h.file, textField_of_field? h.severity,
    hmessage, textField_of_field? h.id, hbacktrace]
  rfl

/-- A request posts a finding to the results. -/
structure Request.Posts (r : Request) (n : Notice) : Prop where
  route : r.route? = some .results
  method : r.method = .post
  body : ∃ v, readBody r.body = .ok v ∧ Told .server n v

theorem Request.Posts.operation?_eq {r : Request} {n : Notice} (h : r.Posts n) :
    r.operation? = some (.add n.report) := by
  obtain ⟨v, hbody, htold⟩ := h.body
  exact Request.operation?_eq_add.mpr
    ⟨h.route, h.method, Request.read?_eq_some.mpr ⟨v, hbody, readReport_told htold⟩⟩

end Server

/-! ## Writing for both hosts -/

namespace Notice

/-- No text has a surrogate, and no line number more digits than are read. -/
structure Writable (n : Notice) : Prop where
  file : n.file.isEncodable
  severity : n.severity.isEncodable
  message : n.message.isEncodable
  id : n.id.isEncodable
  locations : ∀ l ∈ n.locations, l.1.isEncodable ∧ l.2 < 10 ^ digitLimit

def locationFields (l : Text × Nat) : List (Text × Value) :=
  [(Text.ofString "file", .text l.1), (Text.ofString "line", .int l.2)]

def fields (host : Host) (n : Notice) : List (Text × Value) :=
  [(Text.ofString "file", .text n.file), (Text.ofString "severity", .text n.severity),
   (host.messageKey, .text n.message), (Text.ofString "id", .text n.id),
   (host.locationsKey, .list ((n.locations.map locationFields).map .object))]

/-- The object that tells the finding to a host. -/
def value (host : Host) (n : Notice) : Value := .object (fields host n)

theorem told_value (host : Host) (n : Notice) : Told host n (n.value host) := by
  have hlocations : List.Forall₂ LocationTold n.locations (n.locations.map locationFields) := by
    rw [List.forall₂_map_right_iff, List.forall₂_same]
    exact fun l _ => ⟨rfl, rfl⟩
  refine ⟨_, rfl, ?_⟩
  cases host with
  | converter => exact ⟨rfl, rfl, rfl, rfl, _, rfl, hlocations⟩
  | server => exact ⟨rfl, rfl, rfl, rfl, _, rfl, hlocations⟩

theorem lossless_value (host : Host) {n : Notice} (h : n.Writable) (depth : Nat) :
    Json.Lossless (depth + 3) (n.value host) := by
  have hlocations : ∀ l ∈ n.locations, Json.Lossless (depth + 1) (.object (locationFields l)) := by
    intro l hl
    obtain ⟨hfile, hline⟩ := h.locations l hl
    have hlegible : Legible l.2 := legible_iff.mpr hline
    refine .of_keys (rfl : _ = [Text.ofString "file", Text.ofString "line"]) (by decide) (by decide) ?_
    simp only [locationFields, List.forall_mem_cons, List.not_mem_nil, false_implies, implies_true, and_true]
    exact ⟨.text (Text.unpaired_of_isEncodable hfile), .int hlegible⟩
  refine .of_keys (rfl : _ = [Text.ofString "file", Text.ofString "severity", host.messageKey,
    Text.ofString "id", host.locationsKey]) (by cases host <;> decide) (by cases host <;> decide) ?_
  simp only [fields, List.forall_mem_cons, List.not_mem_nil, false_implies, implies_true, and_true]
  refine ⟨.text (Text.unpaired_of_isEncodable h.file), .text (Text.unpaired_of_isEncodable h.severity),
    .text (Text.unpaired_of_isEncodable h.message), .text (Text.unpaired_of_isEncodable h.id), .list ?_⟩
  rw [List.map_map]
  exact List.forall_mem_map.mpr hlocations

end Notice

/-- A value in the indented layout, with a line end. -/
def Json.document (v : Value) : List UInt8 := Utf8.encode (writeIndented 0 v ++ [CodePoint.ofChar '\n'])

/-- The findings file that tells findings. -/
def Convert.findingsFile (ns : List Notice) : List UInt8 :=
  Json.document (.list (ns.map (Notice.value .converter)))

theorem Convert.readItems_findingsFile {ns : List Notice} (h : ∀ n ∈ ns, n.Writable) :
    readItems (findingsFile ns) = .ok (ns.map (Notice.value .converter)) := by
  refine readItems_writeIndented (.list ?_)
  rw [List.forall_mem_map]
  exact fun n hn => Notice.lossless_value .converter (h n hn) 984

namespace Server

/-- A body in the indented layout is read as the value that was written. -/
theorem readBody_document {v : Value} (h : Json.Lossless depthLimit v) :
    readBody (Json.document v) = .ok v := by
  have hascii : ∀ c ∈ Json.writeIndented 0 v ++ [CodePoint.ofChar '\n'], 0 < c.val ∧ c.val < 0x80 := by
    have hprinted : (Json.writeIndented 0 v ++ [CodePoint.ofChar '\n']).all Json.isPrinted := by
      rw [List.all_append, Json.all_writeIndented]
      decide
    intro c hc
    have hc := List.all_eq_true.mp hprinted c hc
    exact ⟨Json.val_pos_of_isPrinted hc, Json.val_lt_of_isPrinted hc⟩
  have hne : (Json.document v).isEmpty = false := by
    rw [Json.document, Encoding.encode_ascii fun c hc => (hascii c hc).2]
    simp
  have hread := Json.read_writeIndented h
  rw [readBody, if_neg (by simp [hne]), Json.document, Encoding.decodeDetected?_encode hascii]
  simp only [hread]

/-- The request that posts a finding. -/
def posting (n : Notice) : Request where
  method := .post
  address := .ofText "/api/results"
  body := Json.document (n.value .server)

theorem posts_posting {n : Notice} (h : n.Writable) : (posting n).Posts n where
  route := rfl
  method := rfl
  body := ⟨_, readBody_document (Notice.lossless_value .server h 962), Notice.told_value .server n⟩

end Server
end Findings
