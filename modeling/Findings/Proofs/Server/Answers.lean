import Mathlib
import Findings.Proofs.Path.Strip
import Findings.Proofs.Report.Encodable
import Findings.Proofs.Server.Reporting
import Findings.Proofs.Tree.Views

/-!
# Answers to reporting, listing and exporting

A report that passes validation is filed and answered with a reference, which can be sent if its path can be
(`adds_status`). The listing can be sent if all findings in it can, as they are stored and shown
(`isSendable_listingValue`, `lists_status`), and a report in any format always (`exports_status`). What this
means after any requests is `answers_iff`; one surrogate in an accepted report is enough to keep the listing
from being sent (`listing_fails_after_surrogate`).
-/

namespace Findings

namespace Tree

theorem hasTexts_displayed (policy : PathPolicy) {f : Finding} (h : f.HasTexts) :
    (displayed policy f).HasTexts := ⟨h.label, h.message, h.id⟩

/-- A finding whose texts can be encoded can be listed, whatever the policy. -/
theorem encodable_displayed (policy : PathPolicy) {f : Finding} (h : f.Encodable) :
    (displayed policy f).Encodable := by
  have hdisplay : ∀ {path : Text}, path.isEncodable → (Path.toDisplay policy path).isEncodable := by
    intro path hpath
    unfold Path.toDisplay
    split_ifs
    · exact hpath
    · exact Path.all_strip (by decide) hpath _
  exact ⟨hdisplay h.file, h.label, h.message, h.id,
    List.forall_mem_map.mpr fun l hl => hdisplay (h.backtrace l hl)⟩

end Tree

/-- The sink takes whatever is written. -/
def Sink.Works (sink : Sink) : Prop := ∀ t, (sink.deliver t).2 = none

namespace Server

/-! ## What can be sent -/

theorem areSendable_iff {vs : List Value} : areSendable vs ↔ ∀ v ∈ vs, isSendable v := by
  induction vs with
  | nil => simp [areSendable]
  | cons v vs ih => simp [areSendable, ih]

theorem areSendableFields_iff {fs : List (Text × Value)} :
    areSendableFields fs ↔ ∀ f ∈ fs, f.1.isEncodable ∧ isSendable f.2 := by
  induction fs with
  | nil => simp [areSendableFields]
  | cons f fs ih =>
    obtain ⟨key, v⟩ := f
    simp [areSendableFields, ih]

theorem isSendable_text {v : Value} (h : ∃ t, v = .text t) : isSendable v ↔ v.Encodable := by
  obtain ⟨t, rfl⟩ := h
  exact ⟨fun ht _ he => Value.text.inj he ▸ ht, fun ht => ht t rfl⟩

theorem isSendable_locationValue (l : Location) :
    isSendable (Report.locationValue l) ↔ l.file.isEncodable := by
  have hkeys : (Text.ofString "file").isEncodable ∧ (Text.ofString "line").isEncodable := by decide
  simp [Report.locationValue, isSendable, areSendableFields, hkeys]

theorem isSendable_fields (r : Ref) : isSendable (.object r.fields) ↔ r.path.isEncodable := by
  have hkeys : (Text.ofString "path").isEncodable ∧ (Text.ofString "index").isEncodable ∧
      (Text.ofString "generation").isEncodable := by decide
  simp [Ref.fields, isSendable, areSendableFields, hkeys]

theorem areSendableFields_finding {f : Finding} (h : f.HasTexts) :
    areSendableFields f.fields ↔ f.Encodable := by
  have hcategory : f.category.label.isEncodable := by cases f.category <;> decide
  have hkeys : (Text.ofString "file").isEncodable ∧ (Text.ofString "category").isEncodable ∧
      (Text.ofString "label").isEncodable ∧ (Text.ofString "message").isEncodable ∧
      (Text.ofString "id").isEncodable ∧ (Text.ofString "backtrace").isEncodable ∧
      (Text.ofString "hidden").isEncodable := by decide
  have hbacktrace : areSendable (f.backtrace.map Report.locationValue) ↔
      ∀ l ∈ f.backtrace, l.file.isEncodable := by
    rw [areSendable_iff, List.forall_mem_map]
    exact forall₂_congr fun l _ => isSendable_locationValue l
  simp only [Finding.fields, areSendableFields, isSendable, hkeys, hcategory, Bool.and_eq_true, true_and,
    and_true, hbacktrace, isSendable_text h.label, isSendable_text h.message, isSendable_text h.id]
  exact ⟨fun ⟨hfile, hlabel, hmessage, hid, hls⟩ => ⟨hfile, hlabel, hmessage, hid, hls⟩,
    fun ⟨hfile, hlabel, hmessage, hid, hls⟩ => ⟨hfile, hlabel, hmessage, hid, hls⟩⟩

theorem isSendable_findingRow {r : Tree.FindingRow} (h : r.finding.HasTexts) :
    isSendable r.value ↔ r.finding.Encodable ∧ r.ref.path.isEncodable := by
  have hkey : (Text.ofString "ref").isEncodable := by decide
  rw [Tree.FindingRow.value, isSendable, areSendableFields_iff, List.forall_mem_append,
    ← areSendableFields_iff, areSendableFields_finding h, List.forall_mem_singleton, isSendable_fields]
  simp only [hkey, true_and]

theorem isSendable_fileRow {r : Tree.FileRow} (h : ∀ f ∈ r.findings, f.finding.HasTexts) :
    isSendable r.value ↔ r.file.isEncodable ∧ r.path.isEncodable ∧
      ∀ f ∈ r.findings, f.finding.Encodable ∧ f.ref.path.isEncodable := by
  have hkeys : (Text.ofString "file").isEncodable ∧ (Text.ofString "path").isEncodable ∧
      (Text.ofString "hidden").isEncodable ∧ (Text.ofString "findings").isEncodable := by decide
  have hfindings : areSendable (r.findings.map Tree.FindingRow.value) ↔
      ∀ f ∈ r.findings, f.finding.Encodable ∧ f.ref.path.isEncodable := by
    rw [areSendable_iff, List.forall_mem_map]
    exact forall₂_congr fun f hf => isSendable_findingRow (h f hf)
  simp [Tree.FileRow.value, isSendable, areSendableFields, hkeys, hfindings]

theorem isSendable_rows (rows : List Tree.FileRow) :
    isSendable (listingValue rows) ↔ ∀ row ∈ rows, isSendable row.value := by
  have hkeys : (Text.ofString "count").isEncodable ∧ (Text.ofString "files").isEncodable := by decide
  have hrows : areSendable (rows.map Tree.FileRow.value) ↔ ∀ row ∈ rows, isSendable row.value := by
    rw [areSendable_iff, List.forall_mem_map]
  simp [listingValue, isSendable, areSendableFields, hkeys, hrows]

/-! ## The listing -/

section Listing

variable {t : Tree} {includeHidden : Bool}

theorem forall_fileRow {P : Finding → Text → Prop} (g : FileGroup) :
    (∀ r ∈ (t.fileRow includeHidden g).findings, P r.finding r.ref.path) ↔
      ∀ m ∈ g.members includeHidden, P (Tree.displayed t.policy m.2) m.1.path := by
  have hshown := Tree.fileRow_shown (t := t) g includeHidden
  have hmap := congrArg (fun pairs => ∀ q ∈ pairs, P q.1 q.2) hshown
  simpa only [List.forall_mem_map, eq_iff_iff] using hmap

theorem isSendable_group (hflags : t.store.FlagsAgree) (htexts : t.store.Filed Finding.HasTexts)
    {g : FileGroup} (hg : g ∈ t.store.groups includeHidden) :
    isSendable (t.fileRow includeHidden g).value ↔
      ∀ m ∈ g.members includeHidden,
        m.2.file.isEncodable ∧ (Tree.displayed t.policy m.2).Encodable := by
  have hfiled := htexts g (List.mem_filter.mp hg).1
  have hmember : ∀ m ∈ g.members includeHidden, m.1 = g ∧ m.2.file = g.path ∧ m.2.HasTexts := by
    intro m hm
    obtain ⟨hgroup, hfile, htexts⟩ := hfiled.of_mem_members hm
    exact ⟨hgroup, hfile, Finding.hasTexts_content_iff.mp htexts⟩
  have hrowTexts : ∀ r ∈ (t.fileRow includeHidden g).findings, r.finding.HasTexts :=
    (forall_fileRow (P := fun f _ => f.HasTexts) g).mpr fun m hm =>
      Tree.hasTexts_displayed t.policy (hmember m hm).2.2
  obtain ⟨m, hm⟩ : ∃ m, m ∈ g.members includeHidden := by
    refine List.exists_mem_of_ne_nil _ ?_
    cases includeHidden with
    | false => exact hflags.members_ne_nil hg
    | true => simpa [FileGroup.members] using hfiled.nonempty
  rw [isSendable_fileRow hrowTexts,
    forall_fileRow (P := fun f path => f.Encodable ∧ path.isEncodable) g]
  constructor
  · rintro ⟨-, hpath, hrows⟩ m hm
    obtain ⟨-, hfile, -⟩ := hmember m hm
    exact ⟨hfile ▸ hpath, (hrows m hm).1⟩
  · intro h
    -- The path of the file is that of any finding in it.
    obtain ⟨-, hfile, -⟩ := hmember m hm
    obtain ⟨hpath, hshown⟩ := h m hm
    rw [hfile] at hpath
    refine ⟨?_, hpath, fun m hm => ⟨(h m hm).2, ?_⟩⟩
    · have hdisplayed := hshown.file
      rwa [Tree.displayed, hfile] at hdisplayed
    · rw [(hmember m hm).1]
      exact hpath

/-- The listing can be sent just when each finding in it can, with its paths as they are stored and shown. -/
theorem isSendable_listingValue (hflags : t.store.FlagsAgree)
    (htexts : t.store.Filed Finding.HasTexts) :
    isSendable (listingValue (t.rows includeHidden)) ↔
      ∀ m ∈ t.store.traverse includeHidden,
        m.2.file.isEncodable ∧ (Tree.displayed t.policy m.2).Encodable := by
  rw [isSendable_rows, Tree.rows, List.forall_mem_map, Store.traverse, List.forall_mem_flatMap]
  exact forall₂_congr fun g hg => isSendable_group hflags htexts hg

end Listing

/-! ## Requests -/

/-- A request to add a finding, with a body that is read as a report of it. -/
structure Request.Adds (r : Request) (report : Tree.Report) : Prop where
  route : Route.ofPath? r.address.path = some .results
  method : r.method = .post
  body : ∃ v, readBody r.body = .ok v ∧ readReport v = .ok report

/-- A request for the listing, with the hidden findings or without. -/
structure Request.Lists (r : Request) (includeHidden : Bool) : Prop where
  route : Route.ofPath? r.address.path = some .results
  method : r.method = .get
  query : match r.address.value? "include_hidden" with
    | none => includeHidden = false
    | some word => Validation.asBool (.text word) = .ok includeHidden

/-- A request for a report in a format. -/
structure Request.Exports (r : Request) (format : Format) : Prop where
  route : Route.ofPath? r.address.path = some .exported
  method : r.method = .get
  query : r.address.value? "format" = some format.name

variable {s : Server} {r : Request}

theorem sent_status (content : Content) :
    (Response.sent ⟨200, content⟩).status = 200 ↔ content.isSendable := by
  unfold Response.sent
  split_ifs with h
  · exact ⟨fun _ => h, fun _ => rfl⟩
  · exact ⟨fun hstatus => absurd hstatus (by decide), fun hsendable => absurd hsendable h⟩

theorem step_response {route : Route} (h : Route.ofPath? r.address.path = some route) :
    (s.step r).2.response = (s.atRoute r route).2.response.sent := by
  rw [step_reply (Request.route?_of_ofPath? h)]

theorem adds_status {report : Tree.Report} (h : r.Adds report) {file : Text}
    (hfile : report.file = .text file) :
    (s.step r).2.response.status = 200 ↔ (Path.canonical file).isEncodable := by
  obtain ⟨v, hbody, hreport⟩ := h.body
  obtain ⟨f, log, hy, hadd⟩ := Tree.add_ofTexts s.tree (readReport_ofTexts hreport)
  have hpath : f.file = Path.canonical file := by
    have hcanonical := hy.file
    rw [hfile, Value.toCanonicalPath_text] at hcanonical
    exact (Except.ok.inj hcanonical).symm
  have hresponse : (s.atRoute r .results).2.response =
      .ok (.object (s.tree.store.nextRef f.file).fields) := by
    simp only [atRoute, h.method, withBody, hbody, hreport, addReport, hadd, become, Outcome.ok]
  rw [step_response h.route, hresponse, Response.ok, sent_status, Content.isSendable, isSendable_fields,
    ← hpath]
  rfl

theorem lists_response {includeHidden : Bool} (h : r.Lists includeHidden) :
    (s.step r).2.response = (Response.ok (listingValue (s.tree.rows includeHidden))).sent := by
  have hresponse : (s.atRoute r .results).2.response =
      .ok (listingValue (s.tree.rows includeHidden)) := by
    have hquery := h.query
    simp only [atRoute, h.method, list]
    cases hword : r.address.value? "include_hidden" with
    | none =>
      simp only [hword] at hquery
      rw [hquery]
      rfl
    | some word =>
      simp only [hword] at hquery
      simp only [Validation.checkAt, hquery]
      rfl
  rw [step_response h.route, hresponse]

theorem lists_status {includeHidden : Bool} (h : r.Lists includeHidden)
    (hflags : s.tree.store.FlagsAgree) (htexts : s.tree.store.Filed Finding.HasTexts) :
    (s.step r).2.response.status = 200 ↔ ∀ m ∈ s.tree.store.traverse includeHidden,
      m.2.file.isEncodable ∧ (Tree.displayed s.tree.policy m.2).Encodable := by
  rw [lists_response h, Response.ok, sent_status, Content.isSendable,
    isSendable_listingValue hflags htexts]

theorem exports_response {format : Format} (h : r.Exports format) (hsink : s.sink.Works)
    (htexts : s.tree.store.Filed Finding.HasTexts) (hlines : s.tree.store.Filed Finding.LegibleLines) :
    ∃ report, s.tree.exported (.text format.name) = .ok report ∧
      (s.step r).2.response = ⟨200, .report format report⟩ := by
  obtain ⟨report, hreport⟩ := htexts.inTexts.exported_eq format s.tree.policy
  rw [if_pos (hlines.legibleLines _)] at hreport
  have hencodable : report.isEncodable := Store.isEncodable_exported hreport
  refine ⟨report, hreport, ?_⟩
  rw [Store.exported, Store.parse_name] at hreport
  have hname : Format.ofName? format.name = some format := by cases format <;> decide
  have hsaved : (s.tree.save s.sink (.text format.name)).result = .ok report := by
    have hdelivered := hsink report
    simp only [Tree.save, Store.save, Store.parse_name, hreport, Sink.save]
    generalize s.sink.deliver report = delivered at hdelivered
    obtain ⟨calls, failure⟩ := delivered
    obtain rfl : failure = none := hdelivered
    rfl
  have hresponse : (s.atRoute r .exported).2.response = ⟨200, .report format report⟩ := by
    simp only [atRoute, h.method, exportReport, h.query, hname, sendReport, Store.parse_name, hsaved]
  rw [step_response h.route, hresponse, Response.sent, if_pos]
  exact hencodable

theorem exports_status {format : Format} (h : r.Exports format) (hsink : s.sink.Works)
    (htexts : s.tree.store.Filed Finding.HasTexts) (hlines : s.tree.store.Filed Finding.LegibleLines) :
    (s.step r).2.response.status = 200 := by
  obtain ⟨report, -, hresponse⟩ := exports_response h hsink htexts hlines
  rw [hresponse]

/-- In every state that requests lead to: a report that passes validation is answered with success just when
the canonical spelling of its file can be encoded, the listing just when all findings in it can, as they are
stored and shown, and a report in any format always, if the sink works. So reports without surrogates are
answered with success, and so is the listing as long as no others were accepted. -/
theorem answers_iff (settings : Settings) (applications : Registry) (sink : Sink)
    (requests : List Request) :
    let s := (start settings applications sink).run requests
    (∀ r report file, Request.Adds r report → report.file = .text file →
      ((s.step r).2.response.status = 200 ↔ (Path.canonical file).isEncodable)) ∧
    (∀ r includeHidden, Request.Lists r includeHidden →
      ((s.step r).2.response.status = 200 ↔ ∀ m ∈ s.tree.store.traverse includeHidden,
        m.2.file.isEncodable ∧ (Tree.displayed s.tree.policy m.2).Encodable)) ∧
    (∀ r format, Request.Exports r format → sink.Works → (s.step r).2.response.status = 200) ∧
    (∀ r report, Request.Adds r report → report.Encodable → (s.step r).2.response.status = 200) ∧
    ((∀ r ∈ requests, ∀ v report, r.method = .post → readBody r.body = .ok v →
        readReport v = .ok report → report.Encodable) →
      ∀ r includeHidden, Request.Lists r includeHidden → (s.step r).2.response.status = 200) := by
  intro s
  have hrun : s = _ := run_operations (start settings applications sink) requests
  have hsink : s.sink = sink := congrArg Server.sink hrun
  have hsound : Filters.Sound s.tree.store := by
    rw [hrun]
    exact Tree.run_sound (t := settings.tree applications) (Filters.sound_empty 0) _
  have htexts : s.tree.store.Filed Finding.HasTexts := hasTexts_run rfl requests
  have hlines : s.tree.store.Filed Finding.LegibleLines := legibleLines_run rfl requests
  refine ⟨fun r report file hadds hfile => adds_status hadds hfile,
    fun r includeHidden hlists => lists_status hlists hsound.flags htexts,
    fun r format hexports hworks => exports_status hexports (hsink ▸ hworks) htexts hlines,
    fun r report hadds hreport => ?_, fun hclean r includeHidden hlists => ?_⟩
  · obtain ⟨v, -, hv⟩ := hadds.body
    obtain ⟨file, hfile⟩ := (readReport_ofTexts hv).file
    exact (adds_status hadds hfile).mpr
      (Path.all_canonical (by decide) (by decide) (hreport.file file hfile))
  · have hencodable : s.tree.store.Filed Finding.Encodable := by
      refine encodable_run rfl fun r hr report hop => ?_
      obtain ⟨-, hmethod, hread⟩ := Request.operation?_eq_add.mp hop
      obtain ⟨v, hbody, hreport⟩ := Request.read?_eq_some.mp hread
      exact hclean r hr v report hmethod hbody hreport
    refine (lists_status hlists hsound.flags htexts).mpr fun m hm => ?_
    have hfinding := Finding.encodable_content_iff.mp (hencodable.of_mem_traverse hm)
    exact ⟨hfinding.file, Tree.encodable_displayed s.tree.policy hfinding⟩

/-! ## A lone surrogate -/

/-- A request to add what `body` says. -/
def adding (body : Text) : Request where
  method := .post
  address := .ofText "/api/results"
  body := Utf8.encode body

def listing : Request := { method := .get, address := .ofText "/api/results" }

def exporting (format : Format) : Request where
  method := .get
  address := .ofText ("/api/results/export?format=" ++ format.name)

/-- A report whose message is a lone surrogate, written in JSON as an escape. -/
def surrogateBody : Text := "\x7b\"file\":\"a.c\",\"severity\":\"style\",\"message\":\"\\ud800\"\x7d"

def surrogateReport : Tree.Report where
  file := .text "a.c"
  severity := .text "style"
  message := .text [.ofNat 0xD800]

def plainBody : Text := "\x7b\"file\":\"a.c\",\"severity\":\"style\"\x7d"

theorem readBody_surrogate : readBody (adding surrogateBody).body =
    .ok (.object [("file", .text "a.c"), ("severity", .text "style"),
      ("message", .text [.ofNat 0xD800])]) := by cbv

theorem readBody_plain : readBody (adding plainBody).body =
    .ok (.object [("file", .text "a.c"), ("severity", .text "style")]) := by cbv

theorem adds_surrogate : (adding surrogateBody).Adds surrogateReport where
  route := rfl
  method := rfl
  body := ⟨_, readBody_surrogate, rfl⟩

theorem lists_listing : listing.Lists false where
  route := rfl
  method := rfl
  query := by cbv

theorem exports_exporting (format : Format) : (exporting format).Exports format where
  route := by cases format <;> rfl
  method := rfl
  query := by cases format <;> rfl

/-- A report that is accepted and answered with success can keep the listing from being sent. -/
theorem listing_fails_after_surrogate :
    (adding surrogateBody).Adds surrogateReport ∧
      ((start {} {} {}).step (adding surrogateBody)).2.response.status = 200 ∧
      listing.Lists false ∧
      (((start {} {} {}).run [adding surrogateBody]).step listing).2.response.status = 500 :=
  ⟨adds_surrogate, by decide +kernel, lists_listing, by decide +kernel⟩

/-- Reports in all formats are still sent then, and a listing of other findings is. -/
theorem surrogate_answers :
    let s := (start {} {} {}).run [adding surrogateBody]
    (s.step (adding surrogateBody)).2.response.status = 200 ∧
      ((s.step listing).2.response.status = 200 ↔ ∀ m ∈ s.tree.store.traverse false,
        m.2.file.isEncodable ∧ (Tree.displayed s.tree.policy m.2).Encodable) ∧
      (∀ format, (s.step (exporting format)).2.response.status = 200) ∧
      (((start {} {} {}).run [adding plainBody]).step listing).2.response.status = 200 := by
  obtain ⟨hadds, hlists, hexports, -, -⟩ := answers_iff {} {} {} [adding surrogateBody]
  obtain ⟨-, -, -, -, hclean⟩ := answers_iff {} {} {} [adding plainBody]
  have hworks : ({} : Sink).Works := fun _ => rfl
  refine ⟨(hadds _ _ _ adds_surrogate rfl).mpr (by decide), hlists _ _ lists_listing,
    fun format => hexports _ format (exports_exporting format) hworks,
    hclean (fun r hr v report _ hbody hreport => ?_) _ _ lists_listing⟩
  obtain rfl := List.mem_singleton.mp hr
  obtain rfl := Except.ok.inj (readBody_plain.symm.trans hbody)
  obtain rfl := Except.ok.inj hreport
  refine ⟨?_, ?_, ?_, ?_, fun p hp => absurd hp List.not_mem_nil⟩
  all_goals
    rintro t ⟨⟩
    decide

end Server
end Findings
