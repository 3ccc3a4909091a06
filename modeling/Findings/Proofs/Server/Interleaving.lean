import Findings.Proofs.Server.Answers
import Findings.Proofs.Server.Reporting

/-!
# Several clients

Requests are carried out one after another, whichever client they come from. What comes in is a list of
requests with their clients, in any order that keeps the order of each client (`sentBy`). As long as no client
clears, the tree holds what all of them report, and of the files that one client names it holds what that
client reports (`reported_sentBy`). So clients that name no file in common are each answered as if they were
alone, and each finds its part of the listing as if it were alone (`clients_undisturbed`).
-/

namespace Findings.Server

variable {Client : Type} [DecidableEq Client]

/-- The requests of one client, in their order. -/
def sentBy (c : Client) (traffic : List (Client × Request)) : List Request :=
  (traffic.filter fun e => e.1 = c).map (·.2)

/-- The requests of all clients. -/
def together (traffic : List (Client × Request)) : List Request := traffic.map (·.2)

/-- The canonical paths of the files that requests report about. -/
def pathsNamed (rs : List Request) : List Text := rs.filterMap Request.path?

/-- No two clients report about the same file. -/
def Apart (traffic : List (Client × Request)) : Prop :=
  ∀ e ∈ traffic, ∀ e' ∈ traffic, ∀ path ∈ e.2.path?, e'.2.path? = some path → e.1 = e'.1

instance (traffic : List (Client × Request)) : Decidable (Apart traffic) :=
  inferInstanceAs (Decidable (∀ e ∈ traffic, _))

variable {c : Client} {traffic before after : List (Client × Request)}

theorem mem_sentBy {r : Request} : r ∈ sentBy c traffic ↔ (c, r) ∈ traffic := by
  simp only [sentBy, List.mem_map, List.mem_filter, decide_eq_true_eq]
  constructor
  · rintro ⟨⟨c', r'⟩, ⟨hmem, rfl⟩, rfl⟩
    exact hmem
  · intro hmem
    exact ⟨(c, r), ⟨hmem, rfl⟩, rfl⟩

theorem mem_together_of_sentBy {r : Request} (h : r ∈ sentBy c traffic) : r ∈ together traffic :=
  List.mem_map.mpr ⟨(c, r), mem_sentBy.mp h, rfl⟩

/-! ## The part of a client -/

/-- If `keep` tells the files of a client from those of the others, it tells its findings from theirs. -/
theorem reported_filter (keep : Text → Bool)
    (h : ∀ e ∈ traffic, ∀ f, e.2.finding? = some f → keep f.file = decide (e.1 = c)) :
    (reported (together traffic)).filter (fun f => keep f.file) = reported (sentBy c traffic) := by
  induction traffic with
  | nil => rfl
  | cons e traffic ih =>
    obtain ⟨he, hrest⟩ := List.forall_mem_cons.mp h
    have htail := ih hrest
    simp only [reported, together, sentBy] at htail ⊢
    rw [List.map_cons, List.filter_cons]
    cases hfinding : e.2.finding? with
    | none =>
      rw [List.filterMap_cons_none hfinding, htail]
      split_ifs
      · rw [List.map_cons, List.filterMap_cons_none hfinding]
      · rfl
    | some f =>
      rw [List.filterMap_cons_some hfinding, List.filter_cons, he f hfinding, htail]
      split_ifs
      · rw [List.map_cons, List.filterMap_cons_some hfinding]
      · rfl

/-- The files that a client names are those of its findings. -/
theorem keep_iff (h : Apart traffic) (c : Client) :
    ∀ e ∈ traffic, ∀ f, e.2.finding? = some f →
      decide (f.file ∈ pathsNamed (sentBy c traffic)) = decide (e.1 = c) := by
  intro e he f hf
  have hpath := Request.path?_of_finding? hf
  rw [decide_eq_decide, pathsNamed, List.mem_filterMap]
  constructor
  · rintro ⟨r, hr, hr'⟩
    exact h e he (c, r) (mem_sentBy.mp hr) f.file hpath hr'
  · rintro rfl
    exact ⟨e.2, mem_sentBy.mpr he, hpath⟩

theorem reported_sentBy (h : Apart traffic) (c : Client) :
    (reported (together traffic)).filter (fun f => f.file ∈ pathsNamed (sentBy c traffic)) =
      reported (sentBy c traffic) :=
  reported_filter (fun path => path ∈ pathsNamed (sentBy c traffic)) (keep_iff h c)

/-- Of one of its files, a client has reported all findings so far. -/
theorem reported_before (h : Apart (before ++ after)) {path : Text}
    (hpath : path ∈ pathsNamed (sentBy c (before ++ after))) :
    (reported (together before)).filter (fun f => f.file = path) =
      (reported (sentBy c before)).filter fun f => f.file = path := by
  have hbefore : (reported (together before)).filter
      (fun f => f.file ∈ pathsNamed (sentBy c (before ++ after))) = reported (sentBy c before) :=
    reported_filter (fun path => path ∈ pathsNamed (sentBy c (before ++ after))) fun e he =>
      keep_iff h c e (List.mem_append_left after he)
  rw [← hbefore, List.filter_filter]
  refine List.filter_congr fun f _ => ?_
  by_cases hf : f.file = path <;> simp [hf, hpath]

/-! ## Undisturbed -/

section Undisturbed

variable {server : Server} (hempty : server.tree.store.files = [])
include hempty

/-- What is posted to the results is answered as if the client were alone. -/
theorem post_reply_sentBy {r : Request} (happart : Apart (before ++ (c, r) :: after))
    (hclear : ∀ r' ∈ together (before ++ (c, r) :: after), r'.operation? ≠ some .clear)
    (hroute : r.route? = some .results) (hmethod : r.method = .post) :
    ((server.run (together before)).step r).2 = ((server.run (sentBy c before)).step r).2 := by
  rcases post_cases hroute hmethod with ⟨report, hop⟩ | hsame
  · obtain ⟨f, hfiled, hfinding⟩ := Request.filed_of_add hop
    have hnamed : f.file ∈ pathsNamed (sentBy c (before ++ (c, r) :: after)) :=
      List.mem_filterMap.mpr
        ⟨r, mem_sentBy.mpr (by simp), Request.path?_of_finding? hfinding⟩
    have htogether : ∀ r' ∈ together before, r'.operation? ≠ some .clear := by
      intro r' hr'
      refine hclear r' ?_
      rw [together, List.map_append]
      exact List.mem_append_left _ hr'
    have hsent : ∀ r' ∈ sentBy c before, r'.operation? ≠ some .clear := fun r' hr' =>
      htogether r' (mem_together_of_sentBy hr')
    rw [add_reply hop hfiled, add_reply hop hfiled,
      Store.nextRef_of_content (content_run htogether hempty),
      Store.nextRef_of_content (content_run hsent hempty), reported_before happart hnamed,
      generation_run htogether, generation_run hsent]
  · exact hsame _ _

/-- The full listing after requests, with the paths that a policy shows and without flags. -/
def listed (s : Server) (policy : PathPolicy) : List Tree.FileRow :=
  (({ s.tree with policy } : Tree).rows true).map Tree.FileRow.unflagged

theorem listed_run (policy : PathPolicy) {rs : List Request}
    (hclear : ∀ r ∈ rs, r.operation? ≠ some .clear) :
    listed (server.run rs) policy =
      (Store.groupsOf (reported rs)).map (({ server.tree with policy } : Tree).fileRow true) := by
  have hrow : ({ (server.run rs).tree with policy } : Tree).fileRow true =
      ({ server.tree with policy } : Tree).fileRow true :=
    Tree.fileRow_congr rfl (generation_run hclear)
  rw [listed, Tree.unflagged_rows, hrow]
  exact congrArg _ (content_run hclear hempty)

/-- Of the files that a client names, the listing is the one that it finds alone. -/
theorem listed_sentBy (happart : Apart traffic)
    (hclear : ∀ r ∈ together traffic, r.operation? ≠ some .clear) (c : Client) (policy : PathPolicy) :
    (listed (server.run (together traffic)) policy).filter
        (fun row => row.path ∈ pathsNamed (sentBy c traffic)) =
      listed (server.run (sentBy c traffic)) policy := by
  have hsent : ∀ r ∈ sentBy c traffic, r.operation? ≠ some .clear := fun r hr =>
    hclear r (mem_together_of_sentBy hr)
  rw [listed_run hempty policy hclear, listed_run hempty policy hsent, List.filter_map,
    ← reported_sentBy happart c]
  exact congrArg _ (Store.filter_groupsOf (fun path => path ∈ pathsNamed (sentBy c traffic)) _)

end Undisturbed

/-- Clients do not disturb each other. Any number of clients send requests that come in in any order that keeps
the order of each; none of them clears, no two report about the same file, and the reports have no
surrogates. Then whatever is posted to the results is answered as if its client were alone, a report with a
reference to its file. In the full listing at the end, and under every policy, the rows of the files that a
client names are those that it would find alone, with the same findings in the same order and the same
references, flags apart. The listing has each reported finding once, is sent as it is, and its flags are what
the mask at the end says. -/
theorem clients_undisturbed (settings : Settings) (applications : Registry) (sink : Sink)
    (traffic : List (Client × Request))
    (hclear : ∀ r ∈ together traffic, r.operation? ≠ some .clear)
    (hreports : ∀ r ∈ together traffic, ∀ report, r.operation? = some (.add report) → report.Encodable)
    (happart : Apart traffic) :
    let server := start settings applications sink
    let s := server.run (together traffic)
    (∀ c r before after, traffic = before ++ (c, r) :: after → r.route? = some .results →
      r.method = .post →
      ((server.run (together before)).step r).2 = ((server.run (sentBy c before)).step r).2 ∧
      ∀ path, r.path? = some path → ∃ ref : Ref, ref.path = path ∧
        ((server.run (together before)).step r).2.response = .ok (.object ref.fields)) ∧
    (∀ c policy, (listed s policy).filter (fun row => row.path ∈ pathsNamed (sentBy c traffic)) =
      listed (server.run (sentBy c traffic)) policy) ∧
    (∃ fs fs', List.Forall₂ Tree.Report.Yields ((together traffic).filterMap Request.report?) fs ∧
      fs'.Perm fs ∧
      List.Forall₂ (fun f r => Tree.Shows s.tree.policy f r.finding) fs' (s.tree.findingRows true)) ∧
    ((s.tree.findingRows true).map (·.ref)).Nodup ∧
    (∀ row ∈ s.tree.rows true,
      (∀ f ∈ row.findings, f.finding.hidden = !s.tree.mask.shows f.finding.category) ∧
        row.hidden = row.findings.all (·.finding.hidden)) ∧
    ∀ r : Request, r.Lists true → (s.step r).2.response = .ok (listingValue (s.tree.rows true)) := by
  intro server s
  have hempty : server.tree.store.files = [] := rfl
  have hconsistent : s.tree.view.Consistent :=
    consistent_run (Filtered.consistent_empty settings.mask) (together traffic)
  refine ⟨fun c r before after htraffic hroute hmethod => ⟨?_, fun path hpath => ?_⟩,
    listed_sentBy hempty happart hclear, ?_, ?_,
    fun row hrow => Tree.flags_of_rows hconsistent hrow, fun r hlists => ?_⟩
  · subst htraffic
    exact post_reply_sentBy hempty happart hclear hroute hmethod
  · obtain ⟨f, hfinding, rfl⟩ := Request.finding?_of_path? hpath
    obtain ⟨report, hop, hy⟩ := Request.report_of_finding? hfinding
    obtain ⟨f', hfiled, hfinding'⟩ := Request.filed_of_add hop
    obtain rfl := Option.some.inj (hfinding.symm.trans hfinding')
    have hr : r ∈ together traffic := List.mem_map.mpr ⟨(c, r), by simp [htraffic], rfl⟩
    refine ⟨(server.run (together before)).tree.store.nextRef f.file, rfl, ?_⟩
    rw [add_reply hop hfiled, Response.sent, if_pos]
    exact (isSendable_fields _).mpr (hy.encodable (hreports r hr report hop)).file
  · obtain ⟨fs', hperm, hshown⟩ :=
      Tree.findingRows_show (fun f hf => hidden_of_mem_reported hf) (content_run hclear hempty)
    exact ⟨reported (together traffic), fs', yields_reported _, hperm, hshown⟩
  · rw [Tree.refs_rows]
    exact hconsistent.wellFormed.nodup_refs
  · have htexts := hasTexts_run (s := server) hempty (together traffic)
    have hencodable := encodable_run (s := server) hempty hreports
    rw [lists_response hlists, Response.sent, if_pos]
    refine (isSendable_listingValue hconsistent.follows.flagsAgree htexts).mpr fun m hm => ?_
    have hfinding := Finding.encodable_content_iff.mp (hencodable.of_mem_traverse hm)
    exact ⟨hfinding.file, Tree.encodable_displayed s.tree.policy hfinding⟩

/-! ## Two clients -/

def otherBody : Text := "\x7b\"file\":\"b.c\",\"severity\":\"style\"\x7d"

/-- One client reports twice about a file, while another hides the category and reports about a second. -/
def twoClients : List (Bool × Request) :=
  [(true, adding plainBody), (false, concealing .style), (false, adding otherBody), (true, adding plainBody)]

/-- What the clients report about a file. -/
def styleReport (file : Text) : Tree.Report where
  file := .text file
  severity := .text "style"
  message := .text []

theorem styleReport_encodable {file : Text} (h : file.isEncodable) : (styleReport file).Encodable := by
  refine ⟨?_, ?_, ?_, ?_, fun p hp => absurd hp List.not_mem_nil⟩
  all_goals rintro t ⟨⟩
  · exact h
  all_goals decide

theorem operation?_plain : (adding plainBody).operation? = some (.add (styleReport "a.c")) :=
  Request.operation?_eq_add.mpr ⟨rfl, rfl, Request.read?_eq_some.mpr ⟨_, readBody_plain, rfl⟩⟩

theorem operation?_other : (adding otherBody).operation? = some (.add (styleReport "b.c")) := by
  have hbody : readBody (adding otherBody).body =
      .ok (.object [("file", .text "b.c"), ("severity", .text "style")]) := by cbv
  exact Request.operation?_eq_add.mpr ⟨rfl, rfl, Request.read?_eq_some.mpr ⟨_, hbody, rfl⟩⟩

/-- The clients hide the category or report about files without surrogates. -/
theorem operations_twoClients : ∀ r ∈ together twoClients,
    r.operation? = some (.showCategory (.real .style) false) ∨
      ∃ file : Text, file.isEncodable ∧ r.operation? = some (.add (styleReport file)) := by
  simp only [together, twoClients, List.map_cons, List.map_nil, List.forall_mem_cons]
  exact ⟨.inr ⟨_, by decide, operation?_plain⟩, .inl (hides_concealing .style).operation?_eq,
    .inr ⟨_, by decide, operation?_other⟩, .inr ⟨_, by decide, operation?_plain⟩,
    fun r hr => absurd hr List.not_mem_nil⟩

theorem twoClients_apart : Apart twoClients := by
  have hplain : (adding plainBody).path? = some (Text.ofString "a.c") :=
    Request.path?_of_add operation?_plain
  have hother : (adding otherBody).path? = some (Text.ofString "b.c") :=
    Request.path?_of_add operation?_other
  have hnone : (concealing .style).path? = none := by
    rw [Request.path?, Request.report?, (hides_concealing .style).operation?_eq]
    rfl
  have hne : Text.ofString "a.c" ≠ Text.ofString "b.c" := by decide
  simp [Apart, twoClients, hplain, hother, hnone, hne, hne.symm]

theorem twoClients_undisturbed :
    (∀ r ∈ together twoClients, r.operation? ≠ some .clear) ∧
      (∀ r ∈ together twoClients, ∀ report, r.operation? = some (.add report) → report.Encodable) ∧
      Apart twoClients ∧
      ∀ c policy, (listed ((start {} {} {}).run (together twoClients)) policy).filter
          (fun row => row.path ∈ pathsNamed (sentBy c twoClients)) =
        listed ((start {} {} {}).run (sentBy c twoClients)) policy := by
  have hclear : ∀ r ∈ together twoClients, r.operation? ≠ some .clear := by
    intro r hr
    rcases operations_twoClients r hr with hop | ⟨file, -, hop⟩ <;> simp [hop]
  have hreports : ∀ r ∈ together twoClients, ∀ report, r.operation? = some (.add report) →
      report.Encodable := by
    intro r hr report hadd
    rcases operations_twoClients r hr with hop | ⟨file, hfile, hop⟩
    · rw [hop] at hadd
      cases hadd
    · rw [hop] at hadd
      obtain rfl := Tree.Op.add.inj (Option.some.inj hadd)
      exact styleReport_encodable hfile
  exact ⟨hclear, hreports, twoClients_apart,
    (clients_undisturbed {} {} {} twoClients hclear hreports twoClients_apart).2.1⟩

end Findings.Server
