import Findings.Proofs.Lists
import Findings.Proofs.Report.Rendering
import Findings.Proofs.Report.XmlEscaping
import Findings.Report.Xml

/-!
# XML reports can be read back

A report is a declaration and tags, each with white space in front (`xml_eq`). The tags of a finding give
one element with an element for each location (`run_entryBeats`), so the document is one element with one
element for each finding (`read_xml`). What it says about a finding is what was reported, but for the
characters that XML cannot hold (`xml_readable`). There is no report if a line number has too many digits
(`overlong_line_no_xml`).
-/

namespace Findings.Report

open Xml

/-! ## What a document says -/

/-- The text without the characters that XML cannot hold. -/
def forXml (t : Text) : Text := t.filter isChar

def locationForXml (l : Location) : Location := { l with file := forXml l.file }

/-- The entry without the characters that XML cannot hold. -/
def Entry.forXml (e : Entry Text) : Entry Text where
  file := Report.forXml e.file
  severity := Report.forXml e.severity
  id := Report.forXml e.id
  msg := Report.forXml e.msg
  locations := e.locations.map locationForXml

/-- The location that an element stands for: its two attributes, and nothing inside. -/
def location? : Node → Option Location
  | .element name [(key₁, file), (key₂, line)] [] =>
    if name = Text.ofString "location" ∧ key₁ = Text.ofString "file" ∧ key₂ = Text.ofString "line" then
      (Text.readInteger line).map (Location.mk file)
    else none
  | _ => none

/-- The names of the attributes of a finding. -/
def entryKeys : List Text := ["file", "severity", "id", "msg"]

/-- The entry that an element stands for: its four attributes, and locations inside. -/
def entry? : Node → Option (Entry Text)
  | .element name [(key₁, file), (key₂, severity), (key₃, id), (key₄, msg)] children =>
    if name = Text.ofString "error" ∧ [key₁, key₂, key₃, key₄] = entryKeys then do
      let locations ← (← elements? children).mapM location?
      return ⟨file, severity, id, msg, locations⟩
    else none
  | _ => none

/-- The entries of an XML report, if it is one: a document whose one element is `results`, with nothing but
findings inside. -/
def readXml (t : Text) : Option (List (Entry Text)) := do
  match ← Xml.read t with
  | .element name attributes children =>
    if name = Text.ofString "results" ∧ attributes = [] then (← elements? children).mapM entry? else none
  | .data _ => none

/-! ## The tags of a report -/

def locationAttributes (l : Location) : List (Text × Text) :=
  [("file", l.file), ("line", Text.ofInt l.line)]

def entryAttributes (e : Entry Text) : List (Text × Text) :=
  [("file", e.file), ("severity", e.severity), ("id", e.id), ("msg", e.msg)]

def locationBeat (l : Location) : Beat := ⟨"\n    ", .emptyTag "location" (locationAttributes l)⟩

def entryBeats (e : Entry Text) : List Beat :=
  if e.locations.isEmpty then [⟨"\n  ", .emptyTag "error" (entryAttributes e)⟩]
  else
    ⟨"\n  ", .openTag "error" (entryAttributes e)⟩ :: e.locations.map locationBeat ++
      [⟨"\n  ", .closeTag "error"⟩]

def reportBeats (es : List (Entry Text)) : List Beat :=
  ⟨"\n", .openTag "results" []⟩ :: es.flatMap entryBeats ++ [⟨"\n", .closeTag "results"⟩]

def declaration : Text := "<?xml version=\"1.0\" encoding=\"UTF-8\"?>"

theorem xmlAttribute_eq_self {t : Text} (h : ∀ c ∈ t, isXmlChar c ∧ xmlChar c = [c]) :
    xmlAttribute t = t := by
  rw [xmlAttribute, List.filter_eq_self.mpr fun c hc => (h c hc).1]
  induction t with
  | nil => rfl
  | cons c t ih =>
    rw [List.flatMap_cons, (h c (by simp)).2, ih fun d hd => h d (List.mem_cons_of_mem c hd)]
    rfl

theorem not_isAsciiDigit_of_mem_escapes : ∀ e ∈ escapes, ¬e.1.isAsciiDigit := by decide

theorem isXmlChar_of_mem_ofInt {n : Int} {c : CodePoint} (h : c ∈ Text.ofInt n) : isXmlChar c := by
  rcases Text.mem_ofInt h with rfl | hdigit
  · decide
  · have hdigits : 0x30 ≤ c.val ∧ c.val ≤ 0x39 := by simpa [CodePoint.isAsciiDigit] using hdigit
    simp only [isXmlChar, Bool.or_eq_true, Bool.and_eq_true, decide_eq_true_eq]
    omega

theorem xmlAttribute_ofInt (n : Int) : xmlAttribute (Text.ofInt n) = Text.ofInt n := by
  refine xmlAttribute_eq_self fun c hc => ⟨isXmlChar_of_mem_ofInt hc, ?_⟩
  rcases Text.mem_ofInt hc with rfl | hdigit
  · decide
  · rw [← escapeInTurn_singleton]
    refine foldl_replaceAll_of_ne fun e he => ?_
    rintro rfl
    exact not_isAsciiDigit_of_mem_escapes e he hdigit

theorem locationBeat_text (l : Location) :
    .ofChar '\n' :: xmlLocation l = (locationBeat l).text := by
  simp only [xmlLocation, locationBeat, Beat.text, Token.text, locationAttributes, List.flatMap_cons,
    List.flatMap_nil, attributeText, xmlAttribute_ofInt, List.append_assoc, List.cons_append,
    List.append_nil]
  rfl

theorem xmlAttributes_eq (e : Entry Text) :
    .ofChar ' ' :: xmlAttributes e = (entryAttributes e).flatMap attributeText := by
  simp only [xmlAttributes, entryAttributes, List.flatMap_cons, List.flatMap_nil, attributeText,
    List.append_assoc, List.cons_append, List.append_nil]
  rfl

theorem entryBeats_text (e : Entry Text) :
    (xmlLines e).flatMap (.ofChar '\n' :: ·) = (entryBeats e).flatMap Beat.text := by
  unfold xmlLines entryBeats
  split_ifs with h
  · simp only [List.flatMap_cons, List.flatMap_nil, Beat.text, Token.text, ← xmlAttributes_eq,
      List.append_assoc, List.cons_append, List.append_nil]
    rfl
  · have hlocations : (e.locations.map xmlLocation).flatMap (.ofChar '\n' :: ·) =
        (e.locations.map locationBeat).flatMap Beat.text := by
      simp only [List.flatMap_map, locationBeat_text]
    simp only [List.flatMap_append, List.flatMap_cons, List.flatMap_nil, hlocations, Beat.text,
      Token.text, ← xmlAttributes_eq, List.append_assoc, List.cons_append, List.append_nil]
    rfl

/-- A report is a declaration, then tags with white space in front of each, and a newline. -/
theorem xml_eq (es : List (Entry Text)) :
    xml es = declaration ++ ((reportBeats es).flatMap Beat.text ++ [.ofChar '\n']) := by
  have hentries : (es.flatMap xmlLines).flatMap (.ofChar '\n' :: ·) =
      (es.flatMap entryBeats).flatMap Beat.text := by
    simp only [List.flatMap_assoc, entryBeats_text]
  have hlines : xmlOpening ++ es.flatMap xmlLines ++ xmlClosing =
      declaration :: (Text.ofString "<results>" :: (es.flatMap xmlLines ++ xmlClosing)) := rfl
  rw [xml, hlines, Text.join_eq_flatMap, reportBeats]
  simp only [List.flatMap_append, List.flatMap_cons, List.flatMap_nil, hentries, xmlClosing,
    List.append_assoc, List.cons_append, List.append_nil]
  rfl

/-! ## The elements of a report -/

theorem run_append (ts us : List Token) (s : List Frame) :
    run (ts ++ us) s = (run ts s).bind (run us) := by
  induction ts generalizing s with
  | nil => rfl
  | cons t ts ih =>
    simp only [List.cons_append, run]
    cases step t s with
    | none => rfl
    | some s => simp [ih]

/-- The open element with more nodes inside. -/
def addAll (f : Frame) (ns : List Node) : Frame := { f with children := f.children ++ ns }

theorem addAll_addAll (f : Frame) (ns ms : List Node) :
    addAll (addAll f ns) ms = addAll f (ns ++ ms) := by
  simp [addAll]

def locationNode (l : Location) : Node := .element "location" (locationAttributes l) []

/-- What stands inside of the element of a finding. -/
def locationNodes (ls : List Location) : List Node :=
  if ls.isEmpty then []
  else ls.flatMap (fun l => [.data "\n    ", locationNode l]) ++ [.data "\n  "]

def entryNode (e : Entry Text) : Node :=
  .element "error" (entryAttributes e) (locationNodes e.locations)

def reportNode (es : List (Entry Text)) : Node :=
  .element "results" [] (es.flatMap (fun e => [.data "\n  ", entryNode e]) ++ [.data "\n"])

theorem forXml_ofInt (n : Int) : forXml (Text.ofInt n) = Text.ofInt n := by
  refine List.filter_eq_self.mpr fun c hc => ?_
  rw [← isXmlChar_eq]
  exact isXmlChar_of_mem_ofInt hc

theorem run_locationBeats (ls : List Location) (f : Frame) (s : List Frame) :
    run ((ls.map locationBeat).flatMap Beat.tokens) (f :: s) =
      some (addAll f ((ls.map locationForXml).flatMap fun l =>
        [.data "\n    ", locationNode l]) :: s) := by
  induction ls generalizing f with
  | nil => simp [run, addAll]
  | cons l ls ih =>
    have hattributes : (locationAttributes l).map clean = locationAttributes (locationForXml l) :=
      congrArg (fun line => [(_, _), (_, line)]) (forXml_ofInt l.line)
    have hbeat : run (locationBeat l).tokens (f :: s) =
        some (addAll f [.data "\n    ", locationNode (locationForXml l)] :: s) := by
      rw [locationNode, ← hattributes, addAll, List.append_cons]
      rfl
    rw [List.map_cons, List.flatMap_cons, run_append, hbeat, Option.bind_some, ih, addAll_addAll]
    rfl

/-- A closing tag completes its element and puts it inside of the one around it. -/
theorem run_close (space name : Text) (attributes : List (Text × Text)) (children : List Node)
    (f : Frame) (s : List Frame) :
    run (Beat.mk space (.closeTag name)).tokens (addAll ⟨name, attributes, []⟩ children :: f :: s) =
      some (addAll f [.element name attributes (children ++ [.data space])] :: s) := by
  simp [Beat.tokens, Token.clean, run, step, Frame.add, Frame.element, addAll]

theorem run_entryBeats (e : Entry Text) (f : Frame) (s : List Frame) :
    run ((entryBeats e).flatMap Beat.tokens) (f :: s) =
      some (addAll f [.data "\n  ", entryNode e.forXml] :: s) := by
  have hattributes : (entryAttributes e).map clean = entryAttributes e.forXml := rfl
  unfold entryBeats
  split_ifs with h
  · have hinside : locationNodes e.forXml.locations = [] := by
      simp [locationNodes, Entry.forXml, List.isEmpty_iff.mp h]
    rw [entryNode, hinside, ← hattributes, addAll, List.append_cons]
    rfl
  · have hinside : locationNodes e.forXml.locations =
        (e.locations.map locationForXml).flatMap (fun l => [.data "\n    ", locationNode l]) ++
          [.data "\n  "] := by
      simp [locationNodes, Entry.forXml, h]
    have hopen : run (Beat.mk "\n  " (.openTag "error" (entryAttributes e))).tokens (f :: s) =
        some (⟨"error", entryAttributes e.forXml, []⟩ :: addAll f [.data "\n  "] :: s) := rfl
    rw [List.cons_append, List.flatMap_cons, List.flatMap_append, run_append, hopen, Option.bind_some,
      run_append, run_locationBeats, Option.bind_some, List.flatMap_singleton, run_close,
      addAll_addAll, entryNode, hinside]
    rfl

theorem run_entriesBeats (es : List (Entry Text)) (f : Frame) (s : List Frame) :
    run ((es.flatMap entryBeats).flatMap Beat.tokens) (f :: s) =
      some (addAll f ((es.map Entry.forXml).flatMap fun e => [.data "\n  ", entryNode e]) :: s) := by
  induction es generalizing f with
  | nil => simp [run, addAll]
  | cons e es ih =>
    rw [List.flatMap_cons, List.flatMap_append, run_append, run_entryBeats, Option.bind_some, ih,
      addAll_addAll]
    rfl

theorem nodes_reportBeats (es : List (Entry Text)) :
    nodes ((reportBeats es).flatMap Beat.tokens ++ [.data "\n"]) =
      some [.data "\n", reportNode (es.map Entry.forXml), .data "\n"] := by
  have hopen : ∀ f : Frame, run (Beat.mk "\n" (.openTag "results" [])).tokens [f] =
      some [⟨"results", [], []⟩, addAll f [.data "\n"]] := fun _ => rfl
  rw [nodes, reportBeats, List.cons_append, List.flatMap_cons, List.flatMap_append,
    List.flatMap_singleton, List.append_assoc, List.append_assoc, run_append, hopen,
    Option.bind_some, run_append, run_entriesBeats, Option.bind_some, run_append, run_close]
  rfl

/-! ## Reading a report -/

theorem locationAttributes_valid (l : Location) :
    (Token.emptyTag "location" (locationAttributes l)).IsTag := by
  refine ⟨by decide, ?_, by simp only [locationAttributes, List.map_cons, List.map_nil]; decide⟩
  simp only [locationAttributes, List.forall_mem_cons]
  decide

theorem entryAttributes_valid (e : Entry Text) :
    (Token.openTag "error" (entryAttributes e)).IsTag := by
  refine ⟨by decide, ?_, by simp only [entryAttributes, List.map_cons, List.map_nil]; decide⟩
  simp only [entryAttributes, List.forall_mem_cons]
  decide

theorem entryBeats_valid {e : Entry Text} {b : Beat} (h : b ∈ entryBeats e) : b.Valid := by
  unfold entryBeats at h
  split_ifs at h with hlocations
  · obtain rfl := List.mem_singleton.mp h
    exact Beat.valid_mk (by decide) (entryAttributes_valid e)
  · rw [List.cons_append, List.mem_cons, List.mem_append, List.mem_map, List.mem_singleton] at h
    rcases h with rfl | ⟨l, -, rfl⟩ | rfl
    · exact Beat.valid_mk (by decide) (entryAttributes_valid e)
    · exact Beat.valid_mk (by decide) (locationAttributes_valid l)
    · have hname : isName "error" := by decide
      exact Beat.valid_mk (by decide) hname

theorem reportBeats_valid {es : List (Entry Text)} {b : Beat} (h : b ∈ reportBeats es) :
    b.Valid := by
  have hname : isName "results" := by decide
  rw [reportBeats, List.cons_append, List.mem_cons, List.mem_append, List.mem_flatMap,
    List.mem_singleton] at h
  rcases h with rfl | ⟨e, -, h⟩ | rfl
  · exact Beat.valid_mk (by decide) ⟨hname, by simp, by simp⟩
  · exact entryBeats_valid h
  · exact Beat.valid_mk (by decide) hname

theorem readTokens_reportBeats (es : List (Entry Text)) (body : Text)
    (h : body = (reportBeats es).flatMap Beat.text ++ [.ofChar '\n']) :
    readTokens body.length body = some ((reportBeats es).flatMap Beat.tokens ++ [.data "\n"]) := by
  have hvalid : ∀ b ∈ reportBeats es, b.Valid := fun b hb => reportBeats_valid hb
  have hlength := length_le_flatMap_text hvalid
  have hn : 2 * (reportBeats es).length < body.length := by
    rw [h, List.length_append, List.length_singleton]
    omega
  have hlast : ∀ c ∈ Text.ofString "\n", isSpace c := by decide
  have hread := readTokens_beats hvalid hlast (List.cons_ne_nil _ _) hn
  rw [← hread, h]
  rfl

/-- What a declaration says. -/
def declared : List (Text × Text) := [("version", "1.0"), ("encoding", "UTF-8")]

theorem readProlog_declaration (body : Text) : readProlog (declaration ++ body) = some body := by
  have hdeclaration : declaration ++ body = Text.ofString "<?xml" ++
      (declared.flatMap attributeText ++ .ofChar '?' :: (.ofChar '>' :: body)) := rfl
  have hstart (r : Text) : Text.startsWith (Text.ofString "<?xml" ++ r) "<?xml" :=
    List.isPrefixOf_iff_prefix.mpr (List.prefix_append _ _)
  have hdrop (r : Text) : (Text.ofString "<?xml" ++ r).drop 5 = r := List.drop_left' rfl
  have hread : readDistinct (declared.flatMap attributeText ++ .ofChar '?' :: (.ofChar '>' :: body)) =
      some (declared.map clean, .ofChar '?' :: (.ofChar '>' :: body)) :=
    readDistinct_append (by decide) (by decide) (by decide) _
  rw [hdeclaration, readProlog, if_pos (hstart _), hdrop, hread]
  rfl

theorem all_isWritten_xml (es : List (Entry Text)) : (xml es).all isWritten := by
  have hdeclaration : declaration.all isWritten := by decide
  have hnewline : [CodePoint.ofChar '\n'].all isWritten := by decide
  have hbeats : ((reportBeats es).flatMap Beat.text).all isWritten :=
    all_isWritten_beats fun b hb => reportBeats_valid hb
  rw [xml_eq, List.all_append, List.all_append, hdeclaration, hbeats, hnewline]
  rfl

theorem all_isChar_xml (es : List (Entry Text)) : (xml es).all isChar := by
  rw [List.all_eq_true]
  intro c hc
  have hwritten := List.all_eq_true.mp (all_isWritten_xml es) c hc
  rw [isWritten, Bool.and_eq_true] at hwritten
  exact hwritten.1

theorem read_xml (es : List (Entry Text)) :
    Xml.read (xml es) = some (reportNode (es.map Entry.forXml)) := by
  have hnodes : ((nodes ((reportBeats es).flatMap Beat.tokens ++ [.data "\n"])).bind elements?) =
      some [reportNode (es.map Entry.forXml)] := by
    rw [nodes_reportBeats]
    rfl
  rw [Xml.read, normalizeLines_eq_self (all_isWritten_xml es), if_pos (all_isChar_xml es)]
  rw [xml_eq, readProlog_declaration, Option.bind_eq_bind, Option.bind_some,
    readTokens_reportBeats es _ rfl, Option.bind_eq_bind, Option.bind_some, hnodes]
  rfl

/-! ## What a report says -/

theorem location?_locationNode (l : Location) : location? (locationNode l) = some l := by
  simp [locationNode, locationAttributes, location?, Text.readInteger_ofInt]

/-- White space before each element and behind the last does not count. -/
theorem elements?_spaced {α : Type} {node : α → Node} {space last : Text}
    (hnode : ∀ a, ∃ name attributes children, node a = .element name attributes children)
    (hspace : space.all isSpace) (hlast : last.all isSpace) (xs : List α) :
    elements? (xs.flatMap (fun a => [.data space, node a]) ++ [.data last]) = some (xs.map node) := by
  induction xs with
  | nil => simp [elements?, hlast]
  | cons a xs ih =>
    obtain ⟨name, attributes, children, hnode⟩ := hnode a
    rw [List.flatMap_cons, List.append_assoc, List.cons_append, List.singleton_append, elements?,
      if_pos hspace, hnode, elements?, ih, List.map_cons, hnode]
    · rfl
    · exact fun _ h => Node.noConfusion h

theorem elements?_locationNodes (ls : List Location) :
    elements? (locationNodes ls) = some (ls.map locationNode) := by
  unfold locationNodes
  split_ifs with h
  · rw [List.isEmpty_iff.mp h]
    rfl
  · exact elements?_spaced (fun _ => ⟨_, _, _, rfl⟩) (by decide) (by decide) ls

theorem entry?_entryNode (e : Entry Text) : entry? (entryNode e) = some e := by
  have hlocations : ((e.locations.map locationNode).mapM location?) = some e.locations :=
    mapM_map_eq_self location?_locationNode e.locations
  simp [entryNode, entryAttributes, entry?, entryKeys, elements?_locationNodes, hlocations]

theorem readXml_xml (es : List (Entry Text)) : readXml (xml es) = some (es.map Entry.forXml) := by
  have helements : elements? ((es.map Entry.forXml).flatMap (fun e => [.data "\n  ", entryNode e]) ++
      [.data "\n"]) = some ((es.map Entry.forXml).map entryNode) :=
    elements?_spaced (fun _ => ⟨_, _, _, rfl⟩) (by decide) (by decide) _
  have hentries : ((es.map Entry.forXml).map entryNode).mapM entry? = some (es.map Entry.forXml) :=
    mapM_map_eq_self entry?_entryNode _
  simp only [readXml, read_xml, reportNode, helements, hentries, Option.bind_eq_bind,
    Option.bind_some, and_self, ↓reduceIte]

/-- There is a report just when no line number has too many digits. It holds characters of XML only. Read by the
rules of XML it says, in order, what was reported about each finding and its locations, but for the characters
that XML cannot hold. What is escaped in a value is escaped as by replacing one character after another in the
whole of it. -/
theorem xml_readable (es : List (Entry Text)) :
    render .xml (es.map Entry.values) =
        (if ∀ e ∈ es, e.Legible then .ok (xml es) else .error .integerTooLong) ∧
      (xml es).all isChar ∧ readXml (xml es) = some (es.map Entry.forXml) ∧
      ∀ t, xmlAttribute t = escapeInTurn (t.filter isChar) :=
  ⟨render_xml es, all_isChar_xml es, readXml_xml es, xmlAttribute_eq⟩

/-- Of an entry with a line that has too many digits there is no report at all. -/
theorem overlong_line_no_xml : ¬∃ report, render .xml ([overlongEntry].map Entry.values) = .ok report := by
  rw [render_overlongEntry]
  simp

end Findings.Report
