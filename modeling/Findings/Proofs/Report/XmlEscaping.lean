import Findings.Proofs.Xml.Writing

/-!
# Escaping one character after another

An attribute is escaped character by character. This is the same as replacing all ampersands first, then all
greater-than signs, and so on through the characters that are escaped (`escapeInTurn_eq`): the ampersand is
the only one of them that an escape holds, and it is replaced before there is any escape.
-/

namespace Findings.Report

/-- The characters that are escaped and their escapes, in the order in which they are replaced. -/
def escapes : List (CodePoint × Text) :=
  [(.ofChar '&', "&amp;"), (.ofChar '>', "&gt;"), (.ofChar '<', "&lt;"), (.ofChar '"', "&quot;"),
   (.ofChar '\'', "&apos;"), (.ofChar '\n', "&#10;"), (.ofChar '\r', "&#13;"), (.ofChar '\t', "&#9;")]

/-- `t` with an escape for every occurrence of its character. -/
def replaceAll (t : Text) (e : CodePoint × Text) : Text :=
  t.flatMap fun c => if c = e.1 then e.2 else [c]

/-- `t` with the escapes put in one after another, each into all of what the ones before it left. -/
def escapeInTurn (t : Text) : Text := escapes.foldl replaceAll t

theorem foldl_replaceAll (es : List (CodePoint × Text)) (t : Text) :
    es.foldl replaceAll t = t.flatMap fun c => es.foldl replaceAll [c] := by
  induction es generalizing t with
  | nil => simp
  | cons e es ih =>
    rw [List.foldl_cons, ih, replaceAll, List.flatMap_assoc]
    congr 1
    funext c
    rw [List.foldl_cons, ← ih]
    simp [replaceAll]

theorem foldl_replaceAll_of_ne {es : List (CodePoint × Text)} {c : CodePoint}
    (h : ∀ e ∈ es, c ≠ e.1) : es.foldl replaceAll [c] = [c] := by
  induction es with
  | nil => rfl
  | cons e es ih =>
    have hc : replaceAll [c] e = [c] := by simp [replaceAll, h e (by simp)]
    rw [List.foldl_cons, hc, ih fun e' he' => h e' (List.mem_cons_of_mem e he')]

theorem escapeInTurn_singleton (c : CodePoint) : escapeInTurn [c] = xmlChar c := by
  unfold xmlChar
  split_ifs with hamp hgt hlt hquot hapos hnewline hreturn htab
  · rw [hamp]; decide
  · rw [hgt]; decide
  · rw [hlt]; decide
  · rw [hquot]; decide
  · rw [hapos]; decide
  · rw [hnewline]; decide
  · rw [hreturn]; decide
  · rw [htab]; decide
  · exact foldl_replaceAll_of_ne (by simp [escapes, *])

theorem escapeInTurn_eq (t : Text) : escapeInTurn t = t.flatMap xmlChar := by
  rw [escapeInTurn, foldl_replaceAll]
  congr 1
  funext c
  exact escapeInTurn_singleton c

theorem xmlAttribute_eq (t : Text) : xmlAttribute t = escapeInTurn (t.filter Xml.isChar) := by
  rw [escapeInTurn_eq, xmlAttribute, funext Xml.isXmlChar_eq]

example : xmlAttribute "&lt;\t\x00" = "&amp;lt;&#9;" := by decide

end Findings.Report
