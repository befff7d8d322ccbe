import Folio.Page.Hydration
import Folio.Proofs.Json.Embedded
import Folio.Proofs.Json.Numbers

/-! Values in the hydration script come back as they were. Their text is JSON text in which no tag
and no comment can start, and a script reads it as JSON reads the text of the value. -/
namespace Folio

namespace Json

namespace Tree

mutual

/-- The value that a tree shows, however deep it is: every number is the nearest one, and members
stand in the order in which they are written. A string with a lone surrogate shows nothing. -/
def shown? : Tree → Option Json
  | .null => some .null
  | .bool b => some (.bool b)
  | .number l => some (.number l.nearest)
  | .string s => s.map .string
  | .array items => (itemsShown? items).map .array
  | .object members => (membersShown? members).map .object

def itemsShown? : List Tree → Option (List Json)
  | [] => some []
  | t :: ts =>
    match t.shown?, itemsShown? ts with
    | some v, some vs => some (v :: vs)
    | _, _ => none

def membersShown? : List (Option String × Tree) → Option (List (String × Json))
  | [] => some []
  | (k, t) :: ms =>
    match k, t.shown?, membersShown? ms with
    | some k, some v, some vs => some ((k, v) :: vs)
    | _, _, _ => none

end

end Tree

/-- Reads a JSON text as a script does. -/
def ofScript? (s : String) : Option Json :=
  (Token.ofScript? s.toList).bind fun ts => (Tree.ofTokens? ts).bind Tree.shown?

/-- Holds of values all of whose numbers are finite. -/
abbrev Finite (v : Json) : Prop := v.EachNumber Number.Finite

theorem Finite.legible {v : Json} (h : v.Finite) : v.Legible :=
  EachNumber.imp (fun _ => Number.Finite.legible) h

mutual

/-- The tree of a value shows the value. -/
theorem Finite.shown?_tree {v : Json} (h : v.Finite) : v.tree.shown? = some v := by
  match v with
  | .null | .bool _ | .string _ => rfl
  | .number n =>
    have hn : n.Finite := h
    rw [tree, Tree.shown?, hn.nearest_literal]
  | .array items => rw [tree, Tree.shown?, itemsShown?_itemTrees h, Option.map_some]
  | .object members => rw [tree, Tree.shown?, membersShown?_memberTrees h, Option.map_some]

theorem itemsShown?_itemTrees {vs : List Json} (h : EachItemNumber Number.Finite vs) :
    Tree.itemsShown? (itemTrees vs) = some vs := by
  match vs with
  | [] => rfl
  | v :: vs =>
    rw [itemTrees, Tree.itemsShown?, Finite.shown?_tree h.1, itemsShown?_itemTrees h.2]

theorem membersShown?_memberTrees {ms : List (String × Json)}
    (h : EachMemberNumber Number.Finite ms) :
    Tree.membersShown? (memberTrees ms) = some ms := by
  match ms with
  | [] => rfl
  | (k, v) :: ms =>
    have hv := Finite.shown?_tree h.1
    have hms := membersShown?_memberTrees h.2
    simp only [memberTrees, Tree.membersShown?, hv, hms]

end

end Json

namespace Hydration

open Json (Finite Token)

theorem toList_valueText (v : Json) : (valueText v).toList = Text.embedChars v.text.toList :=
  String.toList_ofList

theorem ofScript?_valueText {v : Json} (hv : v.Finite) :
    Json.ofScript? (valueText v) = some v := by
  rw [Json.ofScript?, toList_valueText, Token.ofScript?_embedChars (Json.ofChars_text hv.legible),
    Option.bind_some, Json.Tree.ofTokens?_tokens, Option.bind_some, hv.shown?_tree]

/-- What stands between the quotation marks of a string literal in the script. -/
def inside (s : String) : List Char := Text.embedChars (s.toList.flatMap Json.escapeChar)

theorem toList_stringText (s : String) : (stringText s).toList = '"' :: inside s ++ ['"'] := by
  have htext : (Json.string s).text.toList = Json.stringChars s := by
    simp [Json.text, Json.write]
  rw [stringText, toList_valueText, htext, Json.stringChars, Text.embedChars_quoted, inside]

example : stringText "\"</script><!--" = "\"\\\"<\\/script><\\!--\"" := rfl

/-- Between the quotation marks a script does not leave the literal. -/
theorem foldlM_inside (s : String) (ts : List Token) :
    (inside s).foldlM Token.feedScript ⟨ts, .string (some []) none .plain⟩ =
      some ⟨ts, .string (some (s.toList.reverse ++ [])) none .plain⟩ :=
  Token.foldlM_embedChars (Token.foldlM_escapeChars [] s.toList)

/-- What is put into the script reads back: the text of a value as the value, with no closing tag
and no comment in it, and the text of a string as one literal. -/
theorem embedded_reads_back :
    (∀ v : Json, v.Finite →
      ¬ ['<', '/'] <:+: (valueText v).toList ∧ ¬ ['<', '!', '-', '-'] <:+: (valueText v).toList ∧
        Json.ofScript? (valueText v) = some v) ∧
    ∀ s : String, ∃ body : List Char, (stringText s).toList = '"' :: body ++ ['"'] ∧
      Token.hasBareQuote false body = false ∧ (∀ c ∈ body, 0x20 ≤ c.toNat) ∧
        Json.ofScript? (stringText s) = some (.string s) := by
  refine ⟨fun v hv => ⟨?_, ?_, ofScript?_valueText hv⟩, fun s => ?_⟩
  · rw [toList_valueText]
    exact Text.not_infix_embedChars_closing _
  · rw [toList_valueText]
    exact Text.not_infix_embedChars_comment _
  · have hstring : (Json.string s).Finite := trivial
    obtain ⟨hbare, hlow⟩ := Token.inside_of_foldlM (foldlM_inside s [])
    exact ⟨inside s, toList_stringText s, hbare, hlow, ofScript?_valueText hstring⟩

/-- Texts that try to end the script or to open a comment in it, and the double nearest to minus a
tenth. -/
def hostile : Json :=
  .object
    [("</script>",
      .array [.string "\"<!--\\</", .null, .number (.real ⟨true, 4591870180066957722⟩)]),
    ("<", .object [("/", .string "<</\n<!-- \x01"), ("", .number (.whole (-3)))])]

theorem embedded_reads_back_hostile :
    hostile.Finite ∧
      (¬ ['<', '/'] <:+: (valueText hostile).toList ∧
        ¬ ['<', '!', '-', '-'] <:+: (valueText hostile).toList ∧
          Json.ofScript? (valueText hostile) = some hostile) ∧
      ∃ body : List Char, (stringText "</\"").toList = '"' :: body ++ ['"'] ∧
        Token.hasBareQuote false body = false ∧ (∀ c ∈ body, 0x20 ≤ c.toNat) ∧
          Json.ofScript? (stringText "</\"") = some (.string "</\"") := by
  have hfinite : hostile.Finite := by
    have hreal : (Json.Number.real ⟨true, 4591870180066957722⟩).Finite := by decide
    exact ⟨⟨trivial, trivial, hreal, trivial⟩, ⟨trivial, trivial, trivial⟩, trivial⟩
  exact ⟨hfinite, embedded_reads_back.1 hostile hfinite, embedded_reads_back.2 "</\""⟩

end Hydration

end Folio
