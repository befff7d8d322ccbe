import Folio.Page.Head
import Folio.Proofs.Style.Rules

/-! Global rules of a head. Whatever selectors and declarations they are registered for, they stand
in the style of the document one after another as they were accepted, and whoever reads it at its
braces finds them again. A comment can open or close in it, but only inside a selector. -/
namespace Folio

open Text
open Style (IsDeclared declarationText kept partText)

variable {p : List Char} {c : Char}

/-! Rules -/

/-- A rule that can be registered: a selector that is trimmed and ends neither itself nor the style
element, and declarations. -/
structure GlobalRule.Proper (r : GlobalRule) : Prop where
  selects : r.selector ≠ ""
  trimmed : IsTrimmed r.selector.toList
  allowed : ∀ c ∈ r.selector.toList, Head.isForbidden c = false
  declares : ∃ ds, ds ≠ [] ∧ (∀ d ∈ ds, IsDeclared d) ∧
    r.rules = String.join (ds.map declarationText)

namespace GlobalRule

variable {r : GlobalRule} {rs : List GlobalRule}

/-- A rule as it is written into the style of a document. -/
def text (r : GlobalRule) : String := r.selector ++ "\x7b" ++ r.rules ++ "\x7d"

/-- A rule by selector and body. -/
def part (r : GlobalRule) : List Char × List Char := (r.selector.toList, r.rules.toList)

theorem toList_text (r : GlobalRule) : r.text.toList = partText r.part := by
  simp [text, part, partText]

theorem toList_join (rs : List GlobalRule) :
    (String.join (rs.map text)).toList = (rs.map part).flatMap partText := by
  rw [String.toList_join, List.flatMap_map, List.flatMap_map]
  exact List.flatMap_congr fun r _ => r.toList_text

theorem toList_join_cons (r : GlobalRule) (rs : List GlobalRule) :
    (String.join ((r :: rs).map text)).toList =
      r.selector.toList ++
        '\x7b' :: (r.rules.toList ++ '\x7d' :: (String.join (rs.map text)).toList) := by
  simp [text]

namespace Proper

theorem not_mem_selector (h : r.Proper) (hc : Head.isForbidden c = true) :
    c ∉ r.selector.toList := by
  intro hmem
  rw [h.allowed c hmem] at hc
  cases hc

theorem not_mem_rules (h : r.Proper) (hc : Style.isForbidden c = true) (hend : c ≠ ';') :
    c ∉ r.rules.toList := by
  obtain ⟨ds, -, hdeclared, hrules⟩ := h.declares
  rw [hrules]
  exact IsDeclared.not_mem_join hdeclared hc hend

theorem hasCommentMark_rules (h : r.Proper) : Style.hasCommentMark r.rules.toList = false := by
  obtain ⟨ds, -, hdeclared, hrules⟩ := h.declares
  rw [hrules]
  exact IsDeclared.hasCommentMark_join hdeclared

/-- A rule ends at its only closing brace. -/
theorem exists_front (h : r.Proper) :
    ∃ front, r.text.toList = front ++ ['\x7d'] ∧ '\x7d' ∉ front := by
  refine ⟨r.selector.toList ++ '\x7b' :: r.rules.toList, by simp [text], ?_⟩
  rw [List.mem_append, List.mem_cons, not_or, not_or]
  exact ⟨h.not_mem_selector rfl, by decide, h.not_mem_rules rfl (by decide)⟩

end Proper

/-! Rules one after another -/

theorem splitAfter_join (h : ∀ r ∈ rs, r.Proper) :
    splitAfter '\x7d' (String.join (rs.map text)).toList = rs.map fun r => partText r.part := by
  have hends : ∀ rule ∈ rs.map text, ∃ front, rule.toList = front ++ ['\x7d'] ∧ '\x7d' ∉ front := by
    intro rule hrule
    obtain ⟨r, hr, rfl⟩ := List.mem_map.1 hrule
    exact (h r hr).exists_front
  rw [Style.splitAfter_join hends, List.map_map]
  exact List.map_congr_left fun r _ => r.toList_text

theorem rules_join (h : ∀ r ∈ rs, r.Proper) :
    Style.rules (String.join (rs.map text)).toList = rs.map part := by
  rw [toList_join]
  refine Style.rules_flatMap fun part hpart => ?_
  obtain ⟨r, hr, rfl⟩ := List.mem_map.1 hpart
  exact ⟨(h r hr).not_mem_selector rfl, (h r hr).not_mem_rules rfl (by decide)⟩

/-- Neither of the two filters lets an angle bracket pass. -/
theorem ne_of_mem_join (h : ∀ r ∈ rs, r.Proper) (hc : c ∈ (String.join (rs.map text)).toList) :
    c ≠ '<' ∧ c ≠ '>' := by
  rw [toList_join, List.flatMap_map] at hc
  obtain ⟨r, hr, hc⟩ := List.mem_flatMap.1 hc
  have hother : ∀ d, Head.isForbidden d = true → Style.isForbidden d = true → d ≠ ';' →
      d ≠ '\x7b' → d ≠ '\x7d' → c ≠ d := by
    rintro d hselector hrules hend hopen hclose rfl
    rw [partText, List.mem_append, List.mem_cons, List.mem_append, List.mem_singleton] at hc
    rcases hc with hc | hc | hc | hc
    · exact (h r hr).not_mem_selector hselector hc
    · exact hopen hc
    · exact (h r hr).not_mem_rules hrules hend hc
    · exact hclose hc
  exact ⟨hother '<' rfl rfl (by decide) (by decide) (by decide),
    hother '>' rfl rfl (by decide) (by decide) (by decide)⟩

theorem filter_braces_eq_nil {s : List Char} (hopen : '\x7b' ∉ s) (hclose : '\x7d' ∉ s) :
    s.filter (fun c => c == '\x7b' || c == '\x7d') = [] := by
  rw [List.filter_eq_nil_iff]
  rintro c hc hbrace
  simp only [Bool.or_eq_true, beq_iff_eq] at hbrace
  rcases hbrace with rfl | rfl
  · exact hopen hc
  · exact hclose hc

/-- The braces of rules alternate. -/
theorem braces_join (h : ∀ r ∈ rs, r.Proper) :
    (String.join (rs.map text)).toList.filter (fun c => c == '\x7b' || c == '\x7d') =
      (List.replicate rs.length ['\x7b', '\x7d']).flatten := by
  induction rs with
  | nil => rfl
  | cons r rs ih =>
    rw [List.forall_mem_cons] at h
    have hselector : r.selector.toList.filter (fun c => c == '\x7b' || c == '\x7d') = [] :=
      filter_braces_eq_nil (h.1.not_mem_selector rfl) (h.1.not_mem_selector rfl)
    have hrules : r.rules.toList.filter (fun c => c == '\x7b' || c == '\x7d') = [] :=
      filter_braces_eq_nil (h.1.not_mem_rules rfl (by decide)) (h.1.not_mem_rules rfl (by decide))
    rw [toList_join_cons, List.filter_append, hselector, List.nil_append,
      List.filter_cons_of_pos rfl, List.filter_append, hrules, List.nil_append,
      List.filter_cons_of_pos rfl, ih h.2]
    rfl

/-- What no declarations hold and no brace is part of stands in rules only where it stands in one of
their selectors. -/
theorem infix_join_iff (hsome : p ≠ []) (hopen : '\x7b' ∉ p) (hclose : '\x7d' ∉ p)
    (hrules : ∀ r ∈ rs, ¬ p <:+: r.rules.toList) :
    p <:+: (String.join (rs.map text)).toList ↔ ∃ r ∈ rs, p <:+: r.selector.toList := by
  induction rs with
  | nil => simp [hsome]
  | cons r rs ih =>
    rw [List.forall_mem_cons] at hrules
    -- it cannot reach over a brace, so it is in the selector, in the body or further on
    rw [toList_join_cons, infix_append_cons_iff hopen hsome, infix_append_cons_iff hclose hsome,
      ih hrules.2]
    simp [hrules.1]

end GlobalRule

/-! Registration -/

namespace Head

variable {h : Head} {selector : String} {ds : List (String × String)} {r : GlobalRule}

/-- The rule that is registered for a selector and declarations, if something is left of both. -/
def globalRule? (selector : String) (ds : List (String × String)) : Option GlobalRule :=
  let selector := via (fun s => trim (s.filter (!isForbidden ·))) selector
  let ds := kept Style.defaultLimit ds
  if selector = "" ∨ ds = [] then none
  else some ⟨selector, String.join (ds.map declarationText)⟩

theorem proper_of_globalRule? (hr : globalRule? selector ds = some r) : r.Proper := by
  simp only [globalRule?] at hr
  split at hr
  · cases hr
  · next hsome =>
    obtain rfl := Option.some.inj hr
    rw [not_or] at hsome
    refine ⟨hsome.1, ?_, fun c hc => ?_, _, hsome.2, fun d hd => ?_, rfl⟩
    · rw [toList_via]
      exact isTrimmed_trim _
    · rw [toList_via] at hc
      simpa using (List.mem_filter.1 ((trim_isInfix _).subset hc)).2
    · exact Style.isDeclared_of_mem_kept hd

/-- The global rules after a call. -/
def registered (rs : List GlobalRule) : Call → List GlobalRule
  | .global selector ds => rs ++ (globalRule? selector ds).toList
  | .clear => []
  | _ => rs

theorem globalRules_global (h : Head) (selector : String) (ds : List (String × String)) :
    (h.global selector ds).globalRules = h.globalRules ++ (globalRule? selector ds).toList := by
  have hempty : (Style.declarations Style.defaultLimit ds).isEmpty =
      (kept Style.defaultLimit ds).isEmpty := by
    rw [Style.declarations_eq_join, Style.isEmpty_body]
  simp only [global, globalRule?, hempty]
  split
  · next hnone =>
    rw [Bool.or_eq_true, String.isEmpty_iff, List.isEmpty_iff] at hnone
    rw [if_pos hnone, Option.toList_none, List.append_nil]
  · next hsome =>
    rw [Bool.or_eq_true, String.isEmpty_iff, List.isEmpty_iff] at hsome
    rw [if_neg hsome, Option.toList_some, Style.declarations_eq_join]

theorem globalRules_apply (h : Head) (call : Call) :
    (h.apply call).1.globalRules = registered h.globalRules call := by
  cases call with
  | global selector ds => exact globalRules_global h selector ds
  | named name css =>
    simp only [apply, named, registered]
    split <;> rfl
  | _ => rfl

theorem globalRules_applyAll (h : Head) (calls : List Call) :
    (applyAll calls h).1.globalRules = calls.foldl registered h.globalRules := by
  induction calls generalizing h with
  | nil => rfl
  | cons call calls ih =>
    rw [List.foldl_cons, ← globalRules_apply]
    exact ih _

theorem proper_registered {rs : List GlobalRule} (hrs : ∀ r ∈ rs, r.Proper) (call : Call) :
    ∀ r ∈ registered rs call, r.Proper := by
  cases call with
  | global selector ds =>
    refine List.forall_mem_append.2 ⟨hrs, fun r hr => ?_⟩
    exact proper_of_globalRule? (Option.mem_toList.1 hr)
  | clear => exact List.forall_mem_nil _
  | _ => exact hrs

theorem proper_foldl_registered (calls : List Call) {rs : List GlobalRule}
    (hrs : ∀ r ∈ rs, r.Proper) : ∀ r ∈ calls.foldl registered rs, r.Proper := by
  induction calls generalizing rs with
  | nil => exact hrs
  | cons call calls ih => exact ih (proper_registered hrs call)

theorem css_eq_join (hnamed : h.namedRules.values = []) :
    h.css = String.join (h.globalRules.map GlobalRule.text) := by
  rw [css, hnamed, String.join_nil, String.append_empty]
  rfl

/-- The style of a head without named rules is its global rules, in the order in which they were
accepted, after whatever calls: no angle bracket is in it, its braces alternate, and cutting it
after each closing one gives back the rules, each with its selector and its declarations. No comment
opens or closes in it but in a selector that holds the mark. -/
theorem global_rules_apart {head : Head} {calls : List Call}
    (hproper : ∀ r ∈ h.globalRules, r.Proper) (hrun : (applyAll calls h).1 = head)
    (hnamed : head.namedRules.values = []) :
    head.globalRules = calls.foldl registered h.globalRules ∧
      (∀ r ∈ head.globalRules, r.Proper) ∧
      (∀ c ∈ head.css.toList, c ≠ '<' ∧ c ≠ '>') ∧
      head.css.toList.filter (fun c => c == '\x7b' || c == '\x7d') =
        (List.replicate head.globalRules.length ['\x7b', '\x7d']).flatten ∧
      splitAfter '\x7d' head.css.toList = head.globalRules.map (fun r => partText r.part) ∧
      Style.rules head.css.toList = head.globalRules.map GlobalRule.part ∧
      (['/', '*'] <:+: head.css.toList ↔
        ∃ r ∈ head.globalRules, ['/', '*'] <:+: r.selector.toList) ∧
      (['*', '/'] <:+: head.css.toList ↔
        ∃ r ∈ head.globalRules, ['*', '/'] <:+: r.selector.toList) := by
  have hregistered : head.globalRules = calls.foldl registered h.globalRules := by
    rw [← hrun, globalRules_applyAll]
  have hrules : ∀ r ∈ head.globalRules, r.Proper := by
    rw [hregistered]
    exact proper_foldl_registered calls hproper
  have hmarks : ∀ r ∈ head.globalRules,
      ¬ ['/', '*'] <:+: r.rules.toList ∧ ¬ ['*', '/'] <:+: r.rules.toList := fun r hr =>
    Style.hasCommentMark_eq_false_iff.1 (hrules r hr).hasCommentMark_rules
  rw [css_eq_join hnamed]
  refine ⟨hregistered, hrules, fun c hc => GlobalRule.ne_of_mem_join hrules hc,
    GlobalRule.braces_join hrules, GlobalRule.splitAfter_join hrules, GlobalRule.rules_join hrules,
    ?_, ?_⟩
  · exact GlobalRule.infix_join_iff (by decide) (by decide) (by decide) fun r hr => (hmarks r hr).1
  · exact GlobalRule.infix_join_iff (by decide) (by decide) (by decide) fun r hr => (hmarks r hr).2

/-- Calls of which two register a rule after what was there before them is cleared. -/
def mixedCalls : List Call :=
  [.global "p" [("x", "1")], .clear, .title "t",
    .global " ul\x7d>li " [("backgroundColor", "white;\x7d"), ("margin", "")],
    .global "p" [("color", "\x7b\x7d")], .global ";" [("x", "1")],
    .global "a/\x7b*" [("xml:lang", "/*e*n")]]

/-- One of the selectors holds a mark, which its filter puts together. -/
theorem global_rules_apart_mixed :
    (applyAll mixedCalls {}).1.namedRules.values = [] ∧
      (applyAll mixedCalls {}).1.css =
        "ulli\x7bbackground-color:white;\x7da/*\x7bxml:lang:e*n;\x7d" ∧
      (∀ r ∈ (applyAll mixedCalls {}).1.globalRules, r.Proper) ∧
      Style.rules (applyAll mixedCalls {}).1.css.toList =
        [("ulli".toList, "background-color:white;".toList),
          ("a/*".toList, "xml:lang:e*n;".toList)] ∧
      ['/', '*'] <:+: (applyAll mixedCalls {}).1.css.toList ∧
      ¬ ['*', '/'] <:+: (applyAll mixedCalls {}).1.css.toList := by
  have hempty : ∀ r ∈ ({} : Head).globalRules, r.Proper := List.forall_mem_nil _
  have hnamed : (applyAll mixedCalls {}).1.namedRules.values = [] := by decide +kernel
  have hrules : (applyAll mixedCalls {}).1.globalRules =
      [⟨"ulli", "background-color:white;"⟩, ⟨"a/*", "xml:lang:e*n;"⟩] := by decide +kernel
  obtain ⟨-, hproper, -, -, -, hread, hopening, hclosing⟩ :=
    global_rules_apart hempty (Eq.refl (applyAll mixedCalls {}).1) hnamed
  rw [hrules] at hread hopening hclosing
  refine ⟨hnamed, by decide +kernel, hproper, hread.trans rfl, hopening.2 (by decide), ?_⟩
  exact fun hin => absurd (hclosing.1 hin) (by decide)

/-- A mark in a selector stays there, and comments out what is registered after it. -/
theorem selector_opens_comment :
    (applyAll [.global "p/*" [("color", "red")], .global "a" [("margin", "0")]] {}).1.css =
        "p/*\x7bcolor:red;\x7da\x7bmargin:0;\x7d" ∧
      ['/', '*'] <:+: "p/*\x7bcolor:red;\x7da\x7bmargin:0;\x7d".toList := by
  refine ⟨by decide +kernel, "p".toList, "\x7bcolor:red;\x7da\x7bmargin:0;\x7d".toList, ?_⟩
  decide +kernel

end Head

end Folio
