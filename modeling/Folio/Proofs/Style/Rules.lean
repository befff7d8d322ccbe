import Folio.Proofs.Style.Sheet
import Folio.Proofs.Text.Occurrence
import Folio.Proofs.Text.Trim

/-! Style as the texts of its rules. However a style came about, it is rules for classes one after
another, and whoever cuts it at its braces finds these rules again. -/
namespace Folio

namespace Text

variable {c : Char} {front s : List Char}

/-- A piece goes up to the first `c`. -/
theorem splitAfter_append_cons (h : c ∉ front) :
    splitAfter c (front ++ c :: s) = (front ++ [c]) :: splitAfter c s := by
  induction front with
  | nil => simp [splitAfter]
  | cons d front ih =>
    rw [List.mem_cons, not_or] at h
    have hrest := ih h.2
    unfold splitAfter at hrest ⊢
    rw [List.cons_append, List.foldr_cons, hrest, if_neg (Ne.symm h.1)]
    rfl

end Text

namespace Style

open Text

variable {limit : Nat} {text className body : String} {texts : List String}

/-- The text of a rule for a class: a name without delimiters, and a body without braces. -/
inductive IsRule : String → Prop
  | rule {className body : String} (hnamed : className ≠ "")
    (hname : ∀ c ∈ className.toList, isClassChar c = true) (hdeclares : body ≠ "")
    (hbody : ∀ c ∈ body.toList, c ≠ '\x7b' ∧ c ≠ '\x7d') : IsRule (ruleText className body)

/-- The texts of the rules of a fragment. -/
def ruleTexts (fragment : String) : List String :=
  (rules fragment.toList).map fun part => String.ofList (part.1 ++ '\x7b' :: (part.2 ++ ['\x7d']))

theorem toList_ruleText (className body : String) :
    (ruleText className body).toList =
      ('.' :: className.toList) ++ '\x7b' :: (body.toList ++ ['\x7d']) := by
  simp [ruleText]

/-! What a rule is -/

theorem not_mem_declarations {c : Char} (hc : isForbidden c = true) (hend : c ≠ ';')
    (ds : List (String × String)) : c ∉ (declarations limit ds).toList := by
  rw [declarations_eq_join]
  exact IsDeclared.not_mem_join (fun _ hd => isDeclared_of_mem_kept hd) hc hend

theorem isRule_of_scope {ds : List (String × String)} {style : Scoped}
    (h : scope limit ds = some style) : IsRule style.fragment := by
  obtain ⟨hsome, rfl⟩ := eq_of_scope h
  refine .rule (by simp [scopedClass]) (isClassChar_of_mem_scopedClass _) hsome fun c hc => ?_
  refine ⟨?_, ?_⟩ <;> rintro rfl
  · exact not_mem_declarations rfl (by decide) ds hc
  · exact not_mem_declarations rfl (by decide) ds hc

theorem Rule.WellFormed.isRule {r : Rule} (h : r.WellFormed limit) : IsRule r.text := by
  refine .rule h.named h.className ?_ ?_
  · have hsome : r.body.isEmpty = false := by
      rw [Rule.body, isEmpty_body]
      simpa using h.declared
    simpa using hsome
  · intro c hc
    refine ⟨?_, ?_⟩ <;> rintro rfl
    · exact h.not_mem_body rfl (by decide) hc
    · exact h.not_mem_body rfl (by decide) hc

theorem isRule_of_mem_rebuilt {fragment : String} :
    ∀ text ∈ (rebuilt limit fragment).map Rule.text, IsRule text := by
  intro text htext
  obtain ⟨r, hr, rfl⟩ := List.mem_map.1 htext
  exact (wellFormed_of_mem_rebuilt hr).isRule

namespace IsRule

/-- A rule ends at its only closing brace. -/
theorem exists_front (h : IsRule text) :
    ∃ front, text.toList = front ++ ['\x7d'] ∧ '\x7d' ∉ front := by
  cases h with
  | @rule className body hnamed hname hdeclares hbody =>
    refine ⟨('.' :: className.toList) ++ '\x7b' :: body.toList, ?_, ?_⟩
    · simp [toList_ruleText]
    · rw [List.mem_append, List.mem_cons, List.mem_cons, not_or, not_or, not_or]
      refine ⟨⟨by decide, fun hmem => ?_⟩, by decide, fun hmem => (hbody _ hmem).2 rfl⟩
      cases hname _ hmem

/-- A rule has no opening brace before its body and no closing one in it. -/
theorem exists_part (h : IsRule text) :
    ∃ part, text.toList = partText part ∧ '\x7b' ∉ part.1 ∧ '\x7d' ∉ part.2 := by
  cases h with
  | @rule className body hnamed hname hdeclares hbody =>
    refine ⟨('.' :: className.toList, body.toList), toList_ruleText className body, ?_,
      fun hmem => (hbody _ hmem).2 rfl⟩
    exact not_mem_dot hname rfl (by decide)

theorem trim_eq (h : IsRule text) : String.ofList (trim text.toList) = text := by
  have htrimmed : IsTrimmed text.toList := by
    obtain ⟨front, htext, -⟩ := h.exists_front
    refine ⟨fun c hc => ?_, fun c hc => ?_⟩
    · cases h with
      | rule =>
        rw [toList_ruleText] at hc
        obtain rfl : '.' = c := Option.some.inj hc
        decide
    · rw [htext, List.getLast?_concat] at hc
      obtain rfl := Option.some.inj hc
      decide
  rw [htrimmed.trim_eq, String.ofList_toList]

theorem ne_empty (h : IsRule text) : text.isEmpty = false := by
  cases h with
  | rule => simp [ruleText]

end IsRule

/-! Cutting a fragment into its rules -/

/-- Texts that end at their only closing brace are cut apart behind it. -/
theorem splitAfter_join
    (h : ∀ text ∈ texts, ∃ front, text.toList = front ++ ['\x7d'] ∧ '\x7d' ∉ front) :
    splitAfter '\x7d' (String.join texts).toList = texts.map String.toList := by
  induction texts with
  | nil => rfl
  | cons text texts ih =>
    rw [List.forall_mem_cons] at h
    obtain ⟨⟨front, htext, hfront⟩, hrest⟩ := h
    rw [String.join_cons, String.toList_append, htext, List.append_assoc, List.singleton_append,
      splitAfter_append_cons hfront, ih hrest, List.map_cons, htext]

/-- A style is read as the rules it was put together of. -/
theorem ruleTexts_join (h : ∀ text ∈ texts, IsRule text) :
    ruleTexts (String.join texts) = texts := by
  induction texts with
  | nil =>
    unfold ruleTexts rules
    rfl
  | cons text texts ih =>
    rw [List.forall_mem_cons] at h
    obtain ⟨part, htext, hselector, hbody⟩ := h.1.exists_part
    have hfirst : String.ofList (partText part) = text := by
      rw [← htext, String.ofList_toList]
    rw [ruleTexts, String.join_cons, String.toList_append, htext,
      rules_partText_append hselector hbody, List.map_cons, ← ruleTexts, ih h.2]
    exact congrArg (· :: texts) hfirst

/-! Finding a rule in a fragment -/

/-- A rule does not end in another one, for its only dot is the first character of its selector. -/
theorem IsRule.eq_nil_of_append {rule : String} (hrule : IsRule rule) (h : IsRule text)
    {before : List Char} (heq : text.toList = before ++ rule.toList) : before = [] := by
  cases hrule
  cases h with
  | @rule className body hnamed hname hdeclares hbody =>
    have hselector : '\x7b' ∉ '.' :: className.toList := not_mem_dot hname rfl (by decide)
    have hbrace : '\x7b' ∉ body.toList ++ ['\x7d'] := by
      rw [List.mem_append, List.mem_singleton, not_or]
      exact ⟨fun hmem => (hbody _ hmem).1 rfl, by decide⟩
    rw [toList_ruleText, toList_ruleText, ← List.append_assoc,
      List.append_cons_inj_of_notMem hselector hbrace] at heq
    cases before with
    | nil => rfl
    | cons c before =>
      have hdot : '.' ∈ className.toList := by
        rw [(List.cons.inj heq.1).2]
        exact List.mem_append_right _ List.mem_cons_self
      cases hname _ hdot

/-- A rule that begins in another one goes on to its end. -/
theorem IsRule.infix_append {rule : String} (hrule : IsRule rule) (h : IsRule text)
    {rest : List Char} (hin : rule.toList <:+: text.toList ++ rest) :
    rule = text ∨ rule.toList <:+: rest := by
  obtain ⟨before, after, heq⟩ := hin
  rw [List.append_assoc, List.append_eq_append_iff] at heq
  rcases heq with ⟨gap, htext, hrest⟩ | ⟨back, -, hrest⟩
  · rcases List.eq_nil_or_concat gap with rfl | ⟨gap, last, rfl⟩
    · exact .inr ⟨[], after, hrest⟩
    · left
      obtain ⟨front, hfront, hclosed⟩ := h.exists_front
      obtain ⟨body, hbody, hopen⟩ := hrule.exists_front
      rw [hfront, List.concat_eq_append, ← List.append_assoc] at htext
      obtain ⟨rfl, hlast⟩ := List.append_inj' htext rfl
      obtain rfl := (List.cons.inj hlast).1
      -- both texts go up to the first closing brace, so they end together
      have hgap : '\x7d' ∉ gap := fun hmem => hclosed (List.mem_append_right _ hmem)
      rw [hbody, List.concat_eq_append, List.append_assoc, List.append_assoc,
        List.singleton_append, List.singleton_append] at hrest
      have hsplit := congrArg (splitAt? '\x7d') hrest
      rw [splitAt?_append_cons hopen, splitAt?_append_cons hgap] at hsplit
      obtain ⟨rfl, -⟩ := Prod.mk.inj (Option.some.inj hsplit)
      rw [List.append_assoc, ← hbody] at hfront
      rw [hrule.eq_nil_of_append h hfront, List.nil_append] at hfront
      exact (String.toList_inj.1 hfront).symm
  · exact .inr ⟨back, after, by rw [hrest, List.append_assoc]⟩

theorem IsRule.infix_join_iff {rule : String} (hrule : IsRule rule)
    (h : ∀ text ∈ texts, IsRule text) :
    rule.toList <:+: (String.join texts).toList ↔ rule ∈ texts := by
  refine ⟨fun hin => ?_, fun hmem => ?_⟩
  · induction texts with
    | nil =>
      have hempty := List.infix_nil.1 hin
      cases hrule
      simp [ruleText] at hempty
    | cons text texts ih =>
      rw [List.forall_mem_cons] at h
      rw [String.join_cons, String.toList_append] at hin
      rcases hrule.infix_append h.1 hin with rfl | hrest
      · exact List.mem_cons_self
      · exact List.mem_cons_of_mem _ (ih h.2 hrest)
  · exact infix_join hmem

end Style

end Folio
