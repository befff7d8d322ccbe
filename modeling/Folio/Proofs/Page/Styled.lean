import Folio.Proofs.Page.Rendered
import Folio.Proofs.Site.Made
import Folio.Proofs.Style.Rules

/-! The rules that a rendering collects. Every element has its style as rules for classes, however it
was come by, and the collected list holds the rules of all elements that are rendered, each where it
occurs first. -/
namespace Folio

open Style (IsRule)

/-! Collecting rules -/

namespace RuleList

/-- The set in which rules are looked up has the rules of the list. -/
def InStep (l : RuleList) : Prop := ∀ rule, rule ∈ l.seen ↔ rule ∈ l.styles

/-- Holds of a list that has been given these rules: each stands where it came first. -/
structure Lists (l : RuleList) (texts : List String) : Prop where
  styles : l.styles = texts.eraseDups
  seen : l.InStep

variable {l : RuleList} {texts rules : List String} {rule : String}

theorem inStep_nil : InStep {} := fun _ => Iff.rfl

theorem InStep.add (h : l.InStep) (rule : List Char) : (l.add rule).InStep := by
  rw [RuleList.add]
  split
  · exact h
  · intro r
    rw [List.mem_cons, List.mem_append, List.mem_singleton, h r, or_comm]

theorem InStep.addFragment (h : l.InStep) (fragment : String) :
    (l.addFragment fragment).InStep := by
  unfold RuleList.addFragment
  induction Text.splitAfter '\x7d' fragment.toList generalizing l with
  | nil => exact h
  | cons rule rules ih => exact ih (h.add rule)

theorem lists_nil : Lists {} [] := ⟨rfl, inStep_nil⟩

/-- A rule goes to the end of the list, unless it is there already. -/
theorem Lists.add (hl : l.Lists texts) (h : IsRule rule) :
    (l.add rule.toList).Lists (texts ++ [rule]) := by
  have hseen : rule ∈ l.seen ↔ rule ∈ texts := by
    rw [hl.seen, hl.styles, List.mem_eraseDups]
  refine ⟨?_, hl.seen.add rule.toList⟩
  rw [RuleList.add, h.trim_eq]
  by_cases hmem : rule ∈ texts
  · have hknown : (rule.isEmpty || l.seen.contains rule) = true := by simp [hseen.2 hmem]
    rw [if_pos hknown]
    simp [hl.styles, List.eraseDups_append, hmem, List.removeAll]
  · have hnew : ¬ (rule.isEmpty || l.seen.contains rule) = true := by
      simp [h.ne_empty, hseen, hmem]
    rw [if_neg hnew]
    simp [hl.styles, List.eraseDups_append, hmem, List.removeAll, List.eraseDups_cons]

theorem Lists.addFragment (hl : l.Lists texts) (h : ∀ rule ∈ rules, IsRule rule) :
    (l.addFragment (String.join rules)).Lists (texts ++ rules) := by
  rw [RuleList.addFragment, Style.splitAfter_join fun rule hrule => (h rule hrule).exists_front]
  induction rules generalizing l texts with
  | nil => simpa using hl
  | cons rule rules ih =>
    rw [List.forall_mem_cons] at h
    have hrest := ih (hl.add h.1) h.2
    rwa [List.append_assoc, List.singleton_append] at hrest

end RuleList

/-! The rules of an element -/

namespace Element

/-- The rules of an element, in the order in which they were declared. -/
def rules (e : Element) : List String := Style.ruleTexts e.style

/-- Holds of elements whose style is rules for classes one after another. -/
structure Ruled (e : Element) : Prop where
  rules : ∀ rule ∈ e.rules, IsRule rule
  style : String.join e.rules = e.style

variable {e : Element} {texts : List String}

theorem rules_of_style (h : ∀ text ∈ texts, IsRule text) (hstyle : e.style = String.join texts) :
    e.rules = texts := by
  rw [Element.rules, hstyle, Style.ruleTexts_join h]

theorem ruled_of_style (h : ∀ text ∈ texts, IsRule text) (hstyle : e.style = String.join texts) :
    e.Ruled := by
  have hrules := rules_of_style h hstyle
  refine ⟨?_, ?_⟩
  · rwa [hrules]
  · rw [hrules, hstyle]

theorem ruled_of_bare (h : e.style = "") : e.Ruled :=
  ruled_of_style (List.forall_mem_nil IsRule) h

end Element

theorem ElementRecord.Restores.ruled {limit scope : Nat} {e : ElementRecord} {f : Element}
    (h : e.Restores limit scope f) : f.Ruled := by
  cases hstyle : e.style with
  | none =>
    refine Element.ruled_of_bare ?_
    rw [h.style, hstyle]
    rfl
  | some fragment =>
    have hclean : f.style = String.join ((Style.rebuilt limit fragment).map Style.Rule.text) := by
      rw [h.style, hstyle]
      exact Style.cleanFragment_eq_sheetText limit fragment
    exact Element.ruled_of_style Style.isRule_of_mem_rebuilt hclean

/-- A call that declares a style adds one rule at the end. -/
theorem Node.Move.ruled {limit : Nat} {c : Call} {n m : Node} (h : Node.Move limit c n m)
    (hn : n.toElement.Ruled) : m.toElement.Ruled := by
  cases h with
  | @style ds style hc hscope =>
    have hrule := Style.isRule_of_scope hscope
    have hall : ∀ rule ∈ n.rules ++ [style.fragment], IsRule rule :=
      List.forall_mem_append.2 ⟨hn.rules, List.forall_mem_singleton.2 hrule⟩
    refine Element.ruled_of_style hall ?_
    simp [hn.style]
  | set | append | state | computed | bind | listen =>
    exact Element.ruled_of_style hn.rules hn.style.symm

theorem Element.kept_ruled : Element.Kept Element.Ruled where
  fresh := Element.ruled_of_bare rfl
  create _ _ := Element.ruled_of_bare rfl
  restore h := h.ruled
  move h := h.ruled

/-- Adds a member at the end of a list unless it is there. -/
def adjoin {α : Type} [BEq α] [LawfulBEq α] (known : List α) (x : α) : List α :=
  if x ∈ known then known else known ++ [x]

/-- A style is declared on a node once: its rule is there already, or it comes after those that
are. -/
theorem Node.rules_css {n : Node} (hn : n.toElement.Ruled) {sc : Scope}
    {ds : List (String × String)} {style : Style.Scoped}
    (h : Style.scope sc.settings.styleValueLength ds = some style) :
    (n.css sc ds).rules = adjoin n.rules style.fragment := by
  have hrule := Style.isRule_of_scope h
  have hclass : (n.addClass style.className).style = n.style := by rw [eq_of_addClass]
  have hfound : Text.occurs style.fragment.toList n.style.toList = true ↔
      style.fragment ∈ n.rules := by
    rw [Text.occurs_iff_infix, ← hrule.infix_join_iff hn.rules, hn.style]
  simp only [css, h, applyStyle, hclass, hfound, adjoin]
  split
  · rw [Element.rules, hclass, Element.rules]
  · refine Element.rules_of_style ?_ ?_
    · exact List.forall_mem_append.2 ⟨hn.rules, List.forall_mem_singleton.2 hrule⟩
    · simp [hn.style]

/-! What a rendering collects -/

theorem RuleList.Lists.addElements {l : RuleList} {texts : List String} {es : List Element}
    (hl : l.Lists texts) (hes : ∀ e ∈ es, e.Ruled) :
    (es.foldl (fun l e => l.addFragment e.style) l).Lists (texts ++ es.flatMap Element.rules) := by
  induction es generalizing l texts with
  | nil => simpa using hl
  | cons e es ih =>
    rw [List.forall_mem_cons] at hes
    have hadded := hl.addFragment hes.1.rules
    rw [hes.1.style] at hadded
    rw [List.foldl_cons, List.flatMap_cons, ← List.append_assoc]
    exact ih hadded hes.2

/-! Contexts stay in step whatever they are given -/

namespace Context

variable {c : Context}

theorem inStep_addStyle (h : c.toRuleList.InStep) (fragment : String) :
    (c.addStyle fragment).toRuleList.InStep := h.addFragment fragment

theorem inStep_collect (h : c.toRuleList.InStep) (settings : Settings) (nodes : List Node) :
    (collect settings nodes c).1.toRuleList.InStep := by
  rw [collect_fst]
  change RuleList.InStep (List.foldl _ c.toRuleList _)
  induction Child.enteredAll (nodes.map Node.toChild) generalizing c with
  | nil => exact h
  | cons e es ih => exact ih (inStep_addStyle h e.style)

theorem inStep_reset (c : Context) : (Reusable.reset c).toRuleList.InStep := RuleList.inStep_nil

end Context

/-- The rules of all elements that are rendered come after those that the context was given before.
-/
theorem Context.lists_collect {settings : Settings} {nodes : List Node} {c : Context}
    {texts : List String} (hnodes : ∀ n ∈ nodes, n.toChild.Each Element.Ruled)
    (hc : c.toRuleList.Lists texts) :
    (collect settings nodes c).1.toRuleList.Lists
      (texts ++ (Child.enteredAll (nodes.map Node.toChild)).flatMap Element.rules) := by
  rw [collect_fst]
  exact hc.addElements (Child.forall_mem_enteredAll (Child.eachOf_map_toChild hnodes))

end Folio
