import Folio.Proofs.Page.Issued
import Folio.Proofs.Page.Styled
import Folio.Proofs.Text.Words

/-! What a node wears after styles were declared on it one after another. A style adds its rule
unless the node has that rule, and its class unless the node has that class, whoever wrote it there;
other calls leave both alone. So a node that starts without a style ends up with every rule once and
every new class once, in the order in which they were first declared. -/
namespace Folio

/-! Lists that take each member once -/

section unknown

variable {α : Type} [BEq α] [LawfulBEq α]

/-- The members of a list that are not known yet, each where it comes first. -/
def unknown (known xs : List α) : List α := (xs.filter (· ∉ known)).eraseDups

theorem adjoin_append_unknown (known : List α) (x : α) (xs : List α) :
    adjoin known x ++ unknown (adjoin known x) xs = known ++ unknown known (x :: xs) := by
  unfold adjoin unknown
  by_cases hx : x ∈ known
  · rw [if_pos hx, List.filter_cons_of_neg (by simpa using hx)]
  · have hfilter : (xs.filter (· ∉ known)).filter (fun y => !y == x) =
        xs.filter (· ∉ known ++ [x]) := by
      rw [List.filter_filter]
      refine List.filter_congr fun y _ => ?_
      rw [Bool.eq_iff_iff]
      simp [and_comm]
    rw [if_neg hx, List.filter_cons_of_pos (by simpa using hx), List.eraseDups_cons, hfilter,
      List.append_assoc, List.singleton_append]

end unknown

/-! The classes of an element -/

namespace Element

variable {e f : Element}

/-- The classes of an element, in the order in which its attribute names them. -/
def classes (e : Element) : List (List Char) :=
  match e.attributes.get? "class" with
  | some value => Text.words value.toList
  | none => []

theorem classes_of_get? {value : String} (h : e.attributes.get? "class" = some value) :
    e.classes = Text.words value.toList := by rw [classes, h]

theorem classes_of_get?_none (h : e.attributes.get? "class" = none) : e.classes = [] := by
  rw [classes, h]

theorem classes_congr (h : e.attributes.get? "class" = f.attributes.get? "class") :
    e.classes = f.classes := by rw [classes, h, classes]

end Element

/-- The style that a call declares, if any. -/
def Call.style? (settings : Settings) : Call → Option Style.Scoped
  | .css ds => Style.scope settings.styleValueLength ds
  | _ => none

/-- Calls that leave the class of their node to the styles it declares. -/
def Call.SparesClass : Call → Prop
  | .attr name _ => Text.kebab name ≠ "class"
  | .reset => False
  | _ => True

namespace Node

variable {n m : Node} {sc : Scope} {c : Call}

theorem classes_setAttribute (n : Node) (value : String) :
    (n.setAttribute "class" value).classes = Text.words value.toList :=
  Element.classes_of_get? (Ordered.get?_insert_self ..)

/-- A class comes after those that are there, whatever white space parts them. -/
theorem classes_addClass (n : Node) {name : String} (hsome : name ≠ "")
    (hname : ∀ c ∈ name.toList, Text.isBlank c = false) :
    (n.addClass name).classes = adjoin n.classes name.toList := by
  have hword : Text.words name.toList = [name.toList] :=
    Text.words_of_visible (by simpa using hsome) hname
  unfold addClass
  split
  · next hnone =>
    rw [classes_setAttribute, Element.classes_of_get?_none hnone, hword]
    rfl
  · next existing hexisting =>
    rw [Element.classes_of_get? hexisting, adjoin]
    split
    · exact Element.classes_of_get? hexisting
    · split
      · next hblank =>
        have hall : ∀ c ∈ existing.toList, Text.isBlank c = true := List.all_eq_true.1 hblank
        have hnone := Text.words_append_of_blank hall []
        rw [List.append_nil] at hnone
        rw [classes_setAttribute, String.toList_append, Text.words_append_of_blank hall, hword,
          hnone]
        rfl
      · rw [classes_setAttribute, String.toList_append, String.toList_append, List.append_assoc]
        exact (Text.words_append_cons rfl existing.toList name.toList).trans (by rw [hword])

theorem classes_css {ds : List (String × String)} {style : Style.Scoped}
    (h : Style.scope sc.settings.styleValueLength ds = some style) :
    (n.css sc ds).classes = adjoin n.classes style.className.toList := by
  have hclasses : (n.addClass style.className).classes =
      adjoin n.classes style.className.toList := by
    obtain ⟨-, rfl⟩ := Style.eq_of_scope h
    exact classes_addClass n (by simp [Style.scopedClass]) fun c hc =>
      Style.isBlank_of_isClassChar (Style.isClassChar_of_mem_scopedClass _ c hc)
  simp only [css, h, applyStyle]
  split <;> exact hclasses

/-! Calls that declare nothing -/

/-- Holds of a node that has the style and the class of another one. -/
structure SameStyle (n m : Node) : Prop where
  style_eq : m.style = n.style
  class_eq : m.attributes.get? "class" = n.attributes.get? "class"

theorem SameStyle.refl (n : Node) : n.SameStyle n := ⟨rfl, rfl⟩

theorem sameStyle_setAttribute (n : Node) {name : String} (h : name ≠ "class") (value : String) :
    n.SameStyle (n.setAttribute name value) :=
  ⟨rfl, Ordered.get?_insert_of_ne h.symm value⟩

theorem sameStyle_ensureId (n : Node) (sc : Scope) : n.SameStyle (n.ensureId sc).1 := by
  unfold ensureId
  split
  · exact .refl n
  · exact sameStyle_setAttribute n (by decide) _

theorem sameStyle_captureResult (n : Node) (sc : Scope) (value : Except String Json) :
    n.SameStyle (n.captureResult sc value).1 := by
  cases value with
  | error e => exact .refl n
  | ok v =>
    have hid := sameStyle_ensureId n sc
    exact ⟨hid.style_eq, hid.class_eq⟩

theorem sameStyle_setComputed (n : Node) (sc : Scope) (source : String) :
    n.SameStyle (n.setComputed sc source).1 := by
  unfold setComputed
  split
  · exact .refl n
  · next sc' _ =>
    have hid := sameStyle_ensureId n sc'
    exact ⟨hid.style_eq, hid.class_eq⟩

theorem sameStyle_bindText (n : Node) (sc : Scope) (key source : String) :
    n.SameStyle (n.bindText sc key source).1 := by
  unfold bindText
  split
  · exact .refl n
  · split
    · exact .refl n
    · next sc' _ =>
      have hid := sameStyle_ensureId n sc'
      exact ⟨hid.style_eq, hid.class_eq⟩

theorem sameStyle_listen (n : Node) (sc : Scope) (event : String) (targetId : Option String)
    (source : String) : n.SameStyle (n.listen sc event targetId source).1 := by
  simp only [listen]
  split
  · exact .refl n
  · split
    · exact .refl n
    · next sc' _ =>
      have hid := sameStyle_ensureId n sc'
      exact ⟨hid.style_eq, hid.class_eq⟩

theorem sameStyle_apply (hc : c.SparesClass) (hnone : c.style? sc.settings = none)
    (h : (n.apply sc c).1 = .ok m) : n.SameStyle m := by
  cases c <;> simp only [apply, Except.ok.injEq] at h
  case attr name value =>
    subst h
    rw [attr_fst]
    split
    · exact .refl n
    · exact sameStyle_setAttribute n hc value
  case id value =>
    obtain rfl := eq_setAttribute_of_rename h
    exact sameStyle_setAttribute n (by decide) value
  case autoId => exact h ▸ sameStyle_ensureId n sc
  case append children => exact h ▸ ⟨rfl, rfl⟩
  case css ds =>
    have hscope : Style.scope sc.settings.styleValueLength ds = none := hnone
    have hcss : n.css sc ds = n := by rw [css, hscope]
    rw [hcss] at h
    exact h ▸ .refl n
  case state value => exact h ▸ sameStyle_captureResult n sc value
  case computed source => exact h ▸ sameStyle_setComputed n sc source
  case bindText key source => exact h ▸ sameStyle_bindText n sc key source
  case listen event targetId source => exact h ▸ sameStyle_listen n sc event targetId source
  case reset => exact hc.elim

/-! Calls one after another -/

/-- Performs builder calls one after another, each in its own scope. -/
def applyAll (n : Node) (steps : List (Scope × Call)) : Except Crash Node :=
  steps.foldlM (fun n step => (n.apply step.1 step.2).1) n

/-- The styles that calls declare, in order. -/
def stylesOf (steps : List (Scope × Call)) : List Style.Scoped :=
  steps.filterMap fun step => step.2.style? step.1.settings

variable {steps : List (Scope × Call)}

theorem stylesOf_cons_none (h : c.style? sc.settings = none) :
    stylesOf ((sc, c) :: steps) = stylesOf steps := List.filterMap_cons_none h

theorem stylesOf_cons_some {style : Style.Scoped} (h : c.style? sc.settings = some style) :
    stylesOf ((sc, c) :: steps) = style :: stylesOf steps := List.filterMap_cons_some h

theorem exists_applyAll (h : ∀ step ∈ steps, ∀ value, step.2 ≠ .id value) (n : Node) :
    ∃ m, n.applyAll steps = .ok m := by
  induction steps generalizing n with
  | nil => exact ⟨n, rfl⟩
  | cons step steps ih =>
    rw [List.forall_mem_cons] at h
    rw [applyAll, List.foldlM_cons]
    cases hstep : (n.apply step.1 step.2).1 with
    | error e =>
      obtain ⟨value, hid⟩ := eq_id_of_crash hstep
      exact (h.1 value hid).elim
    | ok k => exact ih h.2 k

/-- What calls leave on a node whose style is made of rules: its own rules and classes, then those
of the styles that it did not have. -/
theorem declared_of_applyAll (hn : n.toElement.Ruled)
    (hsteps : ∀ step ∈ steps, step.2.SparesClass) (h : n.applyAll steps = .ok m) :
    m.toElement.Ruled ∧
      m.rules = n.rules ++ unknown n.rules ((stylesOf steps).map Style.Scoped.fragment) ∧
      m.classes = n.classes ++
        unknown n.classes ((stylesOf steps).map fun style => style.className.toList) := by
  induction steps generalizing n with
  | nil =>
    obtain rfl := Except.ok.inj h
    simp [hn, stylesOf, unknown]
  | cons step steps ih =>
    obtain ⟨sc, c⟩ := step
    rw [List.forall_mem_cons] at hsteps
    rw [applyAll, List.foldlM_cons] at h
    cases hstep : (n.apply sc c).1 with
    | error e =>
      rw [hstep] at h
      cases h
    | ok k =>
      rw [hstep] at h
      have hreset : c ≠ .reset := by
        rintro rfl
        exact hsteps.1
      have hk : k.toElement.Ruled :=
        (moves_apply hreset hstep).keeps (fun _ _ hmove => hmove.ruled) hn
      obtain ⟨hm, hrules, hclasses⟩ := ih hk hsteps.2 h
      cases hstyle : c.style? sc.settings with
      | none =>
        have hsame := sameStyle_apply hsteps.1 hstyle hstep
        have hkrules : k.rules = n.rules := congrArg Style.ruleTexts hsame.style_eq
        rw [hkrules] at hrules
        rw [Element.classes_congr hsame.class_eq] at hclasses
        rw [stylesOf_cons_none hstyle]
        exact ⟨hm, hrules, hclasses⟩
      | some style =>
        rw [stylesOf_cons_some hstyle, List.map_cons, List.map_cons, ← adjoin_append_unknown,
          ← adjoin_append_unknown]
        cases c with
        | css ds =>
          obtain rfl := Except.ok.inj hstep
          rw [rules_css hn hstyle] at hrules
          rw [classes_css hstyle] at hclasses
          exact ⟨hm, hrules, hclasses⟩
        | attr | id | autoId | append | state | computed | bindText | listen | reset =>
          cases hstyle

/-- A node without a style, on which styles are declared one after another while nothing else
changes its class, ends up with every rule once and with the classes that it did not have, in the
order of first use. Such calls never break off, unless one of them renames the node. -/
theorem styles_accumulate (hbare : n.style = "") (hsteps : ∀ step ∈ steps, step.2.SparesClass) :
    ((∀ step ∈ steps, ∀ value, step.2 ≠ .id value) → ∃ m, n.applyAll steps = .ok m) ∧
      ∀ m, n.applyAll steps = .ok m →
        m.style = String.join ((stylesOf steps).map Style.Scoped.fragment).eraseDups ∧
        m.classes = n.classes ++
          (((stylesOf steps).map fun style => style.className.toList).filter
            (· ∉ n.classes)).eraseDups := by
  refine ⟨fun h => exists_applyAll h n, fun m h => ?_⟩
  obtain ⟨hm, hrules, hclasses⟩ := declared_of_applyAll (Element.ruled_of_bare hbare) hsteps h
  have hnone : n.rules = [] := Element.rules_of_style (List.forall_mem_nil _) hbare
  refine ⟨?_, hclasses⟩
  rw [← hm.style, hrules, hnone]
  simp [unknown]

/-- One class was written by hand and is that of a style, and one style is declared twice, in other
words the second time. -/
theorem styles_accumulate_by_hand :
    ∃ (n : Node) (steps : List (Scope × Call)), n.style = "" ∧
      (∀ step ∈ steps, step.2.SparesClass) ∧ n.classes.map String.ofList = ["card", "w-1dv2h2f"] ∧
      ∃ m, n.applyAll steps = .ok m ∧
        m.style = ".w-15awnuu\x7bmargin:0;\x7d.w-1dv2h2f\x7btop:0;\x7d" ∧
        m.classes.map String.ofList = ["card", "w-1dv2h2f", "w-15awnuu"] := by
  let n : Node := { attributes := ⟨[("class", " card\tw-1dv2h2f ")], by decide⟩ }
  let steps : List (Scope × Call) :=
    [(.detached 0, .css [("margin", "0")]), (.detached 0, .autoId),
      (.detached 0, .css [("top", "0")]), (.detached 0, .css [("color", "\x7b;\x7d")]),
      (.detached 1, .css [("color", ""), ("Margin ", " 0;")])]
  have hstyles : stylesOf steps =
      [⟨"w-15awnuu", "margin:0;"⟩, ⟨"w-1dv2h2f", "top:0;"⟩, ⟨"w-15awnuu", "margin:0;"⟩] := by
    decide +kernel
  have hspares : ∀ step ∈ steps, step.2.SparesClass := by simp [steps, Call.SparesClass]
  have hclasses : n.classes.map String.ofList = ["card", "w-1dv2h2f"] := by decide +kernel
  obtain ⟨hdone, hworn⟩ := styles_accumulate (n := n) rfl hspares
  obtain ⟨m, hm⟩ := hdone (by simp [steps])
  obtain ⟨hstyle, hwords⟩ := hworn m hm
  refine ⟨n, steps, rfl, hspares, hclasses, m, hm, ?_, ?_⟩
  · rw [hstyle, hstyles]
    decide +kernel
  · rw [hwords, hstyles]
    decide +kernel

end Node

end Folio
