import Folio.Proofs.Markup.Unbroken
import Folio.Proofs.Page.Styled
import Folio.Proofs.Site.Sealed

/-! Scoped rules in pages. The rules of all elements that are rendered stand in the page in one style
element, each where it occurs first, however the nodes were made and whatever the head says. -/
namespace Folio

open Markup (Lined)

/-! Lines that end with tags -/

/-- Holds of lines the last of which ends with a tag. -/
def Text.EndsTag (s : String) : Prop := s = "" ∨ ['>', '\n'] <:+ s.toList

namespace Text.EndsTag

variable {s t : String}

theorem lined (h : EndsTag s) : Lined s.toList := by
  rcases h with rfl | ⟨front, h⟩
  · exact .nil
  · exact h ▸ .tag front

theorem concat (s : String) (ht : ['>', '\n'] <:+ t.toList) : EndsTag (s ++ t) := by
  refine .inr ?_
  rw [String.toList_append]
  exact List.suffix_append_of_suffix ht

theorem append (hs : EndsTag s) (ht : EndsTag t) : EndsTag (s ++ t) := by
  rcases ht with rfl | ht
  · rwa [String.append_empty]
  · exact concat s ht

theorem join {parts : List String} (h : ∀ part ∈ parts, EndsTag part) :
    EndsTag (String.join parts) := by
  induction parts with
  | nil => exact .inl rfl
  | cons part parts ih =>
    rw [List.forall_mem_cons] at h
    rw [String.join_cons]
    exact h.1.append (ih h.2)

end Text.EndsTag

theorem HeadTag.endsTag_html (t : HeadTag) : Text.EndsTag t.html := by
  cases t <;> exact .concat _ (by decide)

theorem Head.endsTag_html (h : Head) : Text.EndsTag h.html := by
  have htags : Text.EndsTag (String.join (h.tags.map HeadTag.html)) := by
    refine .join fun line hline => ?_
    obtain ⟨t, -, rfl⟩ := List.mem_map.1 hline
    exact t.endsTag_html
  refine .append ?_ htags
  split
  · exact .concat _ (by decide)
  · exact .inl rfl

/-! The frame of a page above and below its scoped rules -/

namespace PageParts

/-- What stands above the scoped rules of a page. -/
def upper (head : Head) (lang : String) : String :=
  let css := head.css
  String.join ["<!DOCTYPE html>\n", "<html lang=\"", Text.escape lang, "\">\n", "<head>\n",
    "<meta charset=\"UTF-8\">\n",
    "<meta name=\"viewport\" content=\"width=device-width, initial-scale=1.0\">\n", head.html,
    if css.isEmpty then "" else "<style>" ++ Text.embed css ++ "</style>\n"]

/-- The element of the scoped rules on a line of its own, or nothing. -/
def scopedElement (rules : List String) : String :=
  if rules.isEmpty then "" else "<style>" ++ String.join rules ++ "</style>\n"

/-- What stands below the scoped rules of a page. -/
def lower (body script : String) : String :=
  String.join ["</head>\n", "<body>\n", body, "\n",
    if script.isEmpty then "" else "<script>" ++ script ++ "</script>\n", "</body>\n", "</html>"]

theorem wrap_eq (p : PageParts) (lang : String) :
    p.wrap lang = upper p.head lang ++ (scopedElement p.styles ++ lower p.body p.script) := by
  simp [wrap, upper, scopedElement, lower, styleElements, scriptElement, String.append_assoc]

/-- The scoped rules start on a line of their own. -/
theorem endsTag_upper (head : Head) (lang : String) : Text.EndsTag (upper head lang) := by
  have hfront : Text.EndsTag (String.join ["<!DOCTYPE html>\n", "<html lang=\"", Text.escape lang,
      "\">\n", "<head>\n", "<meta charset=\"UTF-8\">\n"] ++
      "<meta name=\"viewport\" content=\"width=device-width, initial-scale=1.0\">\n") :=
    .concat _ (by decide)
  have hcss : Text.EndsTag (if head.css.isEmpty then ""
      else "<style>" ++ Text.embed head.css ++ "</style>\n") := by
    split
    · exact .inl rfl
    · exact .concat _ (by decide)
  have hwhole := hfront.append (head.endsTag_html.append hcss)
  simpa only [upper, String.join_cons, String.join_nil, String.append_empty, String.append_assoc]
    using hwhole

end PageParts

namespace Site

/-- Every scoped rule appears once. The style of each element is its rules, the collected list holds
the rules of the elements that are rendered, each where it occurs first, in step with the set of the
rules that were seen, and the page holds them in one style element, which minification leaves as it
is, or no such element if there are none. -/
theorem scoped_rules_once {s : Site} (hcontexts : s.contexts.Reached) {d : Document}
    (hd : ∀ n ∈ d.body, n.toChild.Made) :
    let elements := Child.enteredAll (d.body.map Node.toChild)
    let rules := (elements.flatMap Element.rules).eraseDups
    let html := PageParts.upper d.head s.settings.lang ++ (PageParts.scopedElement rules ++
      PageParts.lower (s.parts d).body (s.parts d).script)
    let page := (s.renderPage d.head d.body).1
    (∀ e ∈ elements, (∀ rule ∈ e.rules, Style.IsRule rule) ∧ String.join e.rules = e.style) ∧
      (∀ c ∈ [{}, s.contexts.acquire.1], (Context.collect s.settings d.body c).1.styles = rules ∧
        ∀ rule, rule ∈ (Context.collect s.settings d.body c).1.seen ↔ rule ∈ rules) ∧
      page = (if s.settings.shouldMinify then Markup.minify html else html) ∧
      (rules ≠ [] → ("<style>" ++ String.join rules ++ "</style>").toList <:+: page.toList) := by
  intro elements rules html page
  have heach : ∀ n ∈ d.body, n.toChild.Each Element.Ruled :=
    fun n hn => (hd n hn).each Element.kept_ruled
  have hruled := Child.forall_mem_enteredAll (Child.eachOf_map_toChild heach)
  have hlists : (Context.collect s.settings d.body {}).1.toRuleList.Lists
      ([] ++ elements.flatMap Element.rules) := Context.lists_collect heach RuleList.lists_nil
  rw [List.nil_append] at hlists
  have hseen : ∀ rule, rule ∈ (Context.collect s.settings d.body {}).1.seen ↔ rule ∈ rules := by
    intro rule
    rw [hlists.seen, hlists.styles]
  have hcollected : ∀ c ∈ [{}, s.contexts.acquire.1],
      (Context.collect s.settings d.body c).1.styles = rules ∧
        ∀ rule, rule ∈ (Context.collect s.settings d.body c).1.seen ↔ rule ∈ rules := by
    have hfresh : s.contexts.acquire.1 = {} := hcontexts.acquire_eq_fresh
    rw [hfresh]
    simpa using ⟨hlists.styles, hseen⟩
  have hpage : page = if s.settings.shouldMinify then Markup.minify html else html := by
    have hhead : (s.parts d).head = d.head := rfl
    have hstyles : (s.parts d).styles = rules := hlists.styles
    have hwrap : (s.parts d).wrap s.settings.lang = html := by
      rw [PageParts.wrap_eq, hhead, hstyles]
    rw [← hwrap]
    exact renderPage_eq_wrap hcontexts d
  refine ⟨fun e he => ⟨(hruled e he).rules, (hruled e he).style⟩, hcollected, hpage, fun hne => ?_⟩
  have hbare : Style.IsBare (String.join rules).toList := by
    have hguarded := Context.guarded_collect s.settings
      fun n hn => (hd n hn).each Element.kept_guarded
    refine Style.isBare_join fun rule hrule => hguarded.styles rule ?_
    rwa [hlists.styles]
  have hline := (PageParts.endsTag_upper d.head s.settings.lang).lined
  have helement : ("<style>" ++ String.join rules ++ "</style>").toList =
      Markup.styleChars (String.join rules) := by
    simp [Markup.styleChars_eq]
  have hhtml : html.toList = (PageParts.upper d.head s.settings.lang).toList ++
      (Markup.styleChars (String.join rules) ++
        ("\n" ++ PageParts.lower (s.parts d).body (s.parts d).script).toList) := by
    have hsome : rules.isEmpty = false := by simpa using hne
    rw [← helement]
    simp [html, PageParts.scopedElement, hsome]
  rw [helement, hpage]
  split
  · exact Markup.style_infix_minify hbare hline hhtml
  · rw [hhtml]
    exact ⟨_, _, List.append_assoc ..⟩

/-- A minified page in which two elements share a rule, trusted markup below one of them holds the
same rule, the rule of one below a void element is not rendered, and the head opens a comment that
nothing closes. -/
theorem scoped_rules_once_shared :
    ∃ (s : Site) (d : Document), s.contexts.Reached ∧ (∀ n ∈ d.body, n.toChild.Made) ∧
      s.settings.shouldMinify = true ∧ d.head.html = "<meta ><!--=\"\">\n" ∧
      Child.markup "<style>.w-9rfate\x7bcolor:red;\x7d</style>" ∈ d.body.flatMap (·.children) ∧
      let elements := Child.enteredAll (d.body.map Node.toChild)
      let rules := (elements.flatMap Element.rules).eraseDups
      let html := PageParts.upper d.head s.settings.lang ++ (PageParts.scopedElement rules ++
        PageParts.lower (s.parts d).body (s.parts d).script)
      let page := (s.renderPage d.head d.body).1
      elements.map Element.rules =
          [[".w-9rfate\x7bcolor:red;\x7d"], [], [".w-9rfate\x7bcolor:red;\x7d"]] ∧
        (∀ e ∈ elements, (∀ rule ∈ e.rules, Style.IsRule rule) ∧ String.join e.rules = e.style) ∧
        (∀ c ∈ [{}, s.contexts.acquire.1],
          (Context.collect s.settings d.body c).1.styles = rules ∧
          ∀ rule, rule ∈ (Context.collect s.settings d.body c).1.seen ↔ rule ∈ rules) ∧
        page = (if s.settings.shouldMinify then Markup.minify html else html) ∧
        (rules ≠ [] → ("<style>" ++ String.join rules ++ "</style>").toList <:+: page.toList) := by
  let s : Site := .ofSettings { mode := .production } .silent 0
  let new : Document := { scope := 0 }
  let comment : HeadTag := .metaTag (.ofList [("><!--", "")])
  have hpool : s.nodes.Reached := .empty 1024 Pool.nodeNames
  have hcontexts : s.contexts.Reached := .empty 64 Pool.contextNames
  let plain : Node := { tag := "p", scope := some 0 }
  let red : Node :=
    { plain with
      attributes := ⟨[("class", "w-9rfate")], by decide⟩
      style := ".w-9rfate\x7bcolor:red;\x7d" }
  let top : Node :=
    { plain with
      attributes := ⟨[("class", "w-1dv2h2f")], by decide⟩
      style := ".w-1dv2h2f\x7btop:0;\x7d" }
  have hplain : plain.toChild.Made := .create hpool (rfl : s.create new "p" = (.ok _, _))
  have hcolor : (plain.css (s.shared 0) [("color", "red")]) = red := by
    have hscope : Style.scope (s.shared 0).settings.styleValueLength [("color", "red")] =
        some ⟨"w-9rfate", "color:red;"⟩ := by decide +kernel
    rw [Node.css, hscope]
    rfl
  have hoffset : (plain.css (s.shared 0) [("top", "0")]) = top := by
    have hscope : Style.scope (s.shared 0).settings.styleValueLength [("top", "0")] =
        some ⟨"w-1dv2h2f", "top:0;"⟩ := by decide +kernel
    rw [Node.css, hscope]
    rfl
  have hred : red.toChild.Made :=
    hplain.call (s := s) (c := .css _) nofun (Prod.ext (congrArg Except.ok hcolor) rfl)
  have htop : top.toChild.Made :=
    hplain.call (s := s) (c := .css _) nofun (Prod.ext (congrArg Except.ok hoffset) rfl)
  let empty : Node := { tag := "br", scope := some 0 }
  let br : Node := { empty with children := [top.toChild] }
  have hempty : empty.toChild.Made := .create hpool (rfl : s.create new "br" = (.ok _, _))
  have hbr : br.toChild.Made :=
    hempty.call (s := s) (c := .append [top.toChild]) (List.forall_mem_singleton.2 htop) rfl
  let copy : Child := .markup "<style>.w-9rfate\x7bcolor:red;\x7d</style>"
  let marked : Node := { red with children := [copy] }
  have hmarked : marked.toChild.Made :=
    hred.call (s := s) (c := .append [copy]) (List.forall_mem_singleton.2 (.markup _)) rfl
  let d : Document := { scope := 0, head := { tags := [comment] }, body := [red, br, marked] }
  have hbody : ∀ n ∈ d.body, n.toChild.Made := by
    rw [List.forall_mem_cons, List.forall_mem_cons, List.forall_mem_singleton]
    exact ⟨hred, hbr, hmarked⟩
  have hcopy : copy ∈ d.body.flatMap (·.children) := by
    simp [d, marked]
  exact ⟨s, d, hcontexts, hbody, rfl, rfl, hcopy, by decide +kernel,
    scoped_rules_once hcontexts hbody⟩

end Site

end Folio
