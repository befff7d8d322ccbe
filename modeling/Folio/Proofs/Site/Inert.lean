import Folio.Proofs.Page.Collected
import Folio.Proofs.Page.RoundTrip
import Folio.Proofs.Site.Sealed
import Folio.Proofs.Style.Sheet

/-! Imports are inert, whatever the snapshot: no element that comes back holds a script, and its
names and style cannot become markup. So a page of such elements shows exactly their tags, and the
only statements of its script set up states. -/
namespace Folio

/-- An element that no script is bound to and that has proper names and a proper style. -/
structure Element.Inert (limit : Nat) (e : Element) : Prop where
  computed : e.computed = none
  bindings : e.bindings = []
  listeners : e.listeners = []
  tag : Tag.isName e.tag.toList = true
  attributes : ∀ name ∈ e.attributes.keys, Text.IsKebab name.toList
  style : ∃ rs : List Style.Rule, e.style = Style.sheetText rs ∧ ∀ r ∈ rs, r.WellFormed limit
  bare : Style.IsBare e.style.toList
  uncommented : Style.hasCommentMark e.style.toList = false

variable {limit scope : Nat}

theorem Element.Inert.named {e : Element} (h : e.Inert limit) : e.Named :=
  ⟨.inr h.tag, h.attributes⟩

theorem ElementRecord.Restores.inert {e : ElementRecord} {f : Element}
    (h : e.Restores limit scope f) : f.Inert limit := by
  have hnames : ∀ name ∈ f.attributes.keys, Text.IsKebab name.toList :=
    fun name hname => (h.isAttributeName name hname).isKebab
  have htag := (Tag.normalize_eq_ok h.tag).2
  have hstyle : ∃ rs : List Style.Rule, f.style = Style.sheetText rs ∧
      ∀ r ∈ rs, r.WellFormed limit := by
    rw [h.style]
    cases e.style with
    | none => exact ⟨[], rfl, List.forall_mem_nil _⟩
    | some fragment =>
      exact ⟨_, Style.cleanFragment_eq_sheetText limit fragment,
        fun r hr => Style.wellFormed_of_mem_rebuilt hr⟩
  refine ⟨h.computed, h.bindings, h.listeners, htag, hnames, hstyle, h.guarded.style, ?_⟩
  obtain ⟨rs, hsheet, hformed⟩ := hstyle
  rw [hsheet]
  exact Style.hasCommentMark_sheetText hformed

/-- Among the children that come back there is no markup. -/
theorem Restored.proper {rs : List Record} {cs : List Child} (h : Restored limit scope rs cs) :
    Child.Proper cs := by
  induction h with
  | nil => exact .nil
  | text content _ ih => exact .text content ih
  | markup content _ ih => exact .text content ih
  | element he _ _ ihchildren ih => exact .element he.inert.named ihchildren ih

/-- The markup of proper nodes reads back as the nodes. -/
theorem Child.read_htmlOf_of_proper {nodes : List Node}
    (h : Child.Proper (nodes.map Node.toChild)) :
    Markup.read (Node.htmlOf nodes) = some (nodes.map Node.outline) := by
  have htokens := Child.tokenize_writeAll h Markup.tokenize_nil (by simp [Markup.StartsAnew])
  rw [List.append_nil, List.append_nil] at htokens
  rw [← Child.outline_map_toChild]
  exact Markup.read_eq_some (Child.tidy_outline h) htokens

/-! What a rendering collects -/

namespace Harvest

variable {h : Harvest} {settings : Settings}

/-- A harvest of states and styles only. -/
structure Quiet (h : Harvest) : Prop where
  computed : h.computed = []
  bindings : h.bindings = []
  listeners : h.listeners = []

theorem Quiet.enter {e : Element} (hh : h.Quiet) (he : e.Inert limit) :
    (h.enter settings e).Quiet := by
  simp only [Harvest.enter]
  split
  · next id _ =>
    refine ⟨?_, ?_, ?_⟩ <;> simp only [addBindings, addComputed, addState, he.computed, he.bindings]
    all_goals cases e.state
    all_goals simp [hh.computed, hh.bindings, hh.listeners]
  · exact ⟨hh.computed, hh.bindings, hh.listeners⟩

theorem Quiet.leave {e : Element} (hh : h.Quiet) (he : e.Inert limit) : (h.leave e).Quiet := by
  refine ⟨hh.computed, hh.bindings, ?_⟩
  simp [Harvest.leave, he.listeners, hh.listeners]

mutual

theorem Quiet.visit {h : Harvest} {c : Child} (hh : h.Quiet) (hc : c.Each (Element.Inert limit)) :
    (visit settings h c).Quiet := by
  match c with
  | .text _ => exact hh
  | .markup _ => exact hh
  | .element e children =>
    have hentered : (h.enter settings e).Quiet := hh.enter hc.1
    simp only [Harvest.visit]
    split
    · exact hentered.leave hc.1
    · exact (hentered.visitAll hc.2).leave hc.1

theorem Quiet.visitAll {h : Harvest} {cs : List Child} (hh : h.Quiet)
    (hcs : Child.EachOf (Element.Inert limit) cs) : (visitAll settings h cs).Quiet := by
  match cs with
  | [] => exact hh
  | c :: cs => exact (hh.visit hcs.1).visitAll hcs.2

end

end Harvest

/-- A script that does nothing but set up states; no script if there are none. -/
def Hydration.setup (entries : List StateEntry) : String :=
  if entries.isEmpty then "" else opening ++ String.join (entries.map stateStatement) ++ closing

theorem Hydration.compile_of_inert {nodes : List Node}
    (h : Child.EachOf (Element.Inert limit) (nodes.map Node.toChild)) (settings : Settings) :
    (compile (Context.collect settings nodes {}).1 settings).1 =
      setup (Child.stateEntriesAll (nodes.map Node.toChild)) := by
  have hempty : Harvest.Quiet { toRuleList := {} } := ⟨rfl, rfl, rfl⟩
  have hquiet : (Harvest.visitAll settings _ (nodes.map Node.toChild)).Quiet := hempty.visitAll h
  have hcomputed : (Context.collect settings nodes {}).1.computed = [] :=
    congrArg List.reverse hquiet.computed
  have hbindings : (Context.collect settings nodes {}).1.bindings = [] :=
    congrArg List.reverse hquiet.bindings
  have hlisteners : (Context.collect settings nodes {}).1.listeners = [] :=
    congrArg List.reverse hquiet.listeners
  have hstates : (Context.collect settings nodes {}).1.states =
      Child.stateEntriesAll (nodes.map Node.toChild) := Context.states_collect settings nodes {}
  simp only [compile, Context.isStatic, statements, listenerStatements, hcomputed, hbindings,
    hlisteners, hstates, setup]
  cases Child.stateEntriesAll (nodes.map Node.toChild) <;> simp

namespace Site

variable {s t : Site}

/-- Whatever snapshot a document is imported from: it holds no markup; no element of it, at any
depth, has a script bound to it; tags and attribute names are proper names; styles are rules for
classes, without angle brackets, backslashes and comment marks. So its body is rendered as the
tags of its elements and nothing else, and the script of its page only sets up states. -/
theorem restore_inert {snapshot : Snapshot} {d : Document} (hpool : s.nodes.Reached)
    (h : s.restore snapshot = (.ok d, t)) :
    Child.Proper (d.body.map Node.toChild) ∧
      (∀ n ∈ d.body, n.toChild.Each (Element.Inert s.settings.styleValueLength)) ∧
      Markup.read (Node.htmlOf d.body) = some (d.body.map Node.outline) ∧
      ∀ u : Site, (u.parts d).script =
        Hydration.setup (Child.stateEntriesAll (d.body.map Node.toChild)) := by
  have hbody := (imported_restore hpool h).body
  have hproper := hbody.proper
  have hinert := hbody.each fun he => he.inert
  refine ⟨hproper, fun n hn => ?_, Child.read_htmlOf_of_proper hproper, fun u => ?_⟩
  · exact Child.eachOf_iff.1 hinert _ (List.mem_map_of_mem hn)
  · exact Hydration.compile_of_inert hinert u.settings

/-- A snapshot that carries a script wherever it can. -/
def hostile : Snapshot where
  body := [.element ⟨"P", ⟨[("On\"Click><script>", "alert(1)")], by decide⟩,
    some ".x\x7bcolor:red;\x7d</style><script>", some (.string "</script>"), [⟨"k", "alert(2)"⟩],
    [⟨"click", "p", none, "alert(3)"⟩], some "alert(4)"⟩ [.markup "<script>", .text "<b>"]]

theorem restore_inert_hostile :
    ∃ (s : Site) (d : Document) (t : Site), s.nodes.Reached ∧ s.restore hostile = (.ok d, t) ∧
      d.body.map Node.children = [[.text "<script>", .text "<b>"]] ∧
      Child.Proper (d.body.map Node.toChild) ∧
      (∀ n ∈ d.body, n.toChild.Each (Element.Inert s.settings.styleValueLength)) ∧
      Markup.read (Node.htmlOf d.body) = some (d.body.map Node.outline) ∧
      ∀ u : Site, (u.parts d).script =
        Hydration.setup (Child.stateEntriesAll (d.body.map Node.toChild)) := by
  let s : Site := .ofSettings {} .silent 0
  have hpool : s.nodes.Reached := .empty 1024 Pool.nodeNames
  have hrestored : s.restore hostile = (.ok _, _) := rfl
  exact ⟨s, _, _, hpool, hrestored, rfl, restore_inert hpool hrestored⟩

end Site

end Folio
