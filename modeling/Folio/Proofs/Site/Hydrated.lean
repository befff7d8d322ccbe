import Folio.Proofs.Site.Grown

/-! The hydration script of a forest, read off its elements. States, computed texts and bindings are
set up in the order in which a rendering enters the elements, listeners in the order in which it
leaves them. What authors had accepted under the settings of a site, a rendering under the same
settings accepts again, so only a listener can be left out, and only for the id that is put into its
source. -/
namespace Folio

/-! Statements -/

namespace Hydration

/-- A statement of the script, by what it does on the client. -/
inductive Statement where
  /-- Sets a state up and shows it in the element of its id, as the value or as the text of that. -/
  | state (id : String) (value : Json) (asValue : Bool)
  /-- Shows what a script makes of all states as the text of an element. -/
  | computed (id source : String)
  /-- Shows what a script makes of one state as the text of an element, now and whenever the state
  is set. -/
  | binding (id key source : String)
  | listener (id event source : String)

/-- The text of a statement. Ids, keys, events and values stand in it as literals, sources between
parentheses. -/
def Statement.text : Statement → String
  | .state id value asValue =>
    "W.state[" ++ stringText id ++ "]=" ++ valueText value ++ ";"
      ++ (if asValue then "val" else "txt") ++ "($(" ++ stringText id ++ "),W.state["
      ++ stringText id ++ "]);"
  | .computed id source =>
    "try\x7btxt($(" ++ stringText id ++ "),(" ++ source
      ++ ")(W.state));\x7dcatch(e)\x7bconsole.error(\"[weft] computed failed\"," ++ stringText id
      ++ ",e);\x7d"
  | .binding id key source =>
    "(function(el,f)\x7bW.watch(" ++ stringText key
      ++ ",function(v)\x7btxt(el,f(v));\x7d);if(has(" ++ stringText key
      ++ "))\x7btry\x7btxt(el,f(W.state[" ++ stringText key
      ++ "]));\x7dcatch(e)\x7bconsole.error(\"[weft] binding failed\"," ++ stringText id
      ++ ",e);\x7d\x7d\x7d)($(" ++ stringText id ++ "),(" ++ source ++ "));"
  | .listener id event source =>
    "(function(el,f)\x7bif(el)el.addEventListener(" ++ stringText event
      ++ ",function(e)\x7breturn f.call(el,e,W);\x7d);\x7d)($(" ++ stringText id ++ "),("
      ++ source ++ "));"

end Hydration

open Hydration (Statement)

namespace Element

variable (e : Element)

/-- The statement for the state of an element, under its id. Fields show a state as their value. -/
def stateStatements : List Statement :=
  match e.id?, e.state with
  | some id, some value => [.state id value (e.tag ∈ ["input", "textarea", "select"])]
  | _, _ => []

/-- The statement for the computed script of an element, under its id. -/
def computedStatements : List Statement :=
  match e.id?, e.computed with
  | some id, some script => [.computed id script.source]
  | _, _ => []

/-- The statements for the bindings of an element, under its id. -/
def bindingStatements : List Statement :=
  match e.id? with
  | some id => e.bindings.map fun b => .binding id b.key b.template.source
  | none => []

/-- An element whose scripts are accepted. -/
structure Accepted (limits : Client.Limits) (e : Element) : Prop where
  computed : ∀ script ∈ e.computed, Client.accepts script.kind limits script.source = true
  listeners : ∀ l ∈ e.listeners, Client.accepts .event limits l.handler.source = true

end Element

namespace Listener

variable (limits : Client.Limits) (l : Listener)

/-- The source of a listener, with the id of its target in every place that waits for it. -/
def aimed : String :=
  match l.targetId with
  | some id => Client.substitute id l.handler.source
  | none => l.handler.source

/-- The statement of a listener, unless its source is refused with its target put in. -/
def statement? : Option Statement :=
  if Client.accepts .event limits l.aimed then some (.listener l.nodeId l.event l.aimed) else none

end Listener

namespace Hydration

/-- The statements for elements and listeners, each in the order in which a rendering collects from
them. -/
def statementsOf (limits : Client.Limits) (elements : List Element) (listeners : List Listener) :
    List Statement :=
  elements.flatMap Element.stateStatements ++ elements.flatMap Element.computedStatements
    ++ elements.flatMap Element.bindingStatements
    ++ listeners.filterMap (Listener.statement? limits)

/-- The script with these statements in its initialiser. -/
def scriptOf (statements : List Statement) : String :=
  opening ++ String.join (statements.map Statement.text) ++ closing

/-- A listener that is left out changes nothing else. -/
theorem statementsOf_refused {limits : Client.Limits} {l : Listener}
    (h : l.statement? limits = none) (elements : List Element) (before after : List Listener) :
    statementsOf limits elements (before ++ l :: after) =
      statementsOf limits elements (before ++ after) := by
  simp only [statementsOf, List.filterMap_append, List.filterMap_cons, h]

theorem stateStatement_eq (e : StateEntry) :
    stateStatement e = (Statement.state e.id e.value (e.tag ∈ valueTags)).text := by
  unfold stateStatement Statement.text
  simp only [String.join_cons, String.join_nil, String.append_empty, String.append_assoc,
    decide_eq_true_eq]

theorem computedStatement_eq (e : ComputedEntry) :
    computedStatement e = (Statement.computed e.id e.source).text := by
  unfold computedStatement Statement.text
  simp only [String.join_cons, String.join_nil, String.append_empty, String.append_assoc]

theorem bindingStatement_eq (e : BindingEntry) :
    bindingStatement e = (Statement.binding e.nodeId e.key e.source).text := by
  unfold bindingStatement Statement.text
  simp only [String.join_cons, String.join_nil, String.append_empty, String.append_assoc]

theorem listenerStatement_eq (e : ListenerEntry) (source : String) :
    listenerStatement e source = (Statement.listener e.nodeId e.event source).text := by
  unfold listenerStatement Statement.text
  simp only [String.join_cons, String.join_nil, String.append_empty, String.append_assoc]

end Hydration

/-! What an author had accepted -/

theorem Node.Change.accepted {limits : Client.Limits} {n m : Node} {states states' : States}
    {c : Call} (h : n.Change limits states c m states') (hn : n.toElement.Accepted limits) :
    m.toElement.Accepted limits := by
  cases h with
  | dress | append | give | id | rename => exact ⟨hn.computed, hn.listeners⟩
  | clear => exact ⟨nofun, nofun⟩
  | identify hk | state hk _ | bind hk _ =>
    obtain ⟨_, rfl⟩ := hk.eq_with
    exact ⟨hn.computed, hn.listeners⟩
  | computed hk haccepts =>
    obtain ⟨_, rfl⟩ := hk.eq_with
    refine ⟨fun script hscript => ?_, hn.listeners⟩
    obtain rfl := Option.some.inj hscript
    exact haccepts
  | listen hk haccepts =>
    obtain ⟨_, rfl⟩ := hk.eq_with
    refine ⟨hn.computed, List.forall_mem_append.2 ⟨hn.listeners, ?_⟩⟩
    exact List.forall_mem_singleton.2 haccepts

/-- Calls on nodes of documents go by the settings of the site. -/
theorem Child.Grown.accepted {settings : Settings} {c : Child}
    (h : c.Grown settings fun n _ => n.scope.isSome) :
    c.Each (Element.Accepted settings.limits) := by
  refine h.each (fun _ _ => ⟨nofun, nofun⟩) fun {s t n m c} hsettings hscope hbuild hself => ?_
  obtain ⟨states, hchange, -⟩ := Site.change_build hbuild
  rw [Site.settingsOf, if_pos hscope, hsettings] at hchange
  exact hchange.accepted hself

namespace Element

open Hydration

variable {limits : Client.Limits} {e : Element}

theorem text_stateStatements (e : Element) :
    e.stateStatements.map Statement.text = e.stateEntries.map stateStatement := by
  unfold stateStatements stateEntries
  cases e.id? with
  | none => rfl
  | some id =>
    cases e.state with
    | none => rfl
    | some value => exact congrArg ([·]) (stateStatement_eq ⟨id, value, e.tag⟩).symm

theorem text_computedStatements (h : e.Accepted limits) :
    e.computedStatements.map Statement.text = (e.computedEntries limits).map computedStatement := by
  unfold computedStatements computedEntries
  cases e.id? with
  | none => rfl
  | some id =>
    cases hcomputed : e.computed with
    | none => rfl
    | some script =>
      dsimp only
      rw [if_pos (h.computed script hcomputed)]
      exact congrArg ([·]) (computedStatement_eq ⟨id, script.source⟩).symm

theorem text_bindingStatements (e : Element) :
    e.bindingStatements.map Statement.text = e.bindingEntries.map bindingStatement := by
  unfold bindingStatements bindingEntries
  cases e.id? with
  | none => rfl
  | some id =>
    simp only [List.map_map, Function.comp_def, bindingStatement_eq]

/-- An element that gives nothing to a rendering. -/
theorem hydrates_eq_false_iff (h : e.Accepted limits) :
    e.hydrates = false ↔ e.stateEntries = [] ∧ e.computedEntries limits = [] ∧
      e.bindingEntries = [] ∧ e.listeners = [] := by
  unfold hydrates stateEntries computedEntries bindingEntries
  cases e.id? with
  | none => simp
  | some id =>
    cases hcomputed : e.computed with
    | none => cases e.state <;> simp
    | some script =>
      dsimp only
      rw [if_pos (h.computed script hcomputed)]
      cases e.state <;> simp

end Element

namespace Listener

variable {limits : Client.Limits} {l : Listener}

theorem text_statement? : (l.statement? limits).map Statement.text =
    (Hydration.listenerSource? limits l.entry).map (Hydration.listenerStatement l.entry) := by
  have hsource : Hydration.listenerSource? limits l.entry =
      if Client.accepts .event limits l.aimed then some l.aimed else none := rfl
  rw [hsource, statement?]
  split
  · exact congrArg some (Hydration.listenerStatement_eq l.entry l.aimed).symm
  · rfl

/-- A listener without target was accepted as it is. -/
theorem statement?_of_accepts (h : Client.accepts .event limits l.handler.source = true)
    (htarget : l.targetId = none) :
    l.statement? limits = some (.listener l.nodeId l.event l.handler.source) := by
  have haimed : l.aimed = l.handler.source := by rw [aimed, htarget]
  rw [statement?, haimed, if_pos h]

end Listener

namespace Context

variable {settings : Settings} {nodes : List Node}

/-- A rendering leaves a static context if nothing that it comes to gives it anything. -/
theorem isStatic_collect_iff : (collect settings nodes {}).1.isStatic = true ↔
    ∀ e ∈ Child.enteredAll (nodes.map Node.toChild), e.stateEntries = [] ∧
      e.computedEntries settings.limits = [] ∧ e.bindingEntries = [] ∧ e.listeners = [] := by
  have hleft : ∀ e, e ∈ Child.leftAll (nodes.map Node.toChild) ↔
      e ∈ Child.enteredAll (nodes.map Node.toChild) :=
    fun e => (Child.leftAll_perm_enteredAll _).mem_iff
  rw [collect_fst, isStatic]
  simp only [List.nil_append, Bool.and_eq_true, List.isEmpty_iff, List.flatMap_eq_nil_iff,
    List.map_eq_nil_iff, hleft]
  constructor
  · rintro ⟨⟨⟨hstates, hcomputed⟩, hbindings⟩, hlisteners⟩ e he
    exact ⟨hstates e he, hcomputed e he, hbindings e he, hlisteners e he⟩
  · intro heach
    exact ⟨⟨⟨fun e he => (heach e he).1, fun e he => (heach e he).2.1⟩,
      fun e he => (heach e he).2.2.1⟩, fun e he => (heach e he).2.2.2⟩

theorem isStatic_collect (h : ∀ n ∈ nodes, n.toChild.Each (Element.Accepted settings.limits)) :
    (collect settings nodes {}).1.isStatic =
      !(Child.enteredAll (nodes.map Node.toChild)).any Element.hydrates := by
  have haccepted : ∀ e ∈ Child.enteredAll (nodes.map Node.toChild), e.Accepted settings.limits :=
    Child.forall_mem_enteredAll (Child.eachOf_map_toChild h)
  rw [Bool.eq_iff_iff, isStatic_collect_iff, Bool.not_eq_true', List.any_eq_false]
  refine forall₂_congr fun e he => ?_
  rw [Bool.not_eq_true, Element.hydrates_eq_false_iff (haccepted e he)]

end Context

namespace Hydration

variable {settings : Settings} {nodes : List Node}

theorem statements_collect (h : ∀ n ∈ nodes, n.toChild.Each (Element.Accepted settings.limits)) :
    statements (Context.collect settings nodes {}).1 settings.limits =
      (statementsOf settings.limits (Child.enteredAll (nodes.map Node.toChild))
        ((Child.leftAll (nodes.map Node.toChild)).flatMap (·.listeners))).map Statement.text := by
  have haccepted : ∀ e ∈ Child.enteredAll (nodes.map Node.toChild), e.Accepted settings.limits :=
    Child.forall_mem_enteredAll (Child.eachOf_map_toChild h)
  have hcomputed := List.flatMap_congr fun e he => Element.text_computedStatements (haccepted e he)
  have hlisteners : ((Child.leftAll (nodes.map Node.toChild)).flatMap fun e =>
      e.listeners.map Listener.entry) =
        ((Child.leftAll (nodes.map Node.toChild)).flatMap (·.listeners)).map Listener.entry :=
    List.map_flatMap.symm
  rw [Context.collect_fst, hlisteners]
  generalize (Child.leftAll (nodes.map Node.toChild)).flatMap (·.listeners) = listeners
  simp only [statements, statementsOf, listenerStatements, List.nil_append, List.map_append,
    List.map_flatMap, List.map_filterMap, List.filterMap_map, Element.text_stateStatements,
    hcomputed, Element.text_bindingStatements, Listener.text_statement?]
  rfl

end Hydration

namespace Site

/-- Rendering a forest that authors grew on the documents of a site, under the settings of the site,
gives no script if no rendered element has anything to hydrate. Else the script has one statement
for each state and each computed script that a rendered element captured, and for each binding, all
under its id and in document order, and one for each listener, those of an element after those of
the elements below it; a listener without target always has its statement, and one that is refused
with its target put in changes nothing else. -/
theorem script_of_grown {s : Site} {nodes : List Node}
    (h : ∀ n ∈ nodes, n.toChild.Grown s.settings fun n _ => n.scope.isSome) :
    let limits := s.settings.limits
    let elements := Child.enteredAll (nodes.map Node.toChild)
    let listeners := (Child.leftAll (nodes.map Node.toChild)).flatMap (·.listeners)
    (s.renderInto s.settings nodes {}).2.2.1 =
        (if elements.any Element.hydrates then
          Hydration.scriptOf (Hydration.statementsOf limits elements listeners)
        else "") ∧
      (∀ l ∈ listeners, l.targetId = none →
        l.statement? limits = some (.listener l.nodeId l.event l.handler.source)) ∧
      ∀ before l after, listeners = before ++ l :: after → l.statement? limits = none →
        Hydration.statementsOf limits elements listeners =
          Hydration.statementsOf limits elements (before ++ after) := by
  intro limits elements listeners
  have heach : ∀ n ∈ nodes, n.toChild.Each (Element.Accepted limits) :=
    fun n hn => (h n hn).accepted
  refine ⟨?_, fun l hl htarget => ?_, fun before l after hsplit hrefused => ?_⟩
  · change (Hydration.compile (Context.collect s.settings nodes {}).1 s.settings).1 = _
    unfold Hydration.compile Hydration.scriptOf
    rw [Context.isStatic_collect heach, Hydration.statements_collect heach]
    cases elements.any Element.hydrates <;> simp [elements, listeners, limits]
  · obtain ⟨e, he, hmem⟩ := List.mem_flatMap.1 hl
    have hentered := (Child.leftAll_perm_enteredAll _).mem_iff.1 he
    have haccepted : e.Accepted limits :=
      Child.forall_mem_enteredAll (Child.eachOf_map_toChild heach) e hentered
    exact Listener.statement?_of_accepts (haccepted.listeners l hmem) htarget
  · rw [hsplit, Hydration.statementsOf_refused hrefused]

/-- Of the listeners of the form, the one that refers to what closes a script is left out. -/
theorem script_of_grown_form :
    ∃ (s : Site) (n : Node), (n.toChild.Grown s.settings fun n _ => n.scope.isSome) ∧
      Child.enteredAll [n.toChild] = formElements ∧
      (s.renderInto s.settings [n] {}).2.2.1 = Hydration.opening ++ String.join [
        "W.state[\"name\"]=\"Ada\";val($(\"name\"),W.state[\"name\"]);",
        "try\x7btxt($(\"label\"),((s) => s.name)(W.state));\x7d"
          ++ "catch(e)\x7bconsole.error(\"[weft] computed failed\",\"label\",e);\x7d",
        "(function(el,f)\x7bW.watch(\"name\",function(v)\x7btxt(el,f(v));\x7d);"
          ++ "if(has(\"name\"))\x7btry\x7btxt(el,f(W.state[\"name\"]));\x7d"
          ++ "catch(e)\x7bconsole.error(\"[weft] binding failed\",\"label\",e);\x7d\x7d\x7d)"
          ++ "($(\"label\"),((v) => v));",
        "(function(el,f)\x7bif(el)el.addEventListener(\"input\",function(e)"
          ++ "\x7breturn f.call(el,e,W);\x7d);\x7d)($(\"name\"),(() => 'label'));",
        "(function(el,f)\x7bif(el)el.addEventListener(\"submit\",function(e)"
          ++ "\x7breturn f.call(el,e,W);\x7d);\x7d)($(\"form\"),(() => 1));"]
        ++ Hydration.closing := by
  obtain ⟨n, hn, helements, hlisteners⟩ := Child.Grown.exists_form fun _ _ hscope _ => hscope
  obtain ⟨hscript, -⟩ := script_of_grown (s := .ofSettings {} .silent 0)
    (List.forall_mem_singleton.2 hn)
  refine ⟨.ofSettings {} .silent 0, n, hn, helements, hscript.trans ?_⟩
  rw [List.map_singleton, helements, hlisteners, if_pos (by decide), Hydration.scriptOf]
  refine congrArg (fun statements => Hydration.opening ++ String.join statements
    ++ Hydration.closing) ?_
  decide +kernel

end Site

end Folio
