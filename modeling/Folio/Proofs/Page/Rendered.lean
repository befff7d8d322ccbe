import Folio.Proofs.Page.Collected
import Folio.Proofs.Page.Guarded

/-! The elements that a rendering comes to, in the order in which it enters and in which it leaves
them, and what it collects as a function of these elements. States, computed scripts and bindings
are collected when an element is entered, listeners when it is left. -/
namespace Folio

namespace Child

mutual

/-- The elements that a rendering comes to, each before those below it. Nothing below a void element
is rendered. -/
def entered : Child → List Element
  | .text _ | .markup _ => []
  | .element e children => e :: if Tag.isVoid e.tag then [] else enteredAll children

def enteredAll : List Child → List Element
  | [] => []
  | c :: cs => c.entered ++ enteredAll cs

end

mutual

/-- The same elements, each after those below it. -/
def left : Child → List Element
  | .text _ | .markup _ => []
  | .element e children => (if Tag.isVoid e.tag then [] else leftAll children) ++ [e]

def leftAll : List Child → List Element
  | [] => []
  | c :: cs => c.left ++ leftAll cs

end

mutual

theorem left_perm_entered (c : Child) : c.left.Perm c.entered := by
  match c with
  | .text _ | .markup _ => exact .refl _
  | .element e children =>
    simp only [left, entered]
    split
    · exact .refl _
    · exact (List.perm_append_singleton e _).trans ((leftAll_perm_enteredAll children).cons e)

theorem leftAll_perm_enteredAll (cs : List Child) : (leftAll cs).Perm (enteredAll cs) := by
  match cs with
  | [] => exact .refl _
  | c :: cs => exact (left_perm_entered c).append (leftAll_perm_enteredAll cs)

end

variable {P : Element → Prop}

mutual

theorem forall_mem_entered {c : Child} (h : c.Each P) : ∀ e ∈ c.entered, P e := by
  match c with
  | .text _ | .markup _ => exact nofun
  | .element e children =>
    rw [entered, List.forall_mem_cons]
    refine ⟨h.1, ?_⟩
    split
    · exact nofun
    · exact forall_mem_enteredAll h.2

theorem forall_mem_enteredAll {cs : List Child} (h : EachOf P cs) : ∀ e ∈ enteredAll cs, P e := by
  match cs with
  | [] => exact nofun
  | c :: cs =>
    rw [enteredAll, List.forall_mem_append]
    exact ⟨forall_mem_entered h.1, forall_mem_enteredAll h.2⟩

end

end Child

/-! What each element gives -/

namespace Element

variable (e : Element)

/-- The computed script of an element, under its id, if it is accepted. -/
def computedEntries (limits : Client.Limits) : List ComputedEntry :=
  match e.id?, e.computed with
  | some id, some script =>
    if Client.accepts script.kind limits script.source then [⟨id, script.source⟩] else []
  | _, _ => []

/-- The bindings of an element, under its id. -/
def bindingEntries : List BindingEntry :=
  match e.id? with
  | some id => e.bindings.map fun b => ⟨id, b.key, b.template.source⟩
  | none => []

/-- Whether a rendering collects something from an element for hydration. -/
def hydrates : Bool :=
  (e.id?.isSome && (e.state.isSome || e.computed.isSome || !e.bindings.isEmpty))
    || !e.listeners.isEmpty

end Element

/-- A listener as a rendering collects it. -/
def Listener.entry (l : Listener) : ListenerEntry :=
  ⟨l.event, l.nodeId, l.targetId, l.handler.source⟩

namespace Harvest

variable (settings : Settings)

/-- A field that changes when an element is entered, and only then. -/
structure FollowsEnter {β : Type} (field : Harvest → β) (step : β → Element → β) : Prop where
  enter : ∀ (h : Harvest) (e : Element), field (h.enter settings e) = step (field h) e
  leave : ∀ (h : Harvest) (e : Element), field (h.leave e) = field h

/-- A field that grows when an element is entered. -/
abbrev GrowsOnEnter {α : Type} (field : Harvest → List α) (entries : Element → List α) : Prop :=
  FollowsEnter settings field fun l e => (entries e).reverse ++ l

/-- A field that grows when an element is left. -/
structure GrowsOnLeave {α : Type} (field : Harvest → List α) (entries : Element → List α) :
    Prop where
  enter : ∀ (h : Harvest) (e : Element), field (h.enter settings e) = field h
  leave : ∀ (h : Harvest) (e : Element), field (h.leave e) = (entries e).reverse ++ field h

variable {settings} {α : Type}

mutual

theorem FollowsEnter.visit {β : Type} {field : Harvest → β} {step : β → Element → β}
    (hf : FollowsEnter settings field step) (h : Harvest) (c : Child) :
    field (visit settings h c) = c.entered.foldl step (field h) := by
  match c with
  | .text _ | .markup _ => rfl
  | .element e children =>
    simp only [Harvest.visit, hf.leave, Child.entered, List.foldl_cons]
    split
    · rw [hf.enter, List.foldl_nil]
    · rw [hf.visitAll _ children, hf.enter]

theorem FollowsEnter.visitAll {β : Type} {field : Harvest → β} {step : β → Element → β}
    (hf : FollowsEnter settings field step) (h : Harvest) (cs : List Child) :
    field (visitAll settings h cs) = (Child.enteredAll cs).foldl step (field h) := by
  match cs with
  | [] => rfl
  | c :: cs => rw [Harvest.visitAll, hf.visitAll _ cs, hf.visit, Child.enteredAll, List.foldl_append]

end

variable {field : Harvest → List α} {entries : Element → List α}

theorem GrowsOnEnter.visitAll (hf : GrowsOnEnter settings field entries) (h : Harvest)
    (cs : List Child) :
    field (visitAll settings h cs) =
      ((Child.enteredAll cs).flatMap entries).reverse ++ field h := by
  rw [FollowsEnter.visitAll hf]
  generalize field h = l
  induction Child.enteredAll cs generalizing l with
  | nil => rfl
  | cons e es ih =>
    rw [List.foldl_cons, ih, List.flatMap_cons, List.reverse_append, List.append_assoc]

mutual

theorem GrowsOnLeave.visit (hf : GrowsOnLeave settings field entries) (h : Harvest) (c : Child) :
    field (visit settings h c) = (c.left.flatMap entries).reverse ++ field h := by
  match c with
  | .text _ | .markup _ => rfl
  | .element e children =>
    simp only [Harvest.visit, hf.leave, Child.left, List.flatMap_append, List.reverse_append,
      List.flatMap_singleton, List.append_assoc]
    split
    · simp [hf.enter]
    · rw [hf.visitAll _ children, hf.enter]

theorem GrowsOnLeave.visitAll (hf : GrowsOnLeave settings field entries) (h : Harvest)
    (cs : List Child) :
    field (visitAll settings h cs) = ((Child.leftAll cs).flatMap entries).reverse ++ field h := by
  match cs with
  | [] => rfl
  | c :: cs =>
    rw [Harvest.visitAll, hf.visitAll _ cs, hf.visit, Child.leftAll, List.flatMap_append,
      List.reverse_append, List.append_assoc]

end

theorem growsOnEnter_states (settings : Settings) :
    GrowsOnEnter settings Harvest.states Element.stateEntries :=
  ⟨states_enter settings, fun _ _ => rfl⟩

theorem addState_eq (h : Harvest) (e : Element) (id : String) :
    ∃ states, h.addState e id = { h with states } := by
  unfold addState
  split
  · exact ⟨_, rfl⟩
  · exact ⟨_, rfl⟩

/-- An accepted script is collected, and a refused one leaves no more than an event. -/
theorem addComputed_eq (settings : Settings) (h : Harvest) {e : Element} {id : String}
    (hid : e.id? = some id) : ∃ log, h.addComputed settings e id =
      { h with computed := (e.computedEntries settings.limits).reverse ++ h.computed, log } := by
  unfold addComputed Element.computedEntries Client.accepts
  rw [hid]
  cases e.computed with
  | none => exact ⟨_, rfl⟩
  | some script =>
    dsimp only
    cases Client.check script.kind settings.limits script.source with
    | ok _ => exact ⟨_, rfl⟩
    | error fault =>
      dsimp only
      split
      · exact ⟨_, rfl⟩
      · exact ⟨_, rfl⟩

/-- Entering an element adds its rules, and what it gives under its id, if it has one. -/
theorem enter_eq (settings : Settings) (h : Harvest) (e : Element) :
    ∃ states log, h.enter settings e =
      { h with
        states, log
        toRuleList := h.toRuleList.addFragment e.style
        computed := (e.computedEntries settings.limits).reverse ++ h.computed
        bindings := e.bindingEntries.reverse ++ h.bindings } := by
  simp only [enter]
  cases hid : e.id? with
  | none =>
    simp only [Element.computedEntries, Element.bindingEntries, hid]
    exact ⟨_, _, rfl⟩
  | some id =>
    obtain ⟨states, hstates⟩ :=
      addState_eq { h with toRuleList := h.toRuleList.addFragment e.style } e id
    obtain ⟨log, hcomputed⟩ := addComputed_eq settings
      { h with toRuleList := h.toRuleList.addFragment e.style, states } hid
    simp only [hstates, hcomputed, addBindings, Element.bindingEntries, hid]
    exact ⟨_, _, rfl⟩

theorem growsOnEnter_computed (settings : Settings) :
    GrowsOnEnter settings Harvest.computed fun e => e.computedEntries settings.limits := by
  refine ⟨fun h e => ?_, fun _ _ => rfl⟩
  obtain ⟨_, _, heq⟩ := enter_eq settings h e
  rw [heq]

theorem growsOnEnter_bindings (settings : Settings) :
    GrowsOnEnter settings Harvest.bindings Element.bindingEntries := by
  refine ⟨fun h e => ?_, fun _ _ => rfl⟩
  obtain ⟨_, _, heq⟩ := enter_eq settings h e
  rw [heq]

theorem followsEnter_rules (settings : Settings) :
    FollowsEnter settings Harvest.toRuleList fun l e => l.addFragment e.style := by
  refine ⟨fun h e => ?_, fun _ _ => rfl⟩
  obtain ⟨_, _, heq⟩ := enter_eq settings h e
  rw [heq]

theorem growsOnLeave_listeners (settings : Settings) :
    GrowsOnLeave settings Harvest.listeners fun e => e.listeners.map Listener.entry := by
  refine ⟨fun h e => ?_, fun _ _ => rfl⟩
  obtain ⟨_, _, heq⟩ := enter_eq settings h e
  rw [heq]

end Harvest

namespace Context

variable (settings : Settings) (nodes : List Node) (c : Context)

/-- What a rendering adds to a context, element by element. -/
theorem collect_fst :
    (collect settings nodes c).1 =
      { toRuleList := (Child.enteredAll (nodes.map Node.toChild)).foldl
          (fun l e => l.addFragment e.style) c.toRuleList
        states := c.states ++
          (Child.enteredAll (nodes.map Node.toChild)).flatMap Element.stateEntries
        computed := c.computed ++
          (Child.enteredAll (nodes.map Node.toChild)).flatMap (·.computedEntries settings.limits)
        bindings := c.bindings ++
          (Child.enteredAll (nodes.map Node.toChild)).flatMap Element.bindingEntries
        listeners := c.listeners ++
          (Child.leftAll (nodes.map Node.toChild)).flatMap fun e =>
            e.listeners.map Listener.entry } := by
  unfold collect Harvest.into
  simp only [(Harvest.followsEnter_rules settings).visitAll,
    Harvest.GrowsOnEnter.visitAll (Harvest.growsOnEnter_states settings),
    Harvest.GrowsOnEnter.visitAll (Harvest.growsOnEnter_computed settings),
    Harvest.GrowsOnEnter.visitAll (Harvest.growsOnEnter_bindings settings),
    (Harvest.growsOnLeave_listeners settings).visitAll, List.append_nil, List.reverse_reverse]

end Context

end Folio
