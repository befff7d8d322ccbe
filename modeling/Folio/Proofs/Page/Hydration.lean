import Folio.Page.Hydration
import Folio.Page.Render
import Folio.Proofs.Page.Guarded

/-! What a rendering of guarded nodes collects, and the script made of it: no denied sequence occurs
in the script, neither inside one of its pieces nor where two of them meet. -/
namespace Folio

open Client (IsClean IsTight isTight_weave isTight_ofList isJoint_ofList isClean_embed)
open Style (IsBare)

namespace Harvest

/-- A harvest of guarded elements. -/
structure Guarded (h : Harvest) : Prop where
  styles : ∀ r ∈ h.styles, IsBare r.toList
  computed : ∀ e ∈ h.computed, IsClean e.source.toList
  bindings : ∀ e ∈ h.bindings, IsClean e.source.toList

variable {h : Harvest} {settings : Settings} {e : Element} {id : String}

theorem Guarded.addState (hh : h.Guarded) : (h.addState e id).Guarded := by
  unfold Harvest.addState
  split
  · exact ⟨hh.styles, hh.computed, hh.bindings⟩
  · exact hh

/-- A computed script is checked once more before it is collected. -/
theorem Guarded.addComputed (hh : h.Guarded) : (h.addComputed settings e id).Guarded := by
  unfold Harvest.addComputed
  split
  · exact hh
  · split
    · next hcheck =>
      exact ⟨hh.styles, List.forall_mem_cons.2 ⟨Client.isClean_of_check hcheck, hh.computed⟩,
        hh.bindings⟩
    · split
      · exact hh
      · exact ⟨hh.styles, hh.computed, hh.bindings⟩

theorem Guarded.addBindings (hh : h.Guarded) (he : e.Guarded) :
    (h.addBindings e id).Guarded := by
  refine ⟨hh.styles, hh.computed, fun entry hentry => ?_⟩
  rcases List.mem_append.1 hentry with hentry | hentry
  · obtain ⟨b, hb, rfl⟩ := List.mem_map.1 (List.mem_reverse.1 hentry)
    exact he.bindings b hb
  · exact hh.bindings entry hentry

theorem Guarded.enter (hh : h.Guarded) (he : e.Guarded) : (h.enter settings e).Guarded := by
  have hstyled : Guarded { h with toRuleList := h.toRuleList.addFragment e.style } :=
    ⟨RuleList.isBare_addFragment he.style hh.styles, hh.computed, hh.bindings⟩
  simp only [Harvest.enter]
  split
  · exact hstyled.addState.addComputed.addBindings he
  · exact hstyled

theorem Guarded.leave (hh : h.Guarded) (e : Element) : (h.leave e).Guarded :=
  ⟨hh.styles, hh.computed, hh.bindings⟩

mutual

theorem Guarded.visit {h : Harvest} {c : Child} (hh : h.Guarded)
    (hc : c.Each Element.Guarded) : (visit settings h c).Guarded := by
  match c with
  | .text _ => exact hh
  | .markup _ => exact hh
  | .element e children =>
    have hentered : (h.enter settings e).Guarded := hh.enter hc.1
    simp only [Harvest.visit]
    split
    · exact hentered.leave e
    · exact (hentered.visitAll hc.2).leave e

theorem Guarded.visitAll {h : Harvest} {cs : List Child} (hh : h.Guarded)
    (hcs : Child.EachOf Element.Guarded cs) : (visitAll settings h cs).Guarded := by
  match cs with
  | [] => exact hh
  | c :: cs => exact (hh.visit hcs.1).visitAll hcs.2

end

end Harvest

namespace Context

/-- A context as a rendering of guarded nodes fills it. -/
structure Guarded (c : Context) : Prop where
  styles : ∀ r ∈ c.styles, IsBare r.toList
  computed : ∀ e ∈ c.computed, IsClean e.source.toList
  bindings : ∀ e ∈ c.bindings, IsClean e.source.toList

theorem guarded_collect (settings : Settings) {nodes : List Node}
    (h : ∀ n ∈ nodes, n.toChild.Each Element.Guarded) :
    (collect settings nodes {}).1.Guarded := by
  have hempty : Harvest.Guarded { toRuleList := {} } := ⟨nofun, nofun, nofun⟩
  have hall : Harvest.Guarded (Harvest.visitAll settings _ (nodes.map Node.toChild)) :=
    hempty.visitAll (Child.eachOf_map_toChild h)
  refine ⟨hall.styles, fun e he => ?_, fun e he => ?_⟩
  · exact hall.computed e (List.mem_reverse.1 he)
  · exact hall.bindings e (List.mem_reverse.1 he)

end Context

namespace Hydration

theorem isClean_valueText (v : Json) : IsClean (valueText v).toList := isClean_embed _

theorem isClean_stringText (s : String) : IsClean (stringText s).toList := isClean_valueText _

theorem isTight_stateStatement (e : StateEntry) : IsTight (stateStatement e).toList := by
  have hid : IsClean (stringText e.id).toList := isClean_stringText e.id
  have hvalue : IsClean (valueText e.value).toList := isClean_valueText e.value
  have hsetter : IsClean (if e.tag ∈ valueTags then "val" else "txt").toList := by
    split <;> decide +kernel
  refine isTight_weave "W.state[" [(_, "]="), (_, ";"), (_, "($("), (_, "),W.state["), (_, "]);")]
    (isTight_ofList (by decide +kernel)) ?_ ?_ <;> simp only [List.forall_mem_cons]
  · exact ⟨hid, hvalue, hsetter, hid, hid, nofun⟩
  · refine ⟨?_, ?_, ?_, ?_, ?_, nofun⟩
    all_goals exact isJoint_ofList (by decide +kernel)

theorem isTight_computedStatement {e : ComputedEntry} (h : IsClean e.source.toList) :
    IsTight (computedStatement e).toList := by
  have hid : IsClean (stringText e.id).toList := isClean_stringText e.id
  refine isTight_weave "try\x7btxt($(" [(_, "),("),
    (_, ")(W.state));\x7dcatch(e)\x7bconsole.error(\"[weft] computed failed\","), (_, ",e);\x7d")]
    (isTight_ofList (by decide +kernel)) ?_ ?_ <;> simp only [List.forall_mem_cons]
  · exact ⟨hid, h, hid, nofun⟩
  · refine ⟨?_, ?_, ?_, nofun⟩
    all_goals exact isJoint_ofList (by decide +kernel)

theorem isTight_bindingStatement {e : BindingEntry} (h : IsClean e.source.toList) :
    IsTight (bindingStatement e).toList := by
  have hid : IsClean (stringText e.nodeId).toList := isClean_stringText e.nodeId
  have hkey : IsClean (stringText e.key).toList := isClean_stringText e.key
  refine isTight_weave "(function(el,f)\x7bW.watch(" [
    (_, ",function(v)\x7btxt(el,f(v));\x7d);if(has("), (_, "))\x7btry\x7btxt(el,f(W.state["),
    (_, "]));\x7dcatch(e)\x7bconsole.error(\"[weft] binding failed\","),
    (_, ",e);\x7d\x7d\x7d)($("), (_, "),("), (_, "));")]
    (isTight_ofList (by decide +kernel)) ?_ ?_ <;> simp only [List.forall_mem_cons]
  · exact ⟨hkey, hkey, hkey, hid, hid, h, nofun⟩
  · refine ⟨?_, ?_, ?_, ?_, ?_, ?_, nofun⟩
    all_goals exact isJoint_ofList (by decide +kernel)

theorem isTight_listenerStatement (e : ListenerEntry) {source : String}
    (h : IsClean source.toList) : IsTight (listenerStatement e source).toList := by
  have hevent : IsClean (stringText e.event).toList := isClean_stringText e.event
  have hid : IsClean (stringText e.nodeId).toList := isClean_stringText e.nodeId
  refine isTight_weave "(function(el,f)\x7bif(el)el.addEventListener(" [
    (_, ",function(e)\x7breturn f.call(el,e,W);\x7d);\x7d)($("), (_, "),("), (_, "));")]
    (isTight_ofList (by decide +kernel)) ?_ ?_ <;> simp only [List.forall_mem_cons]
  · exact ⟨hevent, hid, h, nofun⟩
  · refine ⟨?_, ?_, ?_, nofun⟩
    all_goals exact isJoint_ofList (by decide +kernel)

/-- The source of a listener is checked after its target was put in. -/
theorem isClean_of_listenerSource {limits : Client.Limits} {e : ListenerEntry} {source : String}
    (h : listenerSource? limits e = some source) : IsClean source.toList := by
  simp only [listenerSource?] at h
  split at h
  all_goals
    split at h
    · next haccepts =>
      obtain rfl := Option.some.inj h
      exact Client.isClean_of_accepts haccepts
    · cases h

theorem isTight_statements {c : Context} (h : c.Guarded) (limits : Client.Limits) :
    ∀ statement ∈ statements c limits, IsTight statement.toList := by
  unfold statements listenerStatements
  simp only [List.mem_append]
  rintro statement (((hs | hs) | hs) | hs)
  · obtain ⟨e, -, rfl⟩ := List.mem_map.1 hs
    exact isTight_stateStatement e
  · obtain ⟨e, he, rfl⟩ := List.mem_map.1 hs
    exact isTight_computedStatement (h.computed e he)
  · obtain ⟨e, he, rfl⟩ := List.mem_map.1 hs
    exact isTight_bindingStatement (h.bindings e he)
  · obtain ⟨e, -, hsome⟩ := List.mem_filterMap.1 hs
    obtain ⟨source, hsource, rfl⟩ := Option.map_eq_some_iff.1 hsome
    exact isTight_listenerStatement e (isClean_of_listenerSource hsource)

theorem isTight_opening : IsTight opening.toList := by
  refine Client.isTight_join ?_
  simp only [List.forall_mem_cons]
  refine ⟨?_, ?_, ?_, ?_, ?_, ?_, ?_, ?_, ?_, ?_, ?_, ?_, ?_, ?_, nofun⟩
  all_goals exact isTight_ofList (by decide +kernel)

theorem isTight_closing : IsTight closing.toList := by
  refine Client.isTight_join ?_
  simp only [List.forall_mem_cons]
  refine ⟨?_, ?_, ?_, ?_, nofun⟩
  all_goals exact isTight_ofList (by decide +kernel)

/-- No denied sequence occurs in the script of a guarded context, in any letter case. -/
theorem isClean_compile {c : Context} (h : c.Guarded) (settings : Settings) :
    IsClean (compile c settings).1.toList := by
  unfold compile
  split
  · decide +kernel
  · have hopened := isTight_opening.append
      (Client.isTight_join (isTight_statements h settings.limits))
    simp only [String.toList_append]
    exact (hopened.append isTight_closing).clean

end Hydration

end Folio
