import Folio.Proofs.Page.Changes
import Folio.Proofs.Page.Rendered
import Mathlib.Data.List.Basic

/-! Nodes as authors grow them: made by documents and filled by calls, with texts, trusted markup
and other such nodes below them. Where no call gives the empty id to a node that captured something,
every node that captured something has an id, and a rendering passes over nothing for want of one.
-/
namespace Folio

/-- Children as authors grow them on sites with given settings. `ok` says which calls are made on
which nodes. -/
inductive Child.Grown (settings : Settings) (ok : Node → Call → Prop) : Child → Prop
  | text (s : String) : Child.Grown settings ok (.text s)
  | markup (s : String) : Child.Grown settings ok (.markup s)
  | create {s t : Site} {d : Document} {tag : String} {n : Node} (hsettings : s.settings = settings)
      (hpool : s.nodes.Reached) (h : s.create d tag = (.ok n, t)) :
      Child.Grown settings ok n.toChild
  | call {s t : Site} {n m : Node} {c : Call} (hsettings : s.settings = settings)
      (hn : Child.Grown settings ok n.toChild)
      (hadded : ∀ child ∈ c.added, Child.Grown settings ok child) (hok : ok n c)
      (h : s.build n c = (.ok m, t)) : Child.Grown settings ok m.toChild

/-- What documents give to elements and calls keep, all elements have, at any depth. -/
theorem Child.Grown.each {settings : Settings} {ok : Node → Call → Prop} {P : Element → Prop}
    (hcreate : ∀ (tag : String) (scope : Nat), P { tag, scope := some scope })
    (hcall : ∀ {s t : Site} {n m : Node} {c : Call}, s.settings = settings → ok n c →
      s.build n c = (.ok m, t) → P n.toElement → P m.toElement)
    {c : Child} (h : c.Grown settings ok) : c.Each P := by
  induction h with
  | text | markup => trivial
  | create _ hpool h =>
    obtain ⟨name, -, rfl⟩ := Site.create_eq_ok hpool h
    exact Child.each_toChild.2 ⟨hcreate name _, nofun⟩
  | @call s t n m c hsettings _ _ hok h ihn ihadded =>
    obtain ⟨hself, hchildren⟩ := Child.each_toChild.1 ihn
    refine Child.each_toChild.2 ⟨hcall hsettings hok h hself, ?_⟩
    obtain ⟨states, hchange, -⟩ := Site.change_build h
    by_cases hclear : c = .reset
    · subst hclear
      rw [hchange.eq_fresh]
      exact nofun
    · rw [hchange.children_eq hclear, List.forall_mem_append]
      exact ⟨hchildren, ihadded⟩

/-- Where no call gives the empty id to a node that captured something, every element that captured
something has an id, at any depth. -/
theorem Child.Grown.identified {settings : Settings} {c : Child}
    (h : c.Grown settings fun n c => n.captures → c.givenId? ≠ some "") :
    c.Each fun e => e.captures → e.id?.isSome := by
  refine h.each (fun _ _ => nofun) fun {_ _ _ _ _} _ hok hbuild hself => ?_
  obtain ⟨states, hchange, -⟩ := Site.change_build hbuild
  exact hchange.isSome_id?_of_captures hok hself

/-- Calls that are made under a condition are made under a weaker one. -/
theorem Child.Grown.mono {settings : Settings} {ok ok' : Node → Call → Prop} {c : Child}
    (h : c.Grown settings ok) (himp : ∀ n c, ok n c → ok' n c) : c.Grown settings ok' := by
  induction h with
  | text s => exact .text s
  | markup s => exact .markup s
  | create hsettings hpool h => exact .create hsettings hpool h
  | call hsettings _ _ hok h ihn ihadded => exact .call hsettings ihn ihadded (himp _ _ hok) h

/-! Elements that have an id if they captured something -/

namespace Element

variable {e : Element}

theorem nothing_of_id?_eq_none (h : e.captures → e.id?.isSome) (hid : e.id? = none) :
    e.state = none ∧ e.computed = none ∧ e.bindings = [] := by
  have hnot : e.captures = false := by
    rw [← Bool.not_eq_true]
    intro hcaptures
    simpa [hid] using h hcaptures
  simp only [captures, Bool.or_eq_false_iff, Bool.not_eq_false', List.isEmpty_iff,
    Option.isSome_eq_false_iff, Option.isNone_iff_eq_none] at hnot
  exact ⟨hnot.1.1.1, hnot.1.1.2, hnot.1.2⟩

theorem map_value_stateEntries (h : e.captures → e.id?.isSome) :
    e.stateEntries.map (·.value) = e.state.toList := by
  unfold stateEntries
  cases hid : e.id? with
  | none => rw [(nothing_of_id?_eq_none h hid).1]; rfl
  | some id => cases e.state <;> rfl

theorem map_source_computedEntries (h : e.captures → e.id?.isSome) (limits : Client.Limits) :
    (e.computedEntries limits).map (·.source) =
      ((e.computed.filter fun script => Client.accepts script.kind limits script.source).map
        (·.source)).toList := by
  unfold computedEntries
  cases hid : e.id? with
  | none => rw [(nothing_of_id?_eq_none h hid).2.1]; rfl
  | some id =>
    cases e.computed with
    | none => rfl
    | some script =>
      rw [Option.filter_some]
      dsimp only
      split <;> rfl

theorem map_bindingEntries (h : e.captures → e.id?.isSome) :
    e.bindingEntries.map (fun b => (b.key, b.source)) =
      e.bindings.map fun b => (b.key, b.template.source) := by
  unfold bindingEntries
  cases hid : e.id? with
  | none => rw [(nothing_of_id?_eq_none h hid).2.2]; rfl
  | some id => simp

end Element

/-- Where no call gives the empty id to a node that captured something, every element that captured
something has an id, at any depth, and a rendering collects the state, the bindings and, if it is
still accepted, the computed script of every element that it comes to. -/
theorem Site.captured_identified {settings : Settings} {nodes : List Node}
    (h : ∀ n ∈ nodes, n.toChild.Grown settings fun n c => n.captures → c.givenId? ≠ some "") :
    (∀ n ∈ nodes, n.toChild.Each fun e => e.captures → e.id?.isSome) ∧
      ∀ rendering : Settings,
        let c := (Context.collect rendering nodes {}).1
        let elements := Child.enteredAll (nodes.map Node.toChild)
        c.states.map (·.value) = elements.filterMap (·.state) ∧
          (c.computed.map (·.source) = elements.filterMap fun e =>
            (e.computed.filter fun script =>
              Client.accepts script.kind rendering.limits script.source).map (·.source)) ∧
          c.bindings.map (fun b => (b.key, b.source)) =
            elements.flatMap fun e => e.bindings.map fun b => (b.key, b.template.source) := by
  have heach : ∀ n ∈ nodes, n.toChild.Each fun e => e.captures → e.id?.isSome :=
    fun n hn => (h n hn).identified
  refine ⟨heach, fun rendering => ?_⟩
  have hentered : ∀ e ∈ Child.enteredAll (nodes.map Node.toChild), e.captures → e.id?.isSome :=
    Child.forall_mem_enteredAll (Child.eachOf_map_toChild heach)
  dsimp only
  rw [Context.collect_fst]
  simp only [List.nil_append, List.map_flatMap, List.filterMap_eq_flatMap_toList]
  refine ⟨?_, ?_, ?_⟩
  · exact List.flatMap_congr fun e he => Element.map_value_stateEntries (hentered e he)
  · exact List.flatMap_congr fun e he => Element.map_source_computedEntries (hentered e he) _
  · exact List.flatMap_congr fun e he => Element.map_bindingEntries (hentered e he)

/-! A form as an author may grow it -/

/-- The elements of a form. Its field captured a state and a listener that refers to the label, its
label follows the state and says what a script makes of it, and it has itself a listener that refers
to what closes a script. -/
def formElements : List Element :=
  [{ tag := "form", attributes := ⟨[("id", "form")], by decide⟩, scope := some 0
     listeners := [⟨"reset", "form", some "/script>", ⟨.event, "() => '<__TARGET_ID__'"⟩⟩,
       ⟨"submit", "form", none, ⟨.event, "() => 1"⟩⟩] },
    { tag := "input", attributes := ⟨[("id", "name")], by decide⟩, scope := some 0
      state := some (.string "Ada")
      listeners := [⟨"input", "name", some "label", ⟨.event, "() => '__TARGET_ID__'"⟩⟩] },
    { tag := "span", attributes := ⟨[("id", "label")], by decide⟩, scope := some 0
      computed := some ⟨.computed, "(s) => s.name"⟩
      bindings := [⟨"name", ⟨.computed, "(v) => v"⟩⟩] }]

/-- The form can be grown. What is appended below the field, a void element, is not rendered. -/
theorem Child.Grown.exists_form {ok : Node → Call → Prop}
    (hok : ∀ n c, n.scope.isSome → (n.captures → c.givenId? ≠ some "") → ok n c) :
    ∃ n : Node, n.toChild.Grown {} ok ∧
      Child.enteredAll [n.toChild] = formElements ∧
      (Child.leftAll [n.toChild]).flatMap (·.listeners) =
        [⟨"input", "name", some "label", ⟨.event, "() => '__TARGET_ID__'"⟩⟩,
          ⟨"reset", "form", some "/script>", ⟨.event, "() => '<__TARGET_ID__'"⟩⟩,
          ⟨"submit", "form", none, ⟨.event, "() => 1"⟩⟩] := by
  let s : Site := ((Site.ofSettings {} .silent 0).newDocument {}).2
  have hpool : s.nodes.Reached := .empty 1024 Pool.nodeNames
  have hlost : Child.Grown {} ok _ := .create (s := s) rfl hpool
    (rfl : s.create { scope := 0 } "b" = (.ok _, _))
  have hlost := hlost.call (s := s) (c := .state (.ok .null)) rfl nofun (hok _ _ rfl nofun) rfl
  have hfield : Child.Grown {} ok _ := .create (s := s) rfl hpool
    (rfl : s.create { scope := 0 } "input" = (.ok _, _))
  have hfield := hfield.call (s := s) (c := .id "field") rfl nofun (hok _ _ rfl nofun) rfl
  have hfield := hfield.call (s := s) (c := .state (.ok (.string "Ada"))) rfl nofun
    (hok _ _ rfl nofun) rfl
  have hfield := hfield.call (s := s) (c := .id "name") rfl nofun
    (hok _ _ rfl fun _ => by decide) rfl
  have hfield := hfield.call (s := s)
    (c := .listen "Input" (some "label") "() => '__TARGET_ID__'") rfl nofun (hok _ _ rfl nofun) rfl
  have hfield := hfield.call (s := s) (c := .append [_]) rfl (List.forall_mem_singleton.2 hlost)
    (hok _ _ rfl nofun) rfl
  have hlabel : Child.Grown {} ok _ := .create (s := s) rfl hpool
    (rfl : s.create { scope := 0 } "span" = (.ok _, _))
  have hlabel := hlabel.call (s := s) (c := .id "label") rfl nofun (hok _ _ rfl nofun) rfl
  have hlabel := hlabel.call (s := s) (c := .computed "(s) => s.name") rfl nofun
    (hok _ _ rfl nofun) rfl
  have hlabel := hlabel.call (s := s) (c := .bindText "name" "(v) => v") rfl nofun
    (hok _ _ rfl nofun) rfl
  have hform : Child.Grown {} ok _ := .create (s := s) rfl hpool
    (rfl : s.create { scope := 0 } "form" = (.ok _, _))
  have hform := hform.call (s := s) (c := .id "form") rfl nofun (hok _ _ rfl nofun) rfl
  have hform := hform.call (s := s)
    (c := .listen "reset" (some "/script>") "() => '<__TARGET_ID__'") rfl nofun
    (hok _ _ rfl nofun) rfl
  have hform := hform.call (s := s) (c := .listen "submit" none "() => 1") rfl nofun
    (hok _ _ rfl nofun) rfl
  have hform := hform.call (s := s) (c := .append [_, _]) rfl
    (List.forall_mem_cons.2 ⟨hfield, List.forall_mem_singleton.2 hlabel⟩) (hok _ _ rfl nofun) rfl
  exact ⟨_, hform, rfl, rfl⟩

namespace Site

theorem captured_identified_form :
    ∃ n : Node, (n.toChild.Grown {} fun n c => n.captures → c.givenId? ≠ some "") ∧
      (n.toChild.Each fun e => e.captures → e.id?.isSome) ∧
      (Context.collect {} [n] {}).1.states.map (·.value) = [.string "Ada"] := by
  obtain ⟨n, hn, helements, -⟩ := Child.Grown.exists_form fun _ _ _ hblank => hblank
  obtain ⟨heach, hrendered⟩ := captured_identified (List.forall_mem_singleton.2 hn)
  refine ⟨n, hn, heach n (List.mem_singleton_self n), (hrendered {}).1.trans ?_⟩
  exact congrArg (List.filterMap fun e => e.state) helements

/-- A node that captured a state and is given the empty id then has none, and a rendering passes
over its state. -/
theorem state_under_empty_id :
    ∃ n : Node, (n.toChild.Grown {} fun n _ => n.scope.isSome) ∧ n.state = some (.string "v") ∧
      n.id? = none ∧ (Context.collect {} [n] {}).1.isStatic = true := by
  let s : Site := ((Site.ofSettings {} .silent 0).newDocument {}).2
  have hpool : s.nodes.Reached := .empty 1024 Pool.nodeNames
  have hp : Child.Grown {} (fun n _ => n.scope.isSome) _ := .create (s := s) rfl hpool
    (rfl : s.create { scope := 0 } "p" = (.ok _, _))
  have hstate := hp.call (s := s) (c := .state (.ok (.string "v"))) rfl nofun rfl rfl
  have hblank := hstate.call (s := s) (c := .id "") rfl nofun rfl rfl
  exact ⟨_, hblank, rfl, rfl, rfl⟩

end Site

end Folio
