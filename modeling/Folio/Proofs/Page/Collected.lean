import Folio.Page.Render

/-! What a rendering collects, as a function of the rendered tree. -/
namespace Folio

/-- The captured state of an element, under its id. -/
def Element.stateEntries (e : Element) : List StateEntry :=
  match e.id?, e.state with
  | some id, some value => [⟨id, value, e.tag⟩]
  | _, _ => []

namespace Child

mutual

/-- The captured states of a child and of all that is rendered below it, in document order. -/
def stateEntries : Child → List StateEntry
  | .text _ | .markup _ => []
  | .element e children =>
    e.stateEntries ++ if Tag.isVoid e.tag then [] else stateEntriesAll children

def stateEntriesAll : List Child → List StateEntry
  | [] => []
  | c :: cs => c.stateEntries ++ stateEntriesAll cs

end

end Child

namespace Harvest

variable (settings : Settings)

theorem states_enter (h : Harvest) (e : Element) :
    (h.enter settings e).states = e.stateEntries.reverse ++ h.states := by
  have hcomputed : ∀ (h : Harvest) (id : String),
      (h.addComputed settings e id).states = h.states := by
    intro h id
    unfold addComputed
    split
    · rfl
    · split
      · rfl
      · split <;> rfl
  simp only [enter, Element.stateEntries]
  cases e.id? with
  | none => rfl
  | some id =>
    simp only [addBindings, hcomputed, addState]
    cases e.state <;> rfl

mutual

theorem states_visit (h : Harvest) (c : Child) :
    (visit settings h c).states = c.stateEntries.reverse ++ h.states := by
  match c with
  | .text _ | .markup _ => rfl
  | .element e children =>
    simp only [visit, leave, Child.stateEntries]
    split
    · rw [states_enter, List.append_nil]
    · rw [states_visitAll _ children, states_enter, List.reverse_append, List.append_assoc]

theorem states_visitAll (h : Harvest) (cs : List Child) :
    (visitAll settings h cs).states = (Child.stateEntriesAll cs).reverse ++ h.states := by
  match cs with
  | [] => rfl
  | c :: cs =>
    rw [visitAll, states_visitAll _ cs, states_visit, Child.stateEntriesAll, List.reverse_append,
      List.append_assoc]

end

end Harvest

/-- A rendering collects the states of what it renders, in document order. -/
theorem Context.states_collect (settings : Settings) (nodes : List Node) (c : Context) :
    (collect settings nodes c).1.states =
      c.states ++ Child.stateEntriesAll (nodes.map Node.toChild) := by
  have hvisited := Harvest.states_visitAll settings { toRuleList := c.toRuleList }
    (nodes.map Node.toChild)
  change c.states ++ (Harvest.visitAll settings _ _).states.reverse = _
  rw [hvisited, List.append_nil, List.reverse_reverse]

end Folio
