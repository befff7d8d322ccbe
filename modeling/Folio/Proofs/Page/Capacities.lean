import Folio.Page.Hydration
import Folio.Page.Render
import Folio.Proofs.Page.Indistinct

/-! How much the pools may keep is of no account to the building and the rendering of nodes: what is
built, collected and compiled under other capacities is the same. -/
namespace Folio

/-- The same settings with pools of other capacities. -/
def Settings.withCapacities (settings : Settings) (nodes contexts : Nat) : Settings :=
  { settings with poolCapacity := nodes, contextPoolCapacity := contexts }

variable {nodes contexts : Nat}

/-! Building -/

/-- The same scope with pools of other capacities. -/
def Scope.withCapacities (sc : Scope) (nodes contexts : Nat) : Scope :=
  { sc with settings := sc.settings.withCapacities nodes contexts }

variable (sc : Scope)

theorem Scope.advise_withCapacities (message : String) (fields : List (String × String)) :
    (sc.withCapacities nodes contexts).advise message fields =
      (sc.advise message fields).withCapacities nodes contexts := by
  have hmode : (sc.withCapacities nodes contexts).settings.isProduction =
      sc.settings.isProduction := rfl
  unfold advise
  rw [hmode]
  split <;> rfl

/-- Scopes that differ in the capacities of pools only. -/
def Scope.SameButCapacities (sc sc' : Scope) : Prop :=
  ∃ nodes contexts, sc' = sc.withCapacities nodes contexts

/-- No builder call looks at the capacities. -/
theorem Scope.indistinct_capacities : Scope.Indistinct SameButCapacities where
  frame := by
    rintro sc - ⟨nodes, contexts, rfl⟩
    exact ⟨_, _, rfl⟩
  limits_eq := by
    rintro sc - ⟨_, _, rfl⟩
    rfl
  styleValueLength_eq := by
    rintro sc - ⟨_, _, rfl⟩
    rfl
  update := by
    rintro sc - ⟨nodes, contexts, rfl⟩ ids states
    exact ⟨nodes, contexts, rfl⟩
  warn := by
    rintro sc - ⟨nodes, contexts, rfl⟩ message fields
    exact ⟨nodes, contexts, rfl⟩
  advise := by
    rintro sc - ⟨nodes, contexts, rfl⟩ message fields
    exact ⟨nodes, contexts, sc.advise_withCapacities message fields⟩

/-! Rendering -/

namespace Harvest

variable {settings : Settings}

theorem enter_withCapacities (h : Harvest) (e : Element) :
    h.enter (settings.withCapacities nodes contexts) e = h.enter settings e := rfl

mutual

theorem visit_withCapacities (h : Harvest) (c : Child) :
    visit (settings.withCapacities nodes contexts) h c = visit settings h c := by
  match c with
  | .text _ | .markup _ => rfl
  | .element e children =>
    rw [visit, visit, enter_withCapacities, visitAll_withCapacities]

theorem visitAll_withCapacities (h : Harvest) (cs : List Child) :
    visitAll (settings.withCapacities nodes contexts) h cs = visitAll settings h cs := by
  match cs with
  | [] => rfl
  | c :: cs => rw [visitAll, visitAll, visit_withCapacities, visitAll_withCapacities]

end

end Harvest

theorem Context.collect_withCapacities (settings : Settings) (ns : List Node) (c : Context) :
    Context.collect (settings.withCapacities nodes contexts) ns c =
      Context.collect settings ns c := by
  simp only [Context.collect, Harvest.visitAll_withCapacities]

theorem Hydration.compile_withCapacities (c : Context) (settings : Settings) :
    Hydration.compile c (settings.withCapacities nodes contexts) =
      Hydration.compile c settings := rfl

end Folio
