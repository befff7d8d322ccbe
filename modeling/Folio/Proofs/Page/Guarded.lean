import Folio.Proofs.Page.Moves
import Folio.Proofs.Style.Bare

/-! What every element of a tree keeps through builder calls: its style holds no angle bracket, and
the sources bound to it hold no denied sequence. -/
namespace Folio

namespace Child

variable {P : Element → Prop}

mutual

/-- Holds of a child all of whose elements have a property, at any depth. -/
def Each (P : Element → Prop) : Child → Prop
  | .text _ => True
  | .markup _ => True
  | .element e children => P e ∧ EachOf P children

def EachOf (P : Element → Prop) : List Child → Prop
  | [] => True
  | c :: cs => c.Each P ∧ EachOf P cs

end

theorem eachOf_iff {cs : List Child} : EachOf P cs ↔ ∀ c ∈ cs, c.Each P := by
  induction cs with
  | nil => simp [EachOf]
  | cons c cs ih => rw [EachOf, ih, List.forall_mem_cons]

theorem each_toChild {n : Node} :
    n.toChild.Each P ↔ P n.toElement ∧ ∀ c ∈ n.children, c.Each P := by
  rw [Node.toChild, Each, eachOf_iff]

theorem eachOf_map_toChild {nodes : List Node} (h : ∀ n ∈ nodes, n.toChild.Each P) :
    EachOf P (nodes.map Node.toChild) := by
  rw [eachOf_iff]
  intro c hc
  obtain ⟨n, hn, rfl⟩ := List.mem_map.1 hc
  exact h n hn

end Child

/-- A move of a node keeps what it keeps of the element alone, at any depth. -/
theorem Node.Move.each {P : Element → Prop} {limit : Nat} {c : Call} {n m : Node}
    (h : Node.Move limit c n m) (helement : P n.toElement → P m.toElement)
    (hadded : ∀ child ∈ c.added, child.Each P) (hn : n.toChild.Each P) : m.toChild.Each P := by
  obtain ⟨hself, hchildren⟩ := Child.each_toChild.1 hn
  refine Child.each_toChild.2 ⟨helement hself, ?_⟩
  cases h with
  | append => exact List.forall_mem_append.2 ⟨hchildren, hadded⟩
  | set | style | state | computed | bind | listen => exact hchildren

/-- An element whose style and bound sources can stand in a raw element. -/
structure Element.Guarded (e : Element) : Prop where
  style : Style.IsBare e.style.toList
  bindings : ∀ b ∈ e.bindings, Client.IsClean b.template.source.toList

theorem Element.guarded_fresh : (Reusable.fresh : Node).toElement.Guarded := ⟨nofun, nofun⟩

/-- Sources are bound only if they were accepted, and a scoped style is bare. -/
theorem Node.Move.guarded {limit : Nat} {c : Call} {n m : Node} (h : Node.Move limit c n m)
    (hn : n.toElement.Guarded) : m.toElement.Guarded := by
  cases h with
  | style _ hscope =>
    refine ⟨?_, hn.bindings⟩
    rw [String.toList_append]
    exact Style.isBare_append.2 ⟨hn.style, Style.isBare_fragment_of_scope hscope⟩
  | bind key hclean =>
    refine ⟨hn.style, List.forall_mem_append.2 ⟨hn.bindings, ?_⟩⟩
    exact List.forall_mem_singleton.2 hclean
  | set | append | state | computed | listen => exact ⟨hn.style, hn.bindings⟩

end Folio
