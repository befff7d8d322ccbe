import Folio.Proofs.Entries
import Folio.Proofs.Page.Moves
import Folio.Proofs.Pool.Reached

/-! Nodes as documents make them and builder calls fill them. Documents check their tags and calls
normalize the names of attributes, so the names in a built tree are proper at any depth. -/
namespace Folio

/-- What builders can put into a tree: texts, and nodes that documents make and calls fill, each on
a site in any state that its pool can come to. -/
inductive Child.Built : Child → Prop
  | text (s : String) : Child.Built (.text s)
  | create {s t : Site} {d : Document} {tag : String} {n : Node} (hpool : s.nodes.Reached)
      (h : s.create d tag = (.ok n, t)) : Child.Built n.toChild
  | call {s t : Site} {n m : Node} {c : Call} (hn : Child.Built n.toChild)
      (hadded : ∀ child ∈ c.added, Child.Built child) (h : s.build n c = (.ok m, t)) :
      Child.Built m.toChild

/-- An element whose names can stand in a tag. A cleared node has no tag name. -/
structure Element.Named (e : Element) : Prop where
  tag : e.tag = "" ∨ Tag.isName e.tag.toList = true
  attributes : ∀ name ∈ e.attributes.keys, Text.IsKebab name.toList

/-- Children without markup whose elements are named, at any depth. -/
inductive Child.Proper : List Child → Prop
  | nil : Child.Proper []
  | text (s : String) {cs : List Child} (h : Child.Proper cs) : Child.Proper (.text s :: cs)
  | element {e : Element} {children cs : List Child} (he : e.Named)
      (hchildren : Child.Proper children) (h : Child.Proper cs) :
      Child.Proper (.element e children :: cs)

/-- A document makes a node with a tag name and, whatever its pool held before, nothing else. -/
theorem Site.create_eq_ok {s t : Site} {d : Document} {tag : String} {n : Node}
    (hpool : s.nodes.Reached) (h : s.create d tag = (.ok n, t)) :
    ∃ name, Tag.normalize tag = .ok name ∧ n = { tag := name, scope := some d.scope } := by
  unfold create at h
  split at h
  · cases h
  · next name hname =>
    have hfresh : s.acquireNode.1 = Reusable.fresh := hpool.acquire_eq_fresh
    simp only [hfresh, Prod.mk.injEq, Except.ok.injEq] at h
    obtain ⟨rfl, -⟩ := h
    exact ⟨name, hname, rfl⟩

namespace Child

theorem Proper.append {cs ds : List Child} (hcs : Proper cs) (hds : Proper ds) :
    Proper (cs ++ ds) := by
  induction hcs with
  | nil => exact hds
  | text s _ ih => exact .text s ih
  | element he hchildren _ _ ih => exact .element he hchildren ih

theorem proper_of_forall {cs : List Child} (h : ∀ c ∈ cs, Proper [c]) : Proper cs := by
  induction cs with
  | nil => exact .nil
  | cons c cs ih =>
    exact (h c (List.mem_cons_self ..)).append (ih fun d hd => h d (List.mem_cons_of_mem _ hd))

theorem proper_toChild_iff {n : Node} :
    Proper [n.toChild] ↔ n.toElement.Named ∧ Proper n.children := by
  constructor
  · intro h
    cases h with
    | element he hchildren _ => exact ⟨he, hchildren⟩
  · rintro ⟨he, hchildren⟩
    exact .element he hchildren .nil

end Child

namespace Node.Move

variable {limit : Nat} {c : Call} {n m : Node}

theorem named (h : Move limit c n m) (hn : n.toElement.Named) : m.toElement.Named := by
  cases h with
  | set value hname =>
    exact ⟨hn.tag, Ordered.forall_mem_keys_insert value hname.isKebab hn.attributes⟩
  | append | style | state | computed | bind | listen => exact ⟨hn.tag, hn.attributes⟩

theorem proper (hadded : ∀ child ∈ c.added, Child.Proper [child]) (h : Move limit c n m)
    (hn : Child.Proper [n.toChild]) : Child.Proper [m.toChild] := by
  obtain ⟨hnamed, hproper⟩ := Child.proper_toChild_iff.1 hn
  refine Child.proper_toChild_iff.2 ⟨h.named hnamed, ?_⟩
  cases h with
  | append => exact hproper.append (Child.proper_of_forall hadded)
  | set | style | state | computed | bind | listen => exact hproper

end Node.Move

namespace Child

/-- Whatever builders put into a tree is proper. -/
theorem Built.proper {c : Child} (h : Built c) : Proper [c] := by
  induction h with
  | text s => exact .text s .nil
  | create hpool h =>
    obtain ⟨name, hname, rfl⟩ := Site.create_eq_ok hpool h
    exact proper_toChild_iff.2 ⟨⟨.inr (Tag.normalize_eq_ok hname).2, nofun⟩, .nil⟩
  | call _ _ h ihn ihadded =>
    have hfresh : Proper [(Reusable.fresh : Node).toChild] :=
      proper_toChild_iff.2 ⟨⟨.inl rfl, nofun⟩, .nil⟩
    exact Site.build_keeps (P := fun n => Proper [n.toChild]) hfresh
      (fun _ _ _ hmove => hmove.proper ihadded) h ihn

/-- The target of a listener, which gets an id as from a call of its own, is still built. -/
theorem Built.ensureId {s : Site} {n : Node} (h : Built n.toChild) :
    Built (s.ensureId n).1.toChild := by
  have hcall : s.build n .autoId = (.ok (s.ensureId n).1, (s.ensureId n).2) := by
    unfold Site.build Site.ensureId Site.within
    split <;> rfl
  exact h.call (c := .autoId) nofun hcall

end Child

end Folio
