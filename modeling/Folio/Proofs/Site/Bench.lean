import Folio.Proofs.Page.Changes
import Folio.Proofs.Page.Rendered
import Mathlib.Data.List.Perm.Basic

/-! An author at work, as a step system: the author has nodes in hand, makes calls on them, and puts
some below others. Every element gets a number when it is made, and with a listener that refers to
an element the number of that element is noted. The numbers are no part of any node; they say which
element is meant, whatever becomes of its id. -/
namespace Folio

/-- An element with its number and, for each of its listeners, the number of the element that the
listener refers to. -/
structure Numbered where
  number : Nat
  element : Element
  targets : List (Option Nat) := []

/-- A child whose elements have numbers. -/
inductive Piece where
  | element (own : Numbered) (below : List Piece)
  | text (s : String)
  | markup (s : String)

namespace Piece

def own? : Piece → Option Numbered
  | .element own _ => some own
  | .text _ | .markup _ => none

def isElement (p : Piece) : Bool := p.own?.isSome

mutual

/-- The child itself. -/
def toChild : Piece → Child
  | .text s => .text s
  | .markup s => .markup s
  | .element own below => .element own.element (toChildAll below)

def toChildAll : List Piece → List Child
  | [] => []
  | p :: ps => p.toChild :: toChildAll ps

end

mutual

/-- All elements of a child, each before those below it. -/
def elements : Piece → List Numbered
  | .text _ | .markup _ => []
  | .element own below => own :: elementsAll below

def elementsAll : List Piece → List Numbered
  | [] => []
  | p :: ps => p.elements ++ elementsAll ps

end

mutual

/-- The elements that a rendering comes to, each before those below it. -/
def rendered : Piece → List Numbered
  | .text _ | .markup _ => []
  | .element own below => own :: if Tag.isVoid own.element.tag then [] else renderedAll below

def renderedAll : List Piece → List Numbered
  | [] => []
  | p :: ps => p.rendered ++ renderedAll ps

end

mutual

theorem map_element_rendered (p : Piece) :
    p.rendered.map Numbered.element = p.toChild.entered := by
  match p with
  | .text _ | .markup _ => rfl
  | .element own below =>
    simp only [rendered, toChild, Child.entered, List.map_cons]
    split
    · rfl
    · rw [map_element_renderedAll]

theorem map_element_renderedAll (ps : List Piece) :
    (renderedAll ps).map Numbered.element = Child.enteredAll (toChildAll ps) := by
  match ps with
  | [] => rfl
  | p :: ps =>
    rw [renderedAll, toChildAll, Child.enteredAll, List.map_append, map_element_rendered,
      map_element_renderedAll]

end

mutual

theorem rendered_sublist (p : Piece) : p.rendered.Sublist p.elements := by
  match p with
  | .text _ | .markup _ => exact .refl _
  | .element own below =>
    simp only [rendered, elements]
    split
    · exact (List.nil_sublist _).cons_cons own
    · exact (renderedAll_sublist below).cons_cons own

theorem renderedAll_sublist (ps : List Piece) : (renderedAll ps).Sublist (elementsAll ps) := by
  match ps with
  | [] => exact .refl _
  | p :: ps => exact (rendered_sublist p).append (renderedAll_sublist ps)

end

theorem elementsAll_eq_flatMap (ps : List Piece) : elementsAll ps = ps.flatMap elements := by
  induction ps with
  | nil => rfl
  | cons p ps ih => rw [elementsAll, ih, List.flatMap_cons]

variable {ps qs : List Piece}

theorem toChildAll_append : toChildAll (ps ++ qs) = toChildAll ps ++ toChildAll qs := by
  induction ps with
  | nil => rfl
  | cons p ps ih => exact congrArg (p.toChild :: ·) ih

theorem elementsAll_append : elementsAll (ps ++ qs) = elementsAll ps ++ elementsAll qs := by
  simp only [elementsAll_eq_flatMap, List.flatMap_append]

theorem elementsAll_perm (h : ps.Perm qs) : (elementsAll ps).Perm (elementsAll qs) := by
  simp only [elementsAll_eq_flatMap]
  exact h.flatMap_right _

theorem elementsAll_filter (ps : List Piece) :
    elementsAll (ps.filter isElement) = elementsAll ps := by
  induction ps with
  | nil => rfl
  | cons p ps ih =>
    cases p with
    | element own below => exact congrArg (elements (.element own below) ++ ·) ih
    | text | markup => exact ih

theorem filterMap_own?_subset (ps : List Piece) : ps.filterMap own? ⊆ elementsAll ps := by
  intro q hq
  obtain ⟨p, hp, hown⟩ := List.mem_filterMap.1 hq
  rw [elementsAll_eq_flatMap]
  refine List.mem_flatMap.2 ⟨p, hp, ?_⟩
  cases p with
  | element own below =>
    obtain rfl := Option.some.inj hown
    exact List.mem_cons_self
  | text | markup => cases hown

/-- What is rendered is on the bench of which it is taken. -/
theorem renderedAll_subset (h : ps ⊆ qs) : renderedAll ps ⊆ elementsAll qs := by
  refine List.Subset.trans (renderedAll_sublist ps).subset ?_
  simp only [elementsAll_eq_flatMap]
  intro q hq
  obtain ⟨p, hp, hmem⟩ := List.mem_flatMap.1 hq
  exact List.mem_flatMap.2 ⟨p, h hp, hmem⟩

end Piece

namespace Numbered

/-- The node of an element with what is below it. -/
def node (own : Numbered) (below : List Piece) : Node :=
  { toElement := own.element, children := Piece.toChildAll below }

/-- The element after a call that made its node `m`. If the call captured a listener, `target` is
noted with it. -/
def after (own : Numbered) (m : Node) (target : Option Nat) : Numbered :=
  { own with
    element := m.toElement
    targets := (own.targets ++ [target]).take m.listeners.length }

end Numbered

namespace Call

/-- The id that a call refers to. -/
def targetId? : Call → Option String
  | .listen _ targetId _ => targetId
  | _ => none

/-- What is below an element after a call that added to it. -/
def below (below added : List Piece) : Call → List Piece
  | .reset => []
  | _ => below ++ added

/-- Which element a call refers to: for a listener with a target, one of the candidates, that has
an id already and gives it. -/
inductive Refers (candidates : List Numbered) : Call → Option Nat → Prop
  | target {own : Numbered} {id : String} (event source : String) (h : own ∈ candidates)
    (hid : own.element.id? = some id) :
    Refers candidates (.listen event (some id) source) (some own.number)
  | none {c : Call} (h : c.targetId? = none) : Refers candidates c none

theorem Refers.mono {qs rs : List Numbered} {c : Call} {target : Option Nat}
    (h : c.Refers qs target) (hsubset : qs ⊆ rs) : c.Refers rs target := by
  cases h with
  | target event source h hid => exact .target event source (hsubset h) hid
  | none h => exact .none h

end Call

/-- A site with the nodes that an author has in hand. `given` is the next number. -/
structure Bench where
  site : Site
  hand : List Piece := []
  given : Nat := 0

namespace Bench

/-- All elements on the bench. -/
def elements (b : Bench) : List Numbered := Piece.elementsAll b.hand

/-- What happens on a bench: a node is made, a call changes one, or one is lost. -/
inductive Act where
  | create
  | call (before : Numbered) (c : Call) (after : Numbered)
  | lose

/-- One step at the bench. The element to which a listener refers gets its id by a call of its own,
before the listener is captured. -/
inductive Step (b : Bench) : Act → Bench → Prop
  | create {d : Document} {tag : String} {n : Node} {t : Site}
    (h : b.site.create d tag = (.ok n, t)) :
    Step b .create ⟨t, .element ⟨b.given, n.toElement, []⟩ [] :: b.hand, b.given + 1⟩
  | call {own : Numbered} {below added rest : List Piece} {c : Call} {target : Option Nat}
    {m : Node} {t : Site}
    (hhand : b.hand.Perm (.element own below :: (added.filter Piece.isElement ++ rest)))
    (hadded : c.added = Piece.toChildAll added)
    (htarget : c.Refers (rest.filterMap Piece.own?) target)
    (h : b.site.build (own.node below) c = (.ok m, t)) :
    Step b (.call own c (own.after m target))
      ⟨t, .element (own.after m target) (c.below below added) :: rest, b.given⟩
  /-- A call breaks off, and its node is gone. -/
  | crash {own : Numbered} {below rest : List Piece} {c : Call} {e : Crash} {t : Site}
    (hhand : b.hand.Perm (.element own below :: rest))
    (h : b.site.build (own.node below) c = (.error e, t)) : Step b .lose ⟨t, rest, b.given⟩
  | drop {own : Numbered} {below rest : List Piece}
    (hhand : b.hand.Perm (.element own below :: rest)) :
    Step b .lose ⟨b.site, rest, b.given⟩

/-- Any number of steps that are all `ok`. -/
def Run (ok : Bench → Act → Bench → Prop) : Bench → Bench → Prop :=
  Relation.ReflTransGen fun a b => ∃ act, a.Step act b ∧ ok a act b

variable {b b' : Bench} {act : Act} {ok : Bench → Act → Bench → Prop}

theorem Run.mono {ok' : Bench → Act → Bench → Prop} (h : Run ok b b')
    (hok : ∀ a act c, ok a act c → ok' a act c) : Run ok' b b' := by
  induction h with
  | refl => exact .refl
  | tail _ hlast ih =>
    obtain ⟨act, hact, hstep⟩ := hlast
    exact ih.tail ⟨act, hact, hok _ _ _ hstep⟩

/-- What every step keeps, a run keeps. -/
theorem Run.keeps {P : Bench → Prop} (h : Run ok b b')
    (hstep : ∀ {a c : Bench} {act : Act}, a.Step act c → ok a act c → P a → P c) (hb : P b) :
    P b' := by
  induction h with
  | refl => exact hb
  | tail _ hlast ih =>
    obtain ⟨act, hact, hok⟩ := hlast
    exact hstep hact hok ih

/-! What a step makes of the site and of the elements -/

theorem create_site {s t : Site} {d : Document} {tag : String} {n : Node}
    (h : s.create d tag = (.ok n, t)) :
    t.nodes = s.nodes.acquire.2.1 ∧ t.stores = s.stores := by
  unfold Site.create at h
  split at h
  · cases h
  · obtain ⟨-, rfl⟩ := Prod.mk.inj h
    exact ⟨rfl, rfl⟩

/-- What lies in hand after a call is the node that the call returned. -/
theorem node_after {s t : Site} {own : Numbered} {below added : List Piece} {c : Call} {m : Node}
    (hadded : c.added = Piece.toChildAll added) (h : s.build (own.node below) c = (.ok m, t))
    (target : Option Nat) : (own.after m target).node (c.below below added) = m := by
  obtain ⟨states, hchange, -⟩ := Site.change_build h
  have hchildren : m.children = Piece.toChildAll (c.below below added) := by
    by_cases hclear : c = .reset
    · subst hclear
      rw [hchange.eq_fresh]
      rfl
    · rw [hchange.children_eq hclear, hadded, Numbered.node, ← Piece.toChildAll_append]
      cases c with
      | reset => exact (hclear rfl).elim
      | _ => rfl
  rw [Numbered.node, ← hchildren]
  rfl

theorem length_stores_build (s : Site) (n : Node) (c : Call) :
    (s.build n c).2.stores.length = s.stores.length := by
  obtain ⟨sc, -, -, -, -, -, hstores⟩ := s.build_eq n c
  rw [hstores]
  unfold Site.storesAfter
  split
  · exact List.length_set
  · rfl

theorem nodes_build (s : Site) (n : Node) (c : Call) : (s.build n c).2.nodes = s.nodes := by
  obtain ⟨sc, -, -, -, -, hnodes, -⟩ := s.build_eq n c
  exact hnodes

namespace Step

theorem reached (h : b.Step act b') (hpool : b.site.nodes.Reached) : b'.site.nodes.Reached := by
  cases h with
  | create h =>
    rw [(create_site h).1]
    exact hpool.acquire
  | @call own below _ _ c _ _ t _ _ _ h | @crash own below _ c _ t _ h =>
    have ht : (b.site.build (own.node below) c).2 = t := by rw [h]
    rw [← ht, nodes_build]
    exact hpool
  | drop _ => exact hpool

theorem length_stores (h : b.Step act b') : b'.site.stores.length = b.site.stores.length := by
  cases h with
  | create h => rw [(create_site h).2]
  | @call own below _ _ c _ _ t _ _ _ h | @crash own below _ c _ t _ h =>
    have ht : (b.site.build (own.node below) c).2 = t := by rw [h]
    rw [← ht, length_stores_build]
  | drop _ => rfl

/-- A new element has a tag, a document and nothing else. -/
theorem elements_create (h : b.Step .create b') (hpool : b.site.nodes.Reached) :
    ∃ tag scope, b'.elements = ⟨b.given, { tag, scope := some scope }, []⟩ :: b.elements ∧
      b'.given = b.given + 1 ∧ b'.site.stores = b.site.stores := by
  cases h with
  | create h =>
    obtain ⟨name, -, rfl⟩ := Site.create_eq_ok hpool h
    exact ⟨name, _, rfl, rfl, (create_site h).2⟩

/-- A call changes one element. The others stay as they are, but for those below an element that is
cleared, which are gone. -/
theorem elements_call {own own' : Numbered} {c : Call} (h : b.Step (.call own c own') b') :
    ∃ below m target others others',
      b.site.build (own.node below) c = (.ok m, b'.site) ∧ own' = own.after m target ∧
        c.Refers others' target ∧ b.elements.Perm (own :: others) ∧
        b'.elements = own' :: others' ∧ others'.Sublist others ∧ b'.given = b.given := by
  cases h with
  | @call _ below added rest _ target m t hhand hadded htarget h =>
    have hbefore : b.elements.Perm
        (own :: (Piece.elementsAll (below ++ added) ++ Piece.elementsAll rest)) := by
      refine (Piece.elementsAll_perm hhand).trans ?_
      rw [Piece.elementsAll, Piece.elements, Piece.elementsAll_append, Piece.elementsAll_append,
        Piece.elementsAll_filter, List.cons_append, List.append_assoc]
    have hbelow : (Piece.elementsAll (c.below below added)).Sublist
        (Piece.elementsAll (below ++ added)) := by
      cases c with
      | reset => exact List.nil_sublist _
      | _ => exact .refl _
    refine ⟨below, m, target, _, _, h, rfl, ?_, hbefore, rfl, hbelow.append (.refl _), rfl⟩
    refine htarget.mono ?_
    exact List.subset_append_of_subset_right _ (Piece.filterMap_own?_subset rest)

/-- Where an element is lost, so is all below it. The site changes only if a call on the element
broke off. -/
theorem elements_lose (h : b.Step .lose b') :
    ∃ own others, b.elements.Perm (own :: others) ∧ b'.elements.Sublist others ∧
      b'.given = b.given ∧ (b'.site = b.site ∨
        ∃ below c e, b.site.build (own.node below) c = (.error e, b'.site)) := by
  have hlost {own : Numbered} {below rest : List Piece}
      (hhand : b.hand.Perm (.element own below :: rest)) :
      b.elements.Perm (own :: (Piece.elementsAll below ++ Piece.elementsAll rest)) :=
    Piece.elementsAll_perm hhand
  cases h with
  | crash hhand h =>
    exact ⟨_, _, hlost hhand, List.sublist_append_right .., rfl, .inr ⟨_, _, _, h⟩⟩
  | drop hhand => exact ⟨_, _, hlost hhand, List.sublist_append_right .., rfl, .inl rfl⟩

/-- A call that adds nothing, on an element in hand. -/
theorem plain {own own' : Numbered} {below rest : List Piece} {c : Call} {target : Option Nat}
    {t : Site} (hhand : b.hand.Perm (.element own below :: rest)) (hadded : c.added = [])
    (hclear : c ≠ .reset) (htarget : c.Refers (rest.filterMap Piece.own?) target)
    (h : b.site.build (own.node below) c = (.ok (own'.node below), t))
    (hafter : own.after (own'.node below) target = own') :
    b.Step (.call own c own') ⟨t, .element own' below :: rest, b.given⟩ := by
  have hbelow : c.below below [] = below := by
    cases c with
    | reset => exact (hclear rfl).elim
    | _ => exact List.append_nil below
  have hpieces : c.added = Piece.toChildAll [] := hadded
  have hstep := Step.call hhand hpieces htarget h
  rwa [hbelow, hafter] at hstep

end Step

end Bench

end Folio
