import Folio.Proofs.Client.Clean
import Folio.Proofs.Text.KebabForm
import Folio.Site.Document
import Mathlib.Logic.Relation

/-! Builder calls as chains of small moves. A call that does not clear its node sets attributes
under normal names, adds its own children, adds one scoped style, captures a state, and holds
sources that were accepted; so a property of nodes that each of these moves keeps is kept by every
call. -/
namespace Folio

/-- The children that a call adds. -/
def Call.added : Call → List Child
  | .append children => children
  | _ => []

namespace Node

/-- One change that a call makes to a node, with a limit for the length of style values. -/
inductive Move (limit : Nat) (c : Call) : Node → Node → Prop
  | set (n : Node) {name : String} (value : String) (h : Text.IsAttributeName name) :
    Move limit c n (n.setAttribute name value)
  | append (n : Node) : Move limit c n (n.append c.added)
  | style (n : Node) {ds : List (String × String)} {style : Style.Scoped} (hc : c = .css ds)
    (h : Style.scope limit ds = some style) :
    Move limit c n { n with style := n.style ++ style.fragment }
  | state (n : Node) (value : Json) : Move limit c n { n with state := some value }
  | computed (n : Node) {source : String} (h : Client.IsClean source.toList) :
    Move limit c n { n with computed := some ⟨.computed, source⟩ }
  | bind (n : Node) (key : String) {source : String} (h : Client.IsClean source.toList) :
    Move limit c n { n with bindings := n.bindings ++ [⟨key, ⟨.computed, source⟩⟩] }
  | listen (n : Node) (event id : String) (targetId : Option String) {source : String}
    (h : Client.IsClean source.toList) :
    Move limit c n { n with listeners := n.listeners ++ [⟨event, id, targetId, ⟨.event, source⟩⟩] }

abbrev Moves (limit : Nat) (c : Call) : Node → Node → Prop := Relation.ReflTransGen (Move limit c)

variable {limit : Nat} {n m : Node} {sc : Scope} {c : Call} {P : Node → Prop}

/-- What every move keeps, a whole chain keeps. -/
theorem Moves.keeps (h : Moves limit c n m) (hmove : ∀ a b, Move limit c a b → P a → P b)
    (hn : P n) : P m := by
  induction h with
  | refl => exact hn
  | tail _ hlast ih => exact hmove _ _ hlast ih

/-! What calls make of the scope, and the two outcomes of a rename -/

theorem states_advise (sc : Scope) (message : String) (fields : List (String × String)) :
    (sc.advise message fields).states = sc.states := by
  unfold Scope.advise
  split <;> rfl

theorem states_ensureId (n : Node) (sc : Scope) : (n.ensureId sc).2.states = sc.states := by
  unfold ensureId
  split <;> rfl

/-- An element that has an id is none the different for being asked for one. -/
theorem ensureId_eq_self (h : n.id?.isSome) (sc : Scope) : n.ensureId sc = (n, sc) := by
  obtain ⟨id, hid⟩ := Option.isSome_iff_exists.1 h
  rw [ensureId, hid]

theorem attr_fst (n : Node) (sc : Scope) (name value : String) :
    (n.attr sc name value).1 =
      if (Text.kebab name).isEmpty then n else n.setAttribute (Text.kebab name) value := by
  simp only [attr]
  split <;> rfl

theorem states_attr (n : Node) (sc : Scope) (name value : String) :
    (n.attr sc name value).2.states = sc.states := by
  simp only [attr]
  split
  · exact states_advise ..
  · rfl

/-- Either there is nothing to move, or the state moves away from the previous id. -/
theorem rename_cases (n : Node) (sc : Scope) (value : String) :
    (n.rename sc value = (.ok (n.setAttribute "id" value), sc) ∧
      (n.state = none ∨ ∀ previous, n.attributes.get? "id" = some previous → previous = value)) ∨
    ∃ previous moved states, n.state.isSome ∧ n.attributes.get? "id" = some previous ∧
      previous ≠ value ∧ sc.states.rename previous value = (moved, states) ∧
      n.rename sc value =
        (moved.map fun _ => n.setAttribute "id" value, { sc with states }) := by
  unfold rename
  split
  · next previous hstate hid =>
    split
    · next hsame =>
      refine .inl ⟨rfl, .inr fun other hother => ?_⟩
      exact (Option.some.inj (hid.symm.trans hother)).symm.trans hsame
    · next hne => exact .inr ⟨previous, _, _, by rw [hstate]; rfl, hid, hne, rfl, rfl⟩
  · next hnone =>
    refine .inl ⟨rfl, ?_⟩
    cases hstate : n.state with
    | none => exact .inl rfl
    | some v => exact .inr fun previous hprevious => (hnone v previous hstate hprevious).elim

/-! The calls one by one -/

theorem isClean_of_accepts {kind : Client.Kind} {source : String} {sc' : Scope}
    (h : n.accepts sc kind source = (true, sc')) : Client.IsClean source.toList := by
  unfold accepts at h
  split at h
  · next hcheck => exact Client.isClean_of_check hcheck
  · cases h

theorem moves_ensureId (n : Node) (sc : Scope) : Moves limit c n (n.ensureId sc).1 := by
  unfold ensureId
  split
  · exact .refl
  · exact .single (.set n _ Text.isAttributeName_id)

theorem moves_attr (n : Node) (sc : Scope) (name value : String) :
    Moves limit c n (n.attr sc name value).1 := by
  rw [attr_fst]
  split
  · exact .refl
  · next hsome =>
    exact .single (.set n value ⟨Text.kebab_kebab name, by simpa using hsome⟩)

theorem eq_setAttribute_of_rename {value : String} (h : (n.rename sc value).1 = .ok m) :
    m = n.setAttribute "id" value := by
  rcases n.rename_cases sc value with ⟨heq, -⟩ | ⟨previous, moved, states, -, -, -, -, heq⟩
  · rw [heq] at h
    exact (Except.ok.inj h).symm
  · rw [heq] at h
    cases moved with
    | error e => cases h
    | ok _ => exact (Except.ok.inj h).symm

theorem moves_rename {value : String} (h : (n.rename sc value).1 = .ok m) : Moves limit c n m :=
  eq_setAttribute_of_rename h ▸ .single (.set n value Text.isAttributeName_id)

/-- A class changes nothing but the attributes. -/
theorem eq_of_addClass (n : Node) (name : String) :
    n.addClass name = { n with attributes := (n.addClass name).attributes } := by
  unfold addClass
  split
  · rfl
  · split
    · rfl
    · split <;> rfl

theorem moves_addClass (n : Node) (name : String) : Moves limit c n (n.addClass name) := by
  unfold addClass
  split
  · exact .single (.set n _ Text.isAttributeName_class)
  · split
    · exact .refl
    · split
      · exact .single (.set n _ Text.isAttributeName_class)
      · exact .single (.set n _ Text.isAttributeName_class)

theorem moves_css (n : Node) (sc : Scope) (ds : List (String × String)) :
    Moves sc.settings.styleValueLength (.css ds) n (n.css sc ds) := by
  unfold css
  split
  · exact .refl
  · next style hstyle =>
    simp only [applyStyle]
    split
    · exact moves_addClass n style.className
    · exact (moves_addClass n style.className).tail (.style _ rfl hstyle)

theorem moves_capture (n : Node) (sc : Scope) (value : Json) :
    Moves limit c n (n.capture sc value).1 :=
  (moves_ensureId n sc).tail (.state _ value)

theorem moves_captureResult (n : Node) (sc : Scope) (value : Except String Json) :
    Moves limit c n (n.captureResult sc value).1 := by
  unfold captureResult
  split
  · exact moves_capture n sc _
  · exact .refl

theorem moves_setComputed (n : Node) (sc : Scope) (source : String) :
    Moves limit c n (n.setComputed sc source).1 := by
  unfold setComputed
  split
  · exact .refl
  · next sc' haccepts =>
    exact (moves_ensureId n sc').tail (.computed _ (isClean_of_accepts haccepts))

theorem moves_bindText (n : Node) (sc : Scope) (key source : String) :
    Moves limit c n (n.bindText sc key source).1 := by
  unfold bindText
  split
  · exact .refl
  · split
    · exact .refl
    · next sc' haccepts =>
      exact (moves_ensureId n sc').tail (.bind _ key (isClean_of_accepts haccepts))

theorem moves_listen (n : Node) (sc : Scope) (event : String) (targetId : Option String)
    (source : String) : Moves limit c n (n.listen sc event targetId source).1 := by
  simp only [listen]
  split
  · exact .refl
  · split
    · exact .refl
    · next sc' haccepts =>
      exact (moves_ensureId n sc').tail (.listen _ _ _ _ (isClean_of_accepts haccepts))

/-- Every call but the one that clears its node is a chain of moves. -/
theorem moves_apply (hc : c ≠ .reset) (h : (n.apply sc c).1 = .ok m) :
    Moves sc.settings.styleValueLength c n m := by
  cases c <;> simp only [apply, Except.ok.injEq] at h
  case attr name value => exact h ▸ moves_attr n sc name value
  case id value => exact moves_rename h
  case autoId => exact h ▸ moves_ensureId n sc
  case append children => exact h ▸ .single (.append n)
  case css declarations => exact h ▸ moves_css n sc declarations
  case state value => exact h ▸ moves_captureResult n sc value
  case computed source => exact h ▸ moves_setComputed n sc source
  case bindText key source => exact h ▸ moves_bindText n sc key source
  case listen event targetId source => exact h ▸ moves_listen n sc event targetId source
  case reset => exact (hc rfl).elim

end Node

namespace Site

variable {s t : Site} {n m : Node} {c : Call} {P : Node → Prop}

/-- What is done in a scope is done with some shared part of a document. -/
theorem exists_within {α : Type} (s : Site) (scope : Option Nat) (f : Scope → α × Scope) :
    ∃ sc, (s.within scope f).1 = (f sc).1 := by
  cases scope with
  | none => exact ⟨_, rfl⟩
  | some n => exact ⟨_, rfl⟩

/-- A property that cleared nodes have and every move keeps is kept by every call. -/
theorem build_keeps (hfresh : P Reusable.fresh)
    (hmove : ∀ limit a b, Node.Move limit c a b → P a → P b) (h : s.build n c = (.ok m, t))
    (hn : P n) : P m := by
  obtain ⟨sc, hsc⟩ := s.exists_within n.scope fun sc => n.apply sc c
  have happly : (n.apply sc c).1 = .ok m := by rw [← hsc, ← build, h]
  by_cases hreset : c = .reset
  · subst hreset
    obtain rfl := Except.ok.inj happly
    exact hfresh
  · exact (Node.moves_apply hreset happly).keeps (hmove _) hn

end Site

end Folio
