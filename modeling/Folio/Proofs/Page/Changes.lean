import Folio.Proofs.Entries
import Folio.Proofs.Site.Restored

/-! What one builder call makes of a node and of the states of its document, as a whole: which calls
touch the id, how a state is recorded or moved, and that whatever captures something first sees to
an id. A call that is refused dresses the node as it was. -/
namespace Folio

/-- The id that a call gives to its node: as such, or as an attribute whose name comes to `id`. -/
def Call.givenId? : Call → Option String
  | .id value => some value
  | .attr name value => if Text.kebab name = "id" then some value else none
  | _ => none

/-- Calls that give no id, add no children and do not clear their node. -/
structure Call.Plain (c : Call) : Prop where
  givenId?_eq : c.givenId? = none
  added_eq : c.added = []
  ne_reset : c ≠ .reset

namespace Element

variable {e : Element}

theorem id?_of_get? {id : String} (h : e.attributes.get? "id" = some id) (hid : id ≠ "") :
    e.id? = some id := by
  simp [id?, h, hid]

theorem id?_congr {f : Element} (h : e.attributes.get? "id" = f.attributes.get? "id") :
    e.id? = f.id? := by rw [id?, h, id?]

theorem get?_of_id? {id : String} (h : e.id? = some id) :
    e.attributes.get? "id" = some id ∧ id ≠ "" := by
  simpa [id?] using h

end Element

/-- An id that is not empty, once set. -/
theorem Node.id?_setAttribute (n : Node) {value : String} (h : value ≠ "") :
    (n.setAttribute "id" value).id? = some value :=
  Element.id?_of_get? (Ordered.get?_insert_self ..) h

theorem Ids.nth_ne_empty (ids : Ids) (n : Nat) : ids.nth n ≠ "" := by
  intro h
  have hlist := congrArg String.toList h
  simp [nth] at hlist

namespace Node

variable {n m : Node} {sc sc' : Scope} {c : Call}

/-- A node that has an id stays as it is; any other gets one. -/
inductive Identified (n : Node) : Node → Prop
  | kept (h : n.id?.isSome) : Identified n n
  | given {id : String} (h : n.id? = none) (hid : id ≠ "") :
    Identified n (n.setAttribute "id" id)

/-- What a call makes of a node and of the states of its document. -/
inductive Change (limits : Client.Limits) (n : Node) (states : States) :
    Call → Node → States → Prop
  | dress {c : Call} {attributes : Ordered String String} {style : String} (hc : c.Plain)
    (hid : attributes.get? "id" = n.attributes.get? "id") :
    Change limits n states c { n with attributes, style } states
  | append (children : List Child) :
    Change limits n states (.append children) (n.append children) states
  | give {name value : String} (h : Text.kebab name = "id") :
    Change limits n states (.attr name value) (n.setAttribute "id" value) states
  /-- There is no state to move, or no other id to move it from. -/
  | id {value : String}
    (h : n.state = none ∨ ∀ previous, n.attributes.get? "id" = some previous → previous = value) :
    Change limits n states (.id value) (n.setAttribute "id" value) states
  | rename {previous value : String} {states' : States} (hstate : n.state.isSome)
    (hid : n.attributes.get? "id" = some previous) (hne : previous ≠ value)
    (h : states.rename previous value = (.ok (), states')) :
    Change limits n states (.id value) (n.setAttribute "id" value) states'
  | identify {k : Node} (h : n.Identified k) : Change limits n states .autoId k states
  | state {k : Node} (h : n.Identified k) (value : Json) :
    Change limits n states (.state (.ok value)) { k with state := some value }
      (states.insert k.idText value)
  | computed {k : Node} {source : String} (h : n.Identified k)
    (haccepts : Client.accepts .computed limits source = true) :
    Change limits n states (.computed source) { k with computed := some ⟨.computed, source⟩ }
      states
  | bind {k : Node} {key source : String} (h : n.Identified k)
    (haccepts : Client.accepts .computed limits source = true) :
    Change limits n states (.bindText key source)
      { k with bindings := k.bindings ++ [⟨key, ⟨.computed, source⟩⟩] } states
  | listen {k : Node} {event source : String} {targetId : Option String} (h : n.Identified k)
    (haccepts : Client.accepts .event limits source = true) :
    Change limits n states (.listen event targetId source)
      { k with
        listeners :=
          k.listeners ++ [⟨eventName event, k.idText, targetId, ⟨.event, source⟩⟩] } states
  | clear : Change limits n states .reset Reusable.fresh states

/-! The calls one by one -/

theorem identified_ensureId (n : Node) (sc : Scope) : n.Identified (n.ensureId sc).1 := by
  unfold ensureId
  cases h : n.id? with
  | some id => exact .kept (by rw [h]; rfl)
  | none => exact .given h (sc.ids.nth_ne_empty _)

/-- A call that is refused leaves the node as it was. -/
theorem Change.refused {limits : Client.Limits} {states : States} (hc : c.Plain) :
    Change limits n states c n states := .dress hc rfl

theorem accepts_eq_true {kind : Client.Kind} {source : String}
    (h : n.accepts sc kind source = (true, sc')) :
    Client.accepts kind sc.settings.limits source = true ∧ sc = sc' := by
  unfold accepts at h
  split at h
  · next hcheck => exact ⟨by rw [Client.accepts, hcheck], (Prod.mk.inj h).2⟩
  · cases h

theorem states_of_accepts_eq_false {kind : Client.Kind} {source : String}
    (h : n.accepts sc kind source = (false, sc')) : sc'.states = sc.states := by
  unfold accepts at h
  split at h
  · cases h
  · obtain ⟨-, rfl⟩ := Prod.mk.inj h
    exact states_advise ..

theorem change_attr (n : Node) (sc : Scope) (name value : String) :
    Change sc.settings.limits n sc.states (.attr name value) (n.attr sc name value).1
      (n.attr sc name value).2.states := by
  rw [states_attr, attr_fst]
  by_cases hid : Text.kebab name = "id"
  · rw [hid]
    exact .give hid
  · have hc : (Call.attr name value).Plain := ⟨by simp [Call.givenId?, hid], rfl, by simp⟩
    split
    · exact .refused hc
    · exact .dress hc (Ordered.get?_insert_of_ne (Ne.symm hid) value)

theorem change_rename {value : String} (h : n.rename sc value = (.ok m, sc')) :
    Change sc.settings.limits n sc.states (.id value) m sc'.states := by
  rcases n.rename_cases sc value with
    ⟨heq, hstay⟩ | ⟨previous, moved, states, hstate, hid, hne, hmoved, heq⟩
  · obtain ⟨hm, rfl⟩ := Prod.mk.inj (heq.symm.trans h)
    obtain rfl := Except.ok.inj hm
    exact .id hstay
  · obtain ⟨hm, rfl⟩ := Prod.mk.inj (heq.symm.trans h)
    cases moved with
    | error e => cases hm
    | ok _ =>
      obtain rfl := Except.ok.inj hm
      exact .rename hstate hid hne hmoved

theorem get?_id_addClass (n : Node) (name : String) :
    (n.addClass name).attributes.get? "id" = n.attributes.get? "id" := by
  have hset : ∀ value, (n.setAttribute "class" value).attributes.get? "id" =
      n.attributes.get? "id" := fun value => Ordered.get?_insert_of_ne (by decide) value
  unfold addClass
  split
  · exact hset _
  · split
    · rfl
    · split <;> exact hset _

theorem change_css (n : Node) (sc : Scope) (ds : List (String × String)) :
    Change sc.settings.limits n sc.states (.css ds) (n.css sc ds) sc.states := by
  unfold css
  split
  · exact .refused ⟨rfl, rfl, by simp⟩
  · next style _ =>
    simp only [applyStyle]
    split
    · rw [eq_of_addClass]
      exact .dress ⟨rfl, rfl, by simp⟩ (get?_id_addClass n _)
    · rw [eq_of_addClass]
      exact .dress ⟨rfl, rfl, by simp⟩ (get?_id_addClass n _)

theorem change_captureResult (n : Node) (sc : Scope) (value : Except String Json) :
    Change sc.settings.limits n sc.states (.state value) (n.captureResult sc value).1
      (n.captureResult sc value).2.states := by
  cases value with
  | error e => exact .refused ⟨rfl, rfl, by simp⟩
  | ok v =>
    simp only [captureResult, capture, states_ensureId]
    exact .state (identified_ensureId n sc) v

theorem change_setComputed (n : Node) (sc : Scope) (source : String) :
    Change sc.settings.limits n sc.states (.computed source) (n.setComputed sc source).1
      (n.setComputed sc source).2.states := by
  unfold setComputed
  split
  · next hrefused =>
    rw [states_of_accepts_eq_false hrefused]
    exact .refused ⟨rfl, rfl, by simp⟩
  · next haccepts =>
    obtain ⟨hcheck, rfl⟩ := accepts_eq_true haccepts
    simp only [states_ensureId]
    exact .computed (identified_ensureId n sc) hcheck

theorem change_bindText (n : Node) (sc : Scope) (key source : String) :
    Change sc.settings.limits n sc.states (.bindText key source) (n.bindText sc key source).1
      (n.bindText sc key source).2.states := by
  unfold bindText
  split
  · simp only [states_advise]
    exact .refused ⟨rfl, rfl, by simp⟩
  · split
    · next hrefused =>
      rw [states_of_accepts_eq_false hrefused]
      exact .refused ⟨rfl, rfl, by simp⟩
    · next haccepts =>
      obtain ⟨hcheck, rfl⟩ := accepts_eq_true haccepts
      simp only [states_ensureId]
      exact .bind (identified_ensureId n sc) hcheck

theorem change_listen (n : Node) (sc : Scope) (event : String) (targetId : Option String)
    (source : String) :
    Change sc.settings.limits n sc.states (.listen event targetId source)
      (n.listen sc event targetId source).1 (n.listen sc event targetId source).2.states := by
  simp only [listen]
  split
  · simp only [states_advise]
    exact .refused ⟨rfl, rfl, by simp⟩
  · split
    · next hrefused =>
      rw [states_of_accepts_eq_false hrefused]
      exact .refused ⟨rfl, rfl, by simp⟩
    · next haccepts =>
      obtain ⟨hcheck, rfl⟩ := accepts_eq_true haccepts
      simp only [states_ensureId]
      exact .listen (identified_ensureId n sc) hcheck

/-- Every call that does not break off is a change. -/
theorem change_apply (h : n.apply sc c = (.ok m, sc')) :
    Change sc.settings.limits n sc.states c m sc'.states := by
  cases c <;> simp only [apply, Prod.mk.injEq, Except.ok.injEq] at h
  case attr name value => obtain ⟨rfl, rfl⟩ := h; exact change_attr n sc name value
  case id value => exact change_rename h
  case autoId =>
    obtain ⟨rfl, rfl⟩ := h
    rw [states_ensureId]
    exact .identify (identified_ensureId n sc)
  case append children => obtain ⟨rfl, rfl⟩ := h; exact .append children
  case css declarations => obtain ⟨rfl, rfl⟩ := h; exact change_css n sc declarations
  case state value => obtain ⟨rfl, rfl⟩ := h; exact change_captureResult n sc value
  case computed source => obtain ⟨rfl, rfl⟩ := h; exact change_setComputed n sc source
  case bindText key source => obtain ⟨rfl, rfl⟩ := h; exact change_bindText n sc key source
  case listen event targetId source =>
    obtain ⟨rfl, rfl⟩ := h
    exact change_listen n sc event targetId source
  case reset => obtain ⟨rfl, rfl⟩ := h; exact .clear

/-! What follows for a single node -/

namespace Identified

variable {k : Node}

theorem isSome (h : n.Identified k) : k.id?.isSome := by
  cases h with
  | kept h => exact h
  | given _ hid => rw [n.id?_setAttribute hid]; rfl

/-- Nothing but the attributes can change. -/
theorem eq_with (h : n.Identified k) : ∃ attributes, k = { n with attributes } := by
  cases h with
  | kept _ => exact ⟨_, rfl⟩
  | given _ _ => exact ⟨_, rfl⟩

theorem id?_eq (h : n.Identified k) : k.id? = some k.idText := by
  obtain ⟨id, hid⟩ := Option.isSome_iff_exists.1 h.isSome
  rw [hid, idText, (Element.get?_of_id? hid).1, Option.getD_some]

end Identified

namespace Change

variable {limits : Client.Limits} {states states' : States}

theorem get?_id_of_givenId (h : Change limits n states c m states') {value : String}
    (hc : c.givenId? = some value) : m.attributes.get? "id" = some value := by
  cases h with
  | dress hplain => rw [hplain.givenId?_eq] at hc; cases hc
  | give hname =>
    obtain rfl : _ = value := by simpa [Call.givenId?, hname] using hc
    exact Ordered.get?_insert_self ..
  | id _ | rename _ _ _ _ =>
    obtain rfl := Option.some.inj hc
    exact Ordered.get?_insert_self ..
  | append | identify | state | computed | bind | listen | clear => cases hc

theorem eq_fresh (h : Change limits n states .reset m states') : m = Reusable.fresh := by
  cases h with
  | dress hplain => exact (hplain.ne_reset rfl).elim
  | clear => rfl

theorem children_eq (h : Change limits n states c m states') (hclear : c ≠ .reset) :
    m.children = n.children ++ c.added := by
  cases h with
  | append => rfl
  | dress hplain => rw [hplain.added_eq, List.append_nil]
  | give | id | rename => exact (List.append_nil _).symm
  | identify hk | state hk _ | computed hk _ | bind hk _ | listen hk _ =>
    obtain ⟨_, rfl⟩ := hk.eq_with
    exact (List.append_nil _).symm
  | clear => exact (hclear rfl).elim

theorem tag_eq (h : Change limits n states c m states') (hclear : c ≠ .reset) : m.tag = n.tag := by
  cases h with
  | dress | append | give | id | rename => rfl
  | identify hk | state hk _ | computed hk _ | bind hk _ | listen hk _ =>
    obtain ⟨_, rfl⟩ := hk.eq_with
    rfl
  | clear => exact (hclear rfl).elim

theorem scope_eq (h : Change limits n states c m states') (hclear : c ≠ .reset) :
    m.scope = n.scope := by
  cases h with
  | dress | append | give | id | rename => rfl
  | identify hk | state hk _ | computed hk _ | bind hk _ | listen hk _ =>
    obtain ⟨_, rfl⟩ := hk.eq_with
    rfl
  | clear => exact (hclear rfl).elim

/-- The listeners of a node stay, are all dropped, or are joined by one that names the id of the
node. -/
theorem listeners_cases (h : Change limits n states c m states') :
    m.listeners = n.listeners ∨ m.listeners = [] ∨ ∃ event source l,
      c = .listen event l.targetId source ∧ m.listeners = n.listeners ++ [l] ∧
        m.id? = some l.nodeId := by
  cases h with
  | dress | append | give | id | rename => exact .inl rfl
  | identify hk | state hk _ | computed hk _ | bind hk _ =>
    obtain ⟨_, rfl⟩ := hk.eq_with
    exact .inl rfl
  | @listen k event source targetId hk _ =>
    have hsame : k.listeners = n.listeners := by
      obtain ⟨_, rfl⟩ := hk.eq_with
      rfl
    exact .inr (.inr ⟨event, source, _, rfl, congrArg (· ++ [_]) hsame, hk.id?_eq⟩)
  | clear => exact .inr (.inl rfl)

/-- Whatever captures something sees to an id first, so a node that captured something has an id
until it is given the empty one. -/
theorem isSome_id?_of_captures (h : Change limits n states c m states')
    (hblank : n.captures → c.givenId? ≠ some "") (hn : n.captures → n.id?.isSome)
    (hm : m.captures) : m.id?.isSome := by
  cases h with
  | dress _ hid =>
    rw [Element.id?_congr hid]
    exact hn hm
  | append => exact hn hm
  | @give _ value hname =>
    have hvalue : value ≠ "" := by
      rintro rfl
      exact hblank hm (by simp [Call.givenId?, hname])
    rw [n.id?_setAttribute hvalue]
    rfl
  | @id value _ | @rename _ value _ _ _ _ _ =>
    have hvalue : value ≠ "" := by
      rintro rfl
      exact hblank hm rfl
    rw [n.id?_setAttribute hvalue]
    rfl
  | identify hk | state hk _ | computed hk _ | bind hk _ | listen hk _ => exact hk.isSome
  | clear => cases hm

end Change

end Node

namespace Site

variable {s t : Site} {n m : Node} {c : Call}

/-- The states that calls on a node see: those of its document, or none. -/
def statesOf (s : Site) (n : Node) : States := (n.scope.map s.store).getD .empty

/-- The states of all documents after those of a scope came out as `states`. -/
def storesAfter (s : Site) (scope : Option Nat) (states : States) : List States :=
  match scope with
  | some k => s.stores.set k states
  | none => s.stores

theorem build_eq (s : Site) (n : Node) (c : Call) :
    ∃ sc : Scope, sc.settings = s.settingsOf n ∧ sc.states = s.statesOf n ∧
      (s.build n c).1 = (n.apply sc c).1 ∧ (s.build n c).2.settings = s.settings ∧
      (s.build n c).2.nodes = s.nodes ∧
      (s.build n c).2.stores = s.storesAfter n.scope (n.apply sc c).2.states := by
  unfold build within settingsOf statesOf storesAfter
  cases n.scope with
  | none => exact ⟨_, rfl, rfl, rfl, rfl, rfl, rfl⟩
  | some k =>
    refine ⟨s.shared k, rfl, rfl, rfl, rfl, rfl, ?_⟩
    dsimp only [setStore, report]
    rw [List.set_set]
    rfl

/-- A call on a node of a document, when it is known what comes out of the document's part. -/
theorem exists_build {k : Nat} (states : States) (hscope : n.scope = some k)
    (h : ∀ sc : Scope, sc.settings = s.settings → sc.states = s.store k →
      ∃ sc', n.apply sc c = (.ok m, sc') ∧ sc'.states = states) :
    ∃ t, s.build n c = (.ok m, t) ∧ t.stores = s.stores.set k states ∧
      t.settings = s.settings := by
  obtain ⟨sc, hsettings, hstates, hnode, hkept, -, hstores⟩ := s.build_eq n c
  rw [settingsOf, hscope] at hsettings
  rw [statesOf, hscope] at hstates
  obtain ⟨sc', happly, rfl⟩ := h sc hsettings hstates
  rw [happly, hscope] at hstores
  rw [happly] at hnode
  exact ⟨_, Prod.ext hnode rfl, hstores, hkept⟩

/-- A call on a site changes its node and the states of the node's document. -/
theorem change_build (h : s.build n c = (.ok m, t)) :
    ∃ states, n.Change (s.settingsOf n).limits (s.statesOf n) c m states ∧
      t.stores = s.storesAfter n.scope states := by
  obtain ⟨sc, hsettings, hstates, hnode, -, -, hstores⟩ := s.build_eq n c
  have happly : n.apply sc c = (.ok m, (n.apply sc c).2) := Prod.ext (by rw [← hnode, h]) rfl
  refine ⟨_, ?_, by rw [h] at hstores; exact hstores⟩
  rw [← hsettings, ← hstates]
  exact Node.change_apply happly

end Site
end Folio
