import Folio.Proofs.Page.Changes

/-! The states that a document records, under the ids of the nodes that captured them. A builder
call touches at most the records under the ids that its node has before and after, and a node's
state stays recorded under its id as long as only the calls that see to the record change that id.
-/
namespace Folio

namespace States

variable {old new i : String} {r : Except Crash Unit}

/-- What moving a key makes of a map. -/
inductive Moved (old new : String) (m : Ordered String Json) :
    Except Crash Unit → Ordered String Json → Prop
  | absent (h : m.get? old = none) : Moved old new m (.ok ()) m
  | placed {v : Json} (h : m.get? old = some v) (position : Nat) :
    Moved old new m (.ok ()) ((m.erase old).place position new v)
  | lost (e : Crash) : Moved old new m (.error e) (m.erase old)

/-- All that moving a key can come to. -/
theorem moveKey_cases (old new : String) (m : Ordered String Json) :
    (m.get? old = none ∧ moveKey old new m = (.ok (), m)) ∨
    ∃ position v, m.index? old = some position ∧ m.get? old = some v ∧
      ((∃ e, (m.erase old).contains new ∧ moveKey old new m = (.error e, m.erase old)) ∨
        moveKey old new m = (.ok (), (m.erase old).place position new v)) := by
  unfold moveKey
  split
  · next position v hposition hv =>
    refine .inr ⟨position, v, hposition, hv, ?_⟩
    dsimp only
    split
    · next hlast => exact .inl ⟨_, (Bool.and_eq_true_iff.1 hlast).1, rfl⟩
    · exact .inr rfl
  · next hnone =>
    refine .inl ⟨Option.eq_none_iff_forall_ne_some.2 fun v hv => ?_, rfl⟩
    have hplace : (m.index? old).isSome := by
      rw [Ordered.index?, Entries.isSome_index?, ← Ordered.get?, hv]
      rfl
    obtain ⟨position, hposition⟩ := Option.isSome_iff_exists.1 hplace
    exact hnone position v hposition hv

theorem moved_moveKey (old new : String) (m : Ordered String Json) :
    Moved old new m (moveKey old new m).1 (moveKey old new m).2 := by
  rcases moveKey_cases old new m with
    ⟨hnone, heq⟩ | ⟨position, v, -, hv, ⟨e, -, heq⟩ | heq⟩
  · exact heq ▸ .absent hnone
  · exact heq ▸ .lost e
  · exact heq ▸ .placed hv position

variable {states states' : States}

theorem moved_rename (h : states.rename old new = (r, states')) :
    Moved old new states.toOrdered r states'.toOrdered := by
  obtain ⟨rfl, rfl⟩ := Prod.mk.inj h
  rw [Indexed.toOrdered_ofOrdered]
  exact moved_moveKey old new states.toOrdered

namespace Moved

variable {m m' : Ordered String Json}

/-- A move leaves the other entries as they were; if it breaks off, the one under the new key too.
-/
theorem get?_of_ne (h : Moved old new m r m') (hold : i ≠ old) (hnew : r = .ok () → i ≠ new) :
    m'.get? i = m.get? i := by
  cases h with
  | absent _ => rfl
  | placed _ position =>
    rw [Ordered.get?_place_of_ne (hnew rfl), Ordered.get?_erase_of_ne hold]
  | lost e => exact Ordered.get?_erase_of_ne hold

theorem get?_self {v : Json} (h : Moved old new m (.ok ()) m') (hv : m.get? old = some v) :
    m'.get? new = some v := by
  cases h with
  | absent hnone => simp [hnone] at hv
  | placed hvalue position => rw [Ordered.get?_place_self, ← hvalue, hv]

end Moved

end States

/-- The state of an element, if it has one, is recorded under its id. -/
def Element.RecordedIn (states : States) (e : Element) : Prop :=
  ∀ v, e.state = some v →
    ∃ id, e.attributes.get? "id" = some id ∧ states.toOrdered.get? id = some v

theorem Element.RecordedIn.congr {states : States} {e f : Element} (h : e.RecordedIn states)
    (hstate : f.state = e.state)
    (hid : e.state.isSome → f.attributes.get? "id" = e.attributes.get? "id") :
    f.RecordedIn states := by
  intro v hv
  have hsome : e.state = some v := hstate.symm.trans hv
  rw [hid (by rw [hsome]; rfl)]
  exact h v hsome

/-- The calls that see to the record of a state when they change the id of its node. -/
inductive Call.Records : Call → Prop
  | id (value : String) : Call.Records (.id value)
  | state (value : Except String Json) : Call.Records (.state value)

namespace Node

variable {limits : Client.Limits} {n m : Node} {c : Call} {states states' : States} {i : String}

theorem Identified.get?_eq {k : Node} (h : n.Identified k) :
    k.attributes.get? "id" = some k.idText := (Element.get?_of_id? h.id?_eq).1

namespace Change

/-- Only records under the id of the node, before or after the call, are touched. -/
theorem get?_of_ne (h : n.Change limits states c m states')
    (hn : n.attributes.get? "id" ≠ some i) (hm : m.attributes.get? "id" ≠ some i) :
    states'.toOrdered.get? i = states.toOrdered.get? i := by
  cases h with
  | dress | append | give | id | identify | computed | bind | listen | clear => rfl
  | @rename previous value _ _ hid _ hmove =>
    refine (States.moved_rename hmove).get?_of_ne ?_ fun _ => ?_
    · rintro rfl
      exact hn hid
    · rintro rfl
      exact hm (Ordered.get?_insert_self n.attributes "id" i)
  | @state k hk value =>
    rw [Indexed.toOrdered_insert]
    have hne : i ≠ k.idText := by
      rintro rfl
      exact hm hk.get?_eq
    exact Ordered.get?_insert_of_ne hne value

/-- A state stays recorded, unless a call that does not see to its record changes the id. -/
theorem recordedIn (h : n.Change limits states c m states') (hn : n.RecordedIn states)
    (hrecords : n.state.isSome → m.attributes.get? "id" ≠ n.attributes.get? "id" → c.Records) :
    m.RecordedIn states' := by
  have hid (hc : ¬c.Records) (hstate : n.state.isSome) :
      m.attributes.get? "id" = n.attributes.get? "id" :=
    Classical.byContradiction fun hne => hc (hrecords hstate hne)
  cases h with
  | dress _ hsame => exact hn.congr rfl fun _ => hsame
  | append => exact hn
  | give => exact hn.congr rfl (hid nofun)
  | @id value hprevious =>
    intro v hv
    obtain ⟨previous, hget, hrecord⟩ := hn v hv
    rcases hprevious with hnone | hprevious
    · cases hnone.symm.trans hv
    · obtain rfl := hprevious previous hget
      exact ⟨previous, Ordered.get?_insert_self .., hrecord⟩
  | @rename previous value _ _ hget _ hmove =>
    intro v hv
    obtain ⟨id, hid, hrecord⟩ := hn v hv
    obtain rfl : previous = id := Option.some.inj (hget.symm.trans hid)
    exact ⟨value, Ordered.get?_insert_self .., (States.moved_rename hmove).get?_self hrecord⟩
  | identify hk | computed hk _ | bind hk _ | listen hk _ =>
    obtain ⟨_, rfl⟩ := hk.eq_with
    exact hn.congr rfl (hid nofun)
  | @state k hk value =>
    intro v hv
    obtain rfl := Option.some.inj hv
    refine ⟨k.idText, hk.get?_eq, ?_⟩
    rw [Indexed.toOrdered_insert, Ordered.get?_insert_self]
  | clear => exact nofun

end Change

/-- A call that breaks off was moving the state of its node, and the record is lost. -/
theorem moved_of_apply_error {sc sc' : Scope} {e : Crash} (h : n.apply sc c = (.error e, sc')) :
    ∃ previous value, n.attributes.get? "id" = some previous ∧
      States.Moved previous value sc.states.toOrdered (.error e) sc'.states.toOrdered := by
  cases c <;> simp only [apply, Prod.mk.injEq, reduceCtorEq, false_and] at h
  next value =>
    rcases n.rename_cases sc value with
      ⟨heq, -⟩ | ⟨previous, moved, states, -, hid, -, hmoved, heq⟩
    · cases heq.symm.trans h
    · obtain ⟨he, rfl⟩ := Prod.mk.inj (heq.symm.trans h)
      cases moved with
      | error e =>
        obtain rfl := Except.error.inj he
        exact ⟨previous, value, hid, States.moved_rename hmoved⟩
      | ok _ => cases he

end Node

namespace Site

variable {s t : Site} {n m : Node} {c : Call} {e : Crash} {scope : Nat} {i : String}

theorem store_of_storesAfter {states : States} (h : t.stores = s.storesAfter n.scope states)
    (hscope : scope < s.stores.length) :
    t.store scope = if n.scope = some scope then states else s.store scope := by
  unfold store
  rw [h]
  unfold storesAfter
  cases n.scope with
  | none => simp
  | some k =>
    simp only [List.getD_eq_getElem?_getD, List.getElem?_set, Option.some.injEq]
    by_cases hk : k = scope
    · simp [hk, hscope]
    · simp [hk]

/-- A call touches no record of a document but those under the id of a node of that document. -/
theorem get?_store_build (h : s.build n c = (.ok m, t)) (hscope : scope < s.stores.length)
    (hids : n.scope = some scope →
      n.attributes.get? "id" ≠ some i ∧ m.attributes.get? "id" ≠ some i) :
    (t.store scope).toOrdered.get? i = (s.store scope).toOrdered.get? i := by
  obtain ⟨states, hchange, hstores⟩ := change_build h
  rw [store_of_storesAfter hstores hscope]
  split
  · next hn =>
    obtain ⟨hbefore, hafter⟩ := hids hn
    rw [hchange.get?_of_ne hbefore hafter, statesOf, hn]
    rfl
  · rfl

/-- A call that breaks off touches no record but the one of its own node. -/
theorem get?_store_build_error (h : s.build n c = (.error e, t)) (hscope : scope < s.stores.length)
    (hid : n.scope = some scope → n.attributes.get? "id" ≠ some i) :
    (t.store scope).toOrdered.get? i = (s.store scope).toOrdered.get? i := by
  obtain ⟨sc, -, hstates, hnode, -, -, hstores⟩ := s.build_eq n c
  have happly : n.apply sc c = (.error e, (n.apply sc c).2) := Prod.ext (by rw [← hnode, h]) rfl
  rw [h] at hstores
  rw [store_of_storesAfter hstores hscope]
  split
  · next hn =>
    obtain ⟨previous, value, hprevious, hmoved⟩ := Node.moved_of_apply_error happly
    have hne : i ≠ previous := by
      rintro rfl
      exact hid hn hprevious
    rw [hmoved.get?_of_ne hne nofun, hstates, statesOf, hn]
    rfl
  · rfl

/-- A call leaves its node in the same document, unless it clears it. -/
theorem scope_build (h : s.build n c = (.ok m, t)) :
    m.scope = n.scope ∨ m = Reusable.fresh := by
  obtain ⟨states, hchange, -⟩ := change_build h
  by_cases hclear : c = .reset
  · subst hclear
    exact .inr hchange.eq_fresh
  · exact .inl (hchange.scope_eq hclear)

/-- The node of a call keeps its state recorded, under the condition of a single change. -/
theorem recordedIn_build (h : s.build n c = (.ok m, t)) (hscope : scope < s.stores.length)
    (hnode : n.scope = some scope) (hn : n.RecordedIn (s.store scope))
    (hrecords : n.state.isSome → m.attributes.get? "id" ≠ n.attributes.get? "id" → c.Records) :
    m.RecordedIn (t.store scope) := by
  obtain ⟨states, hchange, hstores⟩ := change_build h
  have hstates : s.statesOf n = s.store scope := by
    rw [statesOf, hnode]
    rfl
  rw [store_of_storesAfter hstores hscope, if_pos hnode]
  exact hchange.recordedIn (hstates ▸ hn) hrecords

end Site

end Folio
