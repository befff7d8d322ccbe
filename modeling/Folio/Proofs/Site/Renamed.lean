import Folio.Proofs.Site.Followed

/-! New ids and the recorded states. An id that takes a record along replaces the key of the record
where it stands, and no other record is touched, as long as nothing is recorded under the new id. An
id under which another node recorded its state does harm: the call breaks off, or the other record
is lost. -/
namespace Folio

universe u v

namespace Entries

variable {α : Type u} {β : Type v} [DecidableEq α] {old new k : α} {es : List (α × β)}

/-- The same entries, of which one has another key. -/
def relabel (old new : α) (es : List (α × β)) : List (α × β) :=
  es.map fun e => if e.1 = old then (new, e.2) else e

theorem relabel_of_not_mem (h : old ∉ es.map Prod.fst) : relabel old new es = es := by
  have hsame : ∀ e ∈ es, (if e.1 = old then (new, e.2) else e) = e := by
    intro e he
    have hne : e.1 ≠ old := fun heq => h (heq ▸ List.mem_map_of_mem he)
    exact if_neg hne
  exact (List.map_congr_left hsame).trans (List.map_id' es)

theorem getElem?_relabel {i : Nat} {v : β} (h : es[i]? = some (k, v)) (hne : k ≠ old) :
    (relabel old new es)[i]? = some (k, v) := by
  rw [relabel, List.getElem?_map, h, Option.map_some, if_neg hne]

/-- Taking an entry out and putting it back where it was changes no more than its key. -/
theorem insertAt_erase {position : Nat} {v : β} (hnodup : (es.map Prod.fst).Nodup)
    (hposition : index? old es = some position) (hv : get? old es = some v) :
    insertAt position (new, v) (erase old es) = relabel old new es := by
  induction es generalizing position with
  | nil => cases hv
  | cons e es ih =>
    obtain ⟨k, w⟩ := e
    rw [List.map_cons, List.nodup_cons] at hnodup
    by_cases hk : k = old
    · subst hk
      obtain rfl : 0 = position := by simpa [index?] using hposition
      obtain rfl : w = v := by simpa [get?] using hv
      have hrest : relabel k new es = es := relabel_of_not_mem hnodup.1
      rw [relabel, List.map_cons, ← relabel, hrest, erase, if_pos rfl, if_pos rfl]
      rfl
    · rw [index?, if_neg hk, Option.map_eq_some_iff] at hposition
      obtain ⟨before, hbefore, rfl⟩ := hposition
      rw [get?, if_neg hk] at hv
      rw [relabel, List.map_cons, ← relabel, ← ih hnodup.2 hbefore hv, erase, if_neg hk, if_neg hk]
      rfl

end Entries

namespace States

variable {old new : String}

/-- A key moves in place if it is free, or if there is nothing to move. -/
theorem moveKey_of_free {m : Ordered String Json} (h : old ∈ m.keys → new ∉ m.keys) :
    (moveKey old new m).1 = .ok () ∧
      (moveKey old new m).2.entries = Entries.relabel old new m.entries := by
  rcases moveKey_cases old new m with ⟨hnone, heq⟩ | ⟨position, v, hposition, hv, hmove⟩
  · rw [heq]
    exact ⟨rfl, (Entries.relabel_of_not_mem (Entries.get?_eq_none_iff.1 hnone)).symm⟩
  · have hold : old ∈ m.keys := List.mem_map_of_mem (Entries.mem_of_get? hv)
    have hnew : new ∉ (m.erase old).keys := fun hk => h hold (Entries.mem_keys_erase hk)
    have hnone : (m.erase old).get? new = none := Entries.get?_eq_none_iff.2 hnew
    rcases hmove with ⟨e, hcontains, -⟩ | heq
    · rw [Ordered.contains, hnone] at hcontains
      cases hcontains
    · rw [heq]
      refine ⟨rfl, ?_⟩
      change Entries.insertAt position (new, v) (Entries.erase new (m.erase old).entries) = _
      rw [Entries.erase_of_not_mem hnew]
      exact Entries.insertAt_erase m.nodup_keys hposition hv

theorem rename_of_free {states : States}
    (h : old ∈ states.toOrdered.keys → new ∉ states.toOrdered.keys) :
    (states.rename old new).1 = .ok () ∧
      (states.rename old new).2.entries = Entries.relabel old new states.entries := by
  rw [rename, Indexed.entries, Indexed.toOrdered_ofOrdered]
  exact moveKey_of_free h

end States

/-- A new id takes a record along: the element has a state, and another id until now, under which
something is recorded. -/
structure Element.TakesAlong (e : Element) (states : States) (previous value : String) : Prop where
  state : e.state.isSome
  id : e.attributes.get? "id" = some previous
  ne : previous ≠ value
  recorded : previous ∈ states.toOrdered.keys

namespace Node

theorem rename_of_free (n : Node) (sc : Scope) (value : String)
    (h : ∀ previous, n.TakesAlong sc.states previous value → value ∉ sc.states.toOrdered.keys) :
    ∃ states, n.rename sc value = (.ok (n.setAttribute "id" value), { sc with states }) ∧
      (∀ previous, n.TakesAlong sc.states previous value →
        states.entries = Entries.relabel previous value sc.states.entries) ∧
      ∀ (i : Nat) (id : String) (v : Json), ¬n.TakesAlong sc.states id value →
        sc.states.entries[i]? = some (id, v) → states.entries[i]? = some (id, v) := by
  rcases n.rename_cases sc value with
    ⟨heq, hstay⟩ | ⟨previous, moved, states, hstate, hid, hne, hmoved, heq⟩
  · refine ⟨sc.states, heq, fun previous htakes => ?_, fun i id v _ hentry => hentry⟩
    rcases hstay with hnone | hsame
    · have hstate := htakes.state
      rw [hnone] at hstate
      cases hstate
    · exact (htakes.ne (hsame previous htakes.id)).elim
  · have hfree : previous ∈ sc.states.toOrdered.keys → value ∉ sc.states.toOrdered.keys :=
      fun hrecorded => h previous ⟨hstate, hid, hne, hrecorded⟩
    obtain ⟨hok, hentries⟩ := States.rename_of_free hfree
    rw [hmoved] at hok hentries
    subst hok
    refine ⟨states, heq, fun other htakes => ?_, fun i id v htakes hentry => ?_⟩
    · obtain rfl : previous = other := Option.some.inj (hid.symm.trans htakes.id)
      exact hentries
    · rw [hentries]
      refine Entries.getElem?_relabel hentry ?_
      rintro rfl
      have hkey : id ∈ sc.states.toOrdered.keys := List.mem_map_of_mem (List.mem_of_getElem? hentry)
      exact htakes ⟨hstate, hid, hne, hkey⟩

end Node

namespace Bench

/-- Two paragraphs of a document that captured states, each under an id of its own. -/
theorem exists_holders (v w : Json) :
    ∃ a b : Bench, a.hand = [] ∧ a.Run (fun _ act b => act.Tracks 0 ∧ b.Apart 0) b ∧
      b.hand = [.element { holder "x" w with number := 1 } [], .element (holder "k" v) []] ∧
      0 < b.site.stores.length ∧
      (b.site.store 0).toOrdered = ⟨[("k", v), ("x", w)], by simp⟩ := by
  let a : Bench := ⟨((Site.ofSettings {} .silent 0).newDocument {}).2, [], 0⟩
  have hstores : a.site.stores = [.empty] := rfl
  have hpool : a.site.nodes.Reached := .empty 1024 Pool.nodeNames
  have hapart : a.Apart 0 := List.nodup_nil
  obtain ⟨b, hrun, hhand, hgiven, hstores, hpool⟩ := exists_held hstores hpool
    hapart "k" (by decide) nofun v
  have hapart : b.Apart 0 := hrun.keeps (fun _ hok _ => hok.2) hapart
  have hothers : ∀ q ∈ b.elements, q.element.idIn 0 ≠ some "x" := by
    rw [elements, hhand]
    exact List.forall_mem_singleton.2 fun h => absurd (Option.some.inj h) (by decide)
  obtain ⟨c, hrun', hhand', -, hstores', -⟩ := exists_held hstores hpool hapart "x"
    (by decide) hothers w
  have hstore : c.site.store 0 = (Indexed.empty.insert "k" v).insert "x" w := by
    rw [Site.store, hstores']
    rfl
  refine ⟨a, c, rfl, hrun.trans hrun', ?_, ?_, ?_⟩
  · rw [hhand', hhand, hgiven]
    rfl
  · rw [hstores']
    exact Nat.one_pos
  · rw [hstore, Indexed.toOrdered_insert, Indexed.toOrdered_insert]
    rfl

end Bench

namespace Site

variable {s : Site} {scope : Nat}

theorem lt_length_of_mem_store {id : String} (h : id ∈ (s.store scope).toOrdered.keys) :
    scope < s.stores.length := by
  by_contra hlength
  rw [store, List.getD_eq_getElem?_getD, List.getElem?_eq_none (Nat.le_of_not_lt hlength)] at h
  cases h

/-- Where something is recorded there is a document, whose states come out of a call as they are. -/
theorem statesOf_of_storesAfter {t : Site} {n : Node} {states : States} {id : String}
    (h : t.stores = s.storesAfter n.scope states)
    (hrecorded : id ∈ (s.statesOf n).toOrdered.keys) : t.statesOf n = states := by
  unfold statesOf at hrecorded ⊢
  cases hscope : n.scope with
  | none =>
    rw [hscope] at hrecorded
    cases hrecorded
  | some k =>
    rw [hscope] at hrecorded
    have hstore := store_of_storesAfter h (lt_length_of_mem_store hrecorded)
    rwa [if_pos hscope] at hstore

/-- What a new id comes to where there is a state to move. -/
theorem build_id {n : Node} {v : Json} {previous : String} {r : Except Crash Unit}
    {m : Ordered String Json} (value : String) (hscope : n.scope = some scope)
    (hlength : scope < s.stores.length) (hstate : n.state = some v)
    (hid : n.attributes.get? "id" = some previous) (hne : previous ≠ value)
    (hmove : States.moveKey previous value (s.store scope).toOrdered = (r, m)) :
    ∃ t, s.build n (.id value) = (r.map fun _ => n.setAttribute "id" value, t) ∧
      (t.store scope).toOrdered = m := by
  obtain ⟨sc, -, hstates, hnode, -, -, hstores⟩ := s.build_eq n (.id value)
  rw [statesOf, hscope] at hstates
  have hrename : sc.states.rename previous value = (r, .ofOrdered m) := by
    rw [States.rename, hstates]
    exact congrArg (fun moved => (moved.1, Indexed.ofOrdered moved.2)) hmove
  have happly : n.apply sc (.id value) =
      (r.map fun _ => n.setAttribute "id" value, { sc with states := .ofOrdered m }) := by
    simp only [Node.apply, Node.rename, hstate, hid, if_neg hne, hrename]
  rw [happly] at hnode hstores
  refine ⟨_, Prod.ext hnode rfl, ?_⟩
  rw [store_of_storesAfter hstores hlength, if_pos hscope, Indexed.toOrdered_ofOrdered]

/-- A new id completes, whatever it is, and if it takes the record of its node along, the record
keeps its value and its place; every other record of every document stays as it is, under its id, at
its place. For the ids that take a record along, nothing may be recorded under them. -/
theorem rename_spares (s : Site) (n : Node) (value : String)
    (h : ∀ previous, n.TakesAlong (s.statesOf n) previous value →
      value ∉ (s.statesOf n).toOrdered.keys) :
    ∃ t, s.build n (.id value) = (.ok (n.setAttribute "id" value), t) ∧
      (∀ previous, n.TakesAlong (s.statesOf n) previous value →
        (t.statesOf n).entries = Entries.relabel previous value (s.statesOf n).entries) ∧
      ∀ (scope i : Nat) (id : String) (v : Json), (s.store scope).entries[i]? = some (id, v) →
        (n.scope = some scope → ¬n.TakesAlong (s.statesOf n) id value) →
        (t.store scope).entries[i]? = some (id, v) := by
  obtain ⟨sc, -, hstates, hnode, -, -, hstores⟩ := s.build_eq n (.id value)
  rw [← hstates] at h ⊢
  obtain ⟨states, hrename, hmoved, hkept⟩ := n.rename_of_free sc value h
  change (s.build n (.id value)).1 = (n.rename sc value).1 at hnode
  change _ = s.storesAfter n.scope (n.rename sc value).2.states at hstores
  rw [hrename] at hnode hstores
  refine ⟨(s.build n (.id value)).2, Prod.ext hnode rfl, fun previous htakes => ?_,
    fun scope i id v hentry hother => ?_⟩
  · rw [statesOf_of_storesAfter hstores (hstates ▸ htakes.recorded)]
    exact hmoved previous htakes
  · have hlength : scope < s.stores.length :=
      lt_length_of_mem_store (List.mem_map_of_mem (List.mem_of_getElem? hentry))
    rw [store_of_storesAfter hstores hlength]
    split
    · next hscope =>
      refine hkept i id v (hother hscope) ?_
      rw [hstates, statesOf, hscope]
      exact hentry
    · exact hentry

theorem rename_spares_neighbour :
    ∃ (a b : Bench) (t : Site), a.hand = [] ∧
      a.Run (fun _ act b => act.Tracks 0 ∧ b.Apart 0) b ∧
      b.hand = [.element { Bench.holder "x" (.string "w") with number := 1 } [],
        .element (Bench.holder "k" (.string "v")) []] ∧
      (b.site.store 0).entries = [("k", .string "v"), ("x", .string "w")] ∧
      b.site.build ((Bench.holder "k" (.string "v")).node []) (.id "y") =
        (.ok ((Bench.holder "y" (.string "v")).node []), t) ∧
      (t.store 0).entries = [("y", .string "v"), ("x", .string "w")] := by
  obtain ⟨a, b, ha, hrun, hhand, -, hstore⟩ := Bench.exists_holders (.string "v") (.string "w")
  have hentries : (b.site.store 0).entries = [("k", .string "v"), ("x", .string "w")] :=
    congrArg Ordered.entries hstore
  let n := (Bench.holder "k" (.string "v")).node []
  have hstates : (b.site.statesOf n).toOrdered = (b.site.store 0).toOrdered := rfl
  have hkeys : (b.site.statesOf n).toOrdered.keys = ["k", "x"] := by
    rw [hstates, hstore]
    rfl
  have htakes : n.TakesAlong (b.site.statesOf n) "k" "y" :=
    ⟨rfl, rfl, by decide, hkeys ▸ List.mem_cons_self⟩
  have hfree : "y" ∉ (b.site.statesOf n).toOrdered.keys := by
    rw [hkeys]
    decide
  obtain ⟨t, hbuild, hmoved, -⟩ := rename_spares b.site n "y" fun _ _ => hfree
  refine ⟨a, b, t, ha, hrun, hhand, hentries, hbuild, ?_⟩
  refine (hmoved "k" htakes).trans ?_
  change Entries.relabel "k" "y" (b.site.store 0).entries = _
  rw [hentries]
  rfl

/-- An id under which another paragraph recorded its state: the later of the two paragraphs is lost
with its record, and the earlier one takes over the record of the later one. -/
theorem rename_onto_neighbour :
    ∃ (a b : Bench) (e : Crash) (t u : Site), a.hand = [] ∧
      a.Run (fun _ act b => act.Tracks 0 ∧ b.Apart 0) b ∧
      b.hand = [.element { Bench.holder "x" (.string "w") with number := 1 } [],
        .element (Bench.holder "k" (.string "v")) []] ∧
      (b.site.store 0).entries = [("k", .string "v"), ("x", .string "w")] ∧
      b.site.build ((Bench.holder "x" (.string "w")).node []) (.id "k") = (.error e, t) ∧
      (t.store 0).entries = [("k", .string "v")] ∧
      b.site.build ((Bench.holder "k" (.string "v")).node []) (.id "x") =
        (.ok ((Bench.holder "x" (.string "v")).node []), u) ∧
      (u.store 0).entries = [("x", .string "v")] := by
  obtain ⟨a, b, ha, hrun, hhand, hlength, hstore⟩ :=
    Bench.exists_holders (.string "v") (.string "w")
  obtain ⟨t, hlost, ht⟩ := build_id (s := b.site)
    (n := (Bench.holder "x" (.string "w")).node []) "k" rfl hlength rfl rfl (by decide)
    (congrArg (States.moveKey "x" "k") hstore)
  obtain ⟨u, htaken, hu⟩ := build_id (s := b.site)
    (n := (Bench.holder "k" (.string "v")).node []) "x" rfl hlength rfl rfl (by decide)
    (congrArg (States.moveKey "k" "x") hstore)
  exact ⟨a, b, _, t, u, ha, hrun, hhand, congrArg Ordered.entries hstore, hlost,
    congrArg Ordered.entries ht, htaken, congrArg Ordered.entries hu⟩

end Site

end Folio
