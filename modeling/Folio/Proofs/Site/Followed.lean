import Folio.Proofs.Page.Recorded
import Folio.Proofs.Site.Bench

/-! Captured states through changes of ids. As long as no two elements of a document have the same
id, and an element that holds a state is given another id only by the calls that see to its record,
the document records every state under the id that its element has. An attribute whose name comes to
`id` changes the id as well, but leaves the record where it was. -/
namespace Folio

namespace Element

variable {e : Element} {scope : Nat}

/-- The id of an element of a document, even if it is empty. -/
def idIn (scope : Nat) (e : Element) : Option String :=
  if e.scope = some scope then e.attributes.get? "id" else none

theorem idIn_eq (h : e.scope = some scope) : e.idIn scope = e.attributes.get? "id" := if_pos h

end Element

namespace Bench

/-- The document is one of the site, whose pool is as its operations left it. -/
structure Ready (scope : Nat) (b : Bench) : Prop where
  lt_length : scope < b.site.stores.length
  reached : b.site.nodes.Reached

/-- No two elements of a document have the same id. -/
def Apart (scope : Nat) (b : Bench) : Prop :=
  (b.elements.filterMap fun q => q.element.idIn scope).Nodup

/-- Every state that an element of a document holds is recorded under the id of the element. -/
def Recorded (scope : Nat) (b : Bench) : Prop :=
  ∀ q ∈ b.elements, q.element.scope = some scope → q.element.RecordedIn (b.site.store scope)

/-- An element that holds a state is given another id only by calls that see to the record. -/
def Act.Tracks (scope : Nat) : Act → Prop
  | .call own c own' =>
    own.element.scope = some scope → own.element.state.isSome →
      own'.element.attributes.get? "id" ≠ own.element.attributes.get? "id" → c.Records
  | .create | .lose => True

variable {scope : Nat} {b b' : Bench} {act : Act} {own q : Numbered} {others : List Numbered}
  {i : String}

theorem Apart.of_perm (h : b.Apart scope) (hperm : b.elements.Perm (own :: others)) :
    ((own :: others).filterMap fun q => q.element.idIn scope).Nodup :=
  (hperm.filterMap _).nodup_iff.1 h

theorem get?_ne_of_apart (h : ((own :: others).filterMap fun q => q.element.idIn scope).Nodup)
    (hq : q ∈ others) (hqscope : q.element.scope = some scope)
    (hi : q.element.attributes.get? "id" = some i) (hown : own.element.scope = some scope) :
    own.element.attributes.get? "id" ≠ some i := by
  intro hget
  have hownid : own.element.idIn scope = some i := (Element.idIn_eq hown).trans hget
  have hqid : q.element.idIn scope = some i := (Element.idIn_eq hqscope).trans hi
  have hcons := List.filterMap_cons_some (f := fun q : Numbered => q.element.idIn scope)
    (l := others) hownid
  rw [hcons, List.nodup_cons] at h
  exact h.1 (List.mem_filterMap.2 ⟨q, hq, hqid⟩)

theorem apart_of_singleton (h : b.elements = [q]) : b.Apart scope := by
  rw [Apart, h, List.filterMap_cons]
  cases q.element.idIn scope with
  | none => exact List.nodup_nil
  | some id => exact List.pairwise_singleton ..

/-- One element more, with an id that no other has. -/
theorem Apart.cons {c : Bench} (hb : b.Apart scope) (h : c.elements = q :: b.elements)
    (hq : ∀ i, q.element.idIn scope = some i → ∀ r ∈ b.elements, r.element.idIn scope ≠ some i) :
    c.Apart scope := by
  rw [Apart, h, List.filterMap_cons]
  split
  · exact hb
  · next i hi =>
    refine List.nodup_cons.2 ⟨fun hmem => ?_, hb⟩
    obtain ⟨r, hr, hri⟩ := List.mem_filterMap.1 hmem
    exact hq i hi r hr hri

/-- Elements whose records a step did not touch keep them. -/
theorem recordedIn_of_get?_eq {e : Element} {states states' : States} (he : e.RecordedIn states)
    (h : ∀ i, e.attributes.get? "id" = some i →
      states'.toOrdered.get? i = states.toOrdered.get? i) : e.RecordedIn states' := by
  intro v hv
  obtain ⟨id, hid, hrecord⟩ := he v hv
  exact ⟨id, hid, (h id hid).trans hrecord⟩

/-- One step keeps the states of a document recorded. -/
theorem Recorded.step (hb : b.Recorded scope) (h : b.Step act b') (hready : b.Ready scope)
    (hapart : b.Apart scope) (hapart' : b'.Apart scope) (htracks : act.Tracks scope) :
    b'.Recorded scope := by
  obtain ⟨hscope, hpool⟩ := hready
  intro q hq hqscope
  cases act with
  | create =>
    obtain ⟨tag, made, helements, -, hstores⟩ := h.elements_create hpool
    have hstore : b'.site.store scope = b.site.store scope := by
      rw [Site.store, hstores, Site.store]
    rw [helements] at hq
    rw [hstore]
    rcases List.mem_cons.1 hq with rfl | hq
    · intro v hv
      cases hv
    · exact hb q hq hqscope
  | call own c own' =>
    obtain ⟨below, m, target, others, others', hbuild, rfl, -, hperm, helements, hsub, -⟩ :=
      h.elements_call
    rw [helements] at hq
    rw [Apart, helements] at hapart'
    have hown : m.scope = some scope → own.element.scope = some scope := by
      rcases Site.scope_build hbuild with hsame | rfl
      · exact hsame.symm.trans
      · intro hm
        cases hm
    rcases List.mem_cons.1 hq with rfl | hq
    · have hmem : own ∈ b.elements := hperm.mem_iff.2 List.mem_cons_self
      exact Site.recordedIn_build hbuild hscope (hown hqscope) (hb own hmem (hown hqscope))
        (htracks (hown hqscope))
    · have hmem : q ∈ others := hsub.subset hq
      refine recordedIn_of_get?_eq (hb q (hperm.mem_iff.2 (List.mem_cons_of_mem _ hmem)) hqscope)
        fun i hi => ?_
      refine Site.get?_store_build hbuild hscope fun hownscope => ?_
      refine ⟨get?_ne_of_apart (hapart.of_perm hperm) hmem hqscope hi hownscope, ?_⟩
      rcases Site.scope_build hbuild with hsame | rfl
      · exact get?_ne_of_apart hapart' hq hqscope hi (hsame.trans hownscope)
      · intro hi
        cases hi
  | lose =>
    obtain ⟨own, others, hperm, hsub, -, hsite⟩ := h.elements_lose
    have hmem : q ∈ others := hsub.subset hq
    have hrecorded := hb q (hperm.mem_iff.2 (List.mem_cons_of_mem _ hmem)) hqscope
    rcases hsite with hsite | ⟨below, c, e, hbuild⟩
    · rwa [hsite]
    · refine recordedIn_of_get?_eq hrecorded fun i hi => ?_
      exact Site.get?_store_build_error hbuild hscope fun hown =>
        get?_ne_of_apart (hapart.of_perm hperm) hmem hqscope hi hown

theorem Ready.step (hb : b.Ready scope) (h : b.Step act b') : b'.Ready scope :=
  ⟨h.length_stores ▸ hb.lt_length, h.reached hb.reached⟩

theorem tracks_of_state_eq_none {own' : Numbered} {c : Call} (h : own.element.state = none) :
    (Act.call own c own').Tracks scope := by
  intro _ hstate
  rw [h] at hstate
  cases hstate

/-! A paragraph that captured a state -/

/-- The paragraph, under an id. -/
def holder (id : String) (v : Json) : Numbered where
  number := 0
  element :=
    { tag := "p", attributes := Ordered.empty.insert "id" id, state := some v
      scope := some 0 }

/-- On a bench with one document, another paragraph can capture a state under an id that no element
has. -/
theorem exists_held {states : States} (hstores : b.site.stores = [states])
    (hpool : b.site.nodes.Reached) (hapart : b.Apart 0) (id : String) (hid : id ≠ "")
    (hfree : ∀ q ∈ b.elements, q.element.idIn 0 ≠ some id) (v : Json) :
    ∃ c : Bench, b.Run (fun _ act c => act.Tracks 0 ∧ c.Apart 0) c ∧
      c.hand = .element { holder id v with number := b.given } [] :: b.hand ∧
      c.given = b.given + 1 ∧ c.site.stores = [states.insert id v] ∧ c.site.nodes.Reached := by
  let made : Numbered := ⟨b.given, { tag := "p", scope := some 0 }, []⟩
  let named : Numbered :=
    { made with element := { made.element with attributes := Ordered.empty.insert "id" id } }
  let held : Numbered := { holder id v with number := b.given }
  have hgiven : (named.node []).id?.isSome := by
    rw [Element.id?_of_get? (Ordered.get?_insert_self ..) hid]
    rfl
  obtain ⟨s₁, hcreate⟩ : ∃ t, b.site.create { scope := 0 } "p" = (.ok (made.node []), t) := by
    refine ⟨b.site.acquireNode.2, ?_⟩
    change (Except.ok { b.site.nodes.acquire.1 with tag := "p", scope := some 0 }, _) = _
    rw [hpool.acquire_eq_fresh]
    rfl
  have hstores₁ : s₁.stores = [states] := (create_site hcreate).2.trans hstores
  have hstates₁ : s₁.store 0 = states := by rw [Site.store, hstores₁]; rfl
  obtain ⟨s₂, hgive, hstores₂, -⟩ := Site.exists_build (s := s₁) (n := made.node [])
    (m := named.node []) (c := .id id) (k := 0) states rfl
    fun sc _ hstates => ⟨sc, rfl, hstates.trans hstates₁⟩
  rw [hstores₁] at hstores₂
  have hstates₂ : s₂.store 0 = states := by rw [Site.store, hstores₂]; rfl
  obtain ⟨s₃, hcapture, hstores₃, -⟩ := Site.exists_build (s := s₂) (n := named.node [])
    (m := held.node []) (c := .state (.ok v)) (k := 0) (states.insert id v) rfl
    fun sc _ hstates => by
      refine ⟨{ sc with states := sc.states.insert id v }, ?_, ?_⟩
      · have hheld : (named.node []).capture sc v =
            (held.node [], { sc with states := sc.states.insert id v }) := by
          rw [Node.capture, Node.ensureId_eq_self hgiven]
          rfl
        exact congrArg (fun r => (Except.ok r.1, r.2)) hheld
      · exact congrArg (·.insert id v) (hstates.trans hstates₂)
  rw [hstores₂] at hstores₃
  have hcreated : Step b .create ⟨s₁, .element made [] :: b.hand, b.given + 1⟩ :=
    .create (n := made.node []) hcreate
  have hnamed : Step _ (.call made (.id id) named) ⟨s₂, .element named [] :: b.hand, b.given + 1⟩ :=
    .plain (b := ⟨s₁, _, b.given + 1⟩) (.refl _) rfl (by simp) (.none rfl) hgive rfl
  have hheld : Step _ (.call named (.state (.ok v)) held)
      ⟨s₃, .element held [] :: b.hand, b.given + 1⟩ :=
    .plain (b := ⟨s₂, _, b.given + 1⟩) (.refl _) rfl (by simp) (.none rfl) hcapture rfl
  have hnone : ∀ i, (none : Option String) = some i →
      ∀ q ∈ b.elements, q.element.idIn 0 ≠ some i := by
    intro i hi
    cases hi
  have hothers : ∀ i, some id = some i → ∀ q ∈ b.elements, q.element.idIn 0 ≠ some i :=
    fun i hi => Option.some.inj hi ▸ hfree
  have hrun : b.Run (fun _ act c => act.Tracks 0 ∧ c.Apart 0) ⟨s₃, _, b.given + 1⟩ :=
    ((Relation.ReflTransGen.single ⟨_, hcreated, trivial, hapart.cons rfl hnone⟩).tail
      ⟨_, hnamed, tracks_of_state_eq_none rfl, hapart.cons rfl hothers⟩).tail
      ⟨_, hheld, tracks_of_state_eq_none rfl, hapart.cons rfl hothers⟩
  exact ⟨_, hrun, rfl, rfl, hstores₃, hheld.reached (hnamed.reached (hcreated.reached hpool))⟩

theorem exists_holder (v : Json) :
    ∃ a b : Bench, a.hand = [] ∧ a.Ready 0 ∧
      a.Run (fun _ act b => act.Tracks 0 ∧ b.Apart 0) b ∧ b.hand = [.element (holder "k" v) []] ∧
      ∃ states, b.site.stores = [states] ∧
        states.toOrdered = ⟨[("k", v)], List.pairwise_singleton ..⟩ := by
  let a : Bench := ⟨((Site.ofSettings {} .silent 0).newDocument {}).2, [], 0⟩
  have hstores : a.site.stores = [.empty] := rfl
  have hpool : a.site.nodes.Reached := .empty 1024 Pool.nodeNames
  obtain ⟨b, hrun, hhand, -, hstores, -⟩ := exists_held hstores hpool List.nodup_nil "k" (by decide)
    nofun v
  refine ⟨a, b, rfl, ⟨by decide, hpool⟩, hrun, hhand, _, hstores, ?_⟩
  rw [Indexed.toOrdered_insert]
  rfl

/-- From a bench on which the states of a document are recorded, such as one without nodes, any
number of steps leads to benches on which they are, provided that no two elements of the document
ever have the same id, and that an element with a state gets another id only by the calls that see
to the record. -/
theorem recorded_of_run (hready : b.Ready scope) (hapart : b.Apart scope)
    (hrecorded : b.Recorded scope)
    (h : b.Run (fun _ act b => act.Tracks scope ∧ b.Apart scope) b') : b'.Recorded scope := by
  refine (h.keeps (P := fun b => b.Ready scope ∧ b.Apart scope ∧ b.Recorded scope)
    (fun hstep hok hb => ?_) ⟨hready, hapart, hrecorded⟩).2.2
  obtain ⟨hready, hapart, hrecorded⟩ := hb
  exact ⟨hready.step hstep, hok.2, hrecorded.step hstep hready hapart hok.2 hok.1⟩

theorem recorded_of_run_renamed :
    ∃ a b : Bench, a.hand = [] ∧ a.Run (fun _ act b => act.Tracks 0 ∧ b.Apart 0) b ∧
      b.hand = [.element (holder "x" (.string "v")) []] ∧ b.Recorded 0 := by
  obtain ⟨a, b, ha, hready, hrun, hhand, states, hstores, hstates⟩ := exists_holder (.string "v")
  have hmoved : (states.rename "k" "x").1 = .ok () := by
    rw [States.rename, hstates]
    rfl
  have hstore : b.site.store 0 = states := by rw [Site.store, hstores]; rfl
  have hbuild : ∃ t, b.site.build ((holder "k" (.string "v")).node []) (.id "x") =
      (.ok ((holder "x" (.string "v")).node []), t) ∧
        t.stores = b.site.stores.set 0 (states.rename "k" "x").2 ∧
        t.settings = b.site.settings := by
    refine Site.exists_build _ rfl fun sc _ hsc => ?_
    obtain rfl : sc.states = states := hsc.trans hstore
    refine ⟨{ sc with states := (sc.states.rename "k" "x").2 }, ?_, rfl⟩
    change (Except.map _ (sc.states.rename "k" "x").1, _) = _
    rw [hmoved]
    rfl
  obtain ⟨t, hrename, -⟩ := hbuild
  have hrenamed : Step b (.call _ (.id "x") (holder "x" (.string "v"))) _ :=
    .plain (.of_eq hhand) rfl (by simp) (.none rfl) hrename rfl
  have hrun' := hrun.tail ⟨_, hrenamed, fun _ _ _ => .id "x", apart_of_singleton rfl⟩
  have helements : a.elements = [] := by rw [elements, ha]; rfl
  refine ⟨a, _, ha, hrun', rfl, recorded_of_run hready ?_ ?_ hrun'⟩
  · rw [Apart, helements]
    exact List.nodup_nil
  · rw [Recorded, helements]
    exact List.forall_mem_nil _

/-- An attribute whose name comes to `id` leaves the record under the id that the element had. -/
theorem record_left_behind :
    ∃ a b : Bench, a.hand = [] ∧ a.Ready 0 ∧ a.Run (fun _ _ b => b.Apart 0) b ∧
      b.hand = [.element (holder "x" (.string "v")) []] ∧
      (b.site.store 0).toOrdered.get? "x" = none ∧ ¬b.Recorded 0 := by
  obtain ⟨a, b, ha, hready, hrun, hhand, states, hstores, hstates⟩ := exists_holder (.string "v")
  have hstore : b.site.store 0 = states := by rw [Site.store, hstores]; rfl
  obtain ⟨t, hset, hafter, -⟩ := Site.exists_build (s := b.site)
    (n := (holder "k" (.string "v")).node []) (m := (holder "x" (.string "v")).node [])
    (c := .attr "ID" "x") (k := 0) states rfl fun sc _ hsc => ⟨sc, rfl, hsc.trans hstore⟩
  have hgiven : Step b (.call _ (.attr "ID" "x") (holder "x" (.string "v"))) _ :=
    .plain (.of_eq hhand) rfl (by simp) (.none rfl) hset rfl
  have hrun' : a.Run (fun _ _ b => b.Apart 0) _ :=
    (hrun.mono fun _ _ _ hok => hok.2).tail ⟨_, hgiven, apart_of_singleton rfl⟩
  have hkept : t.store 0 = states := by
    rw [Site.store, hafter, hstores]
    rfl
  have hnone : (t.store 0).toOrdered.get? "x" = none := by
    rw [hkept, hstates]
    rfl
  refine ⟨a, _, ha, hready, hrun', rfl, hnone, fun hrecorded => ?_⟩
  obtain ⟨id, hid, hrecord⟩ := hrecorded (holder "x" (.string "v")) List.mem_cons_self rfl _ rfl
  obtain rfl : "x" = id := Option.some.inj hid
  cases hnone.symm.trans hrecord

end Bench

end Folio
