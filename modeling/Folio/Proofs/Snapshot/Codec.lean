import Folio.Proofs.Json.Whole
import Folio.Proofs.Snapshot.Heads

/-! Snapshots come back from their JSON text as they were, with every map and list in its order. The
readers are followed kind by kind: each reads what is written of its kind. -/
namespace Folio

open Json Json.Tree

/-! Bindings and listeners -/

theorem BindingRecord.ofTree?_json (b : BindingRecord) :
    BindingRecord.ofTree? b.json.tree = some b := by
  have hrecord : b.json.tree.record? ["stateKey", "source"] =
      some [some (.string (some b.key)), some (.string (some b.source))] :=
    record?_present [("stateKey", some (.string b.key)), ("source", some (.string b.source))]
      (by simp)
  rw [BindingRecord.ofTree?, hrecord]
  rfl

theorem ListenerRecord.json_eq_present (l : ListenerRecord) :
    l.json = .object (present [("event", some (.string l.event)),
      ("nodeId", some (.string l.nodeId)), ("targetId", l.targetId.map .string),
      ("source", some (.string l.source))]) := by
  obtain ⟨event, nodeId, targetId, source⟩ := l
  cases targetId <;> rfl

theorem ListenerRecord.ofTree?_json (l : ListenerRecord) :
    ListenerRecord.ofTree? l.json.tree = some l := by
  have hrecord : l.json.tree.record? ["event", "nodeId", "targetId", "source"] =
      some [some (.string (some l.event)), some (.string (some l.nodeId)),
        (l.targetId.map Json.string).map tree, some (.string (some l.source))] := by
    rw [json_eq_present]
    exact record?_present _ (by simp)
  rw [ListenerRecord.ofTree?, hrecord]
  simp only [optionalText_map]
  rfl

theorem ListenerRecord.readsBack_json (l : ListenerRecord) : l.json.ReadsBack := by
  obtain ⟨event, nodeId, targetId, source⟩ := l
  cases targetId with
  | none => exact ⟨trivial, trivial, trivial, trivial⟩
  | some id => exact ⟨trivial, trivial, trivial, trivial, trivial⟩

/-! Nodes -/

namespace ElementRecord

/-- The fields of an element besides its kind. -/
def fields (e : ElementRecord) (children : List Json) : List (String × Option Json) :=
  [("tag", some (.string e.tag)),
    ("attributes", if e.attributes.isEmpty then none else some (ofTexts e.attributes)),
    ("children", if children.isEmpty then none else some (.array children)),
    ("cssFragment", e.style.map .string), ("state", e.state),
    ("stateBindings", if (e.bindings.map BindingRecord.json).isEmpty then none
      else some (.array (e.bindings.map BindingRecord.json))),
    ("events", if (e.listeners.map ListenerRecord.json).isEmpty then none
      else some (.array (e.listeners.map ListenerRecord.json))),
    ("computedSource", e.computed.map .string)]

variable {e : ElementRecord} {children : List Json}

theorem json_eq_present (e : ElementRecord) (children : List Json) :
    e.json children =
      .object (("type", .string "element") :: present (e.fields children)) := by
  have hattributes : (if e.attributes.isEmpty then [] else [("attributes", ofTexts e.attributes)]) =
      present [("attributes",
        if e.attributes.isEmpty then none else some (ofTexts e.attributes))] := by
    split <;> rfl
  simp only [json, hattributes, listField_eq_present, optionalField_eq_present, Option.map_id_fun,
    id_eq]
  rw [List.append_assoc]
  simp only [fields, ← present_append, List.cons_append, List.nil_append]
  rfl

/-- An element reads back when its children and its state do. -/
theorem readsBack_json (hchildren : ∀ c ∈ children, c.ReadsBack)
    (hstate : ∀ v ∈ e.state, v.ReadsBack) : (e.json children).ReadsBack := by
  have htext : ∀ o : Option String, ∀ v ∈ o.map Json.string, v.ReadsBack := by
    intro o v hv
    obtain ⟨s, -, rfl⟩ := Option.map_eq_some_iff.1 hv
    trivial
  have hlist : ∀ items : List Json, (∀ v ∈ items, v.ReadsBack) →
      ∀ v ∈ (if items.isEmpty then none else some (Json.array items)), v.ReadsBack := by
    intro items hitems v hv
    obtain ⟨-, heq⟩ := Option.ite_none_left_eq_some.1 hv
    obtain rfl := Option.some.inj heq
    exact readsBack_array_iff.2 hitems
  have hfields : ∀ f ∈ e.fields children, ∀ v ∈ f.2, v.ReadsBack := by
    simp only [fields, List.forall_mem_cons]
    refine ⟨htext (some e.tag), ?attributes, hlist children hchildren, htext e.style, hstate,
      hlist _ (List.forall_mem_map.2 fun b _ => ⟨trivial, trivial, trivial⟩),
      hlist _ (List.forall_mem_map.2 fun l _ => l.readsBack_json), htext e.computed,
      List.forall_mem_nil _⟩
    intro v hv
    obtain ⟨-, heq⟩ := Option.ite_none_left_eq_some.1 hv
    obtain rfl := Option.some.inj heq
    exact readsBack_ofTexts e.attributes
  rw [json_eq_present]
  refine readsBack_object_iff.2 (List.forall_mem_cons.2 ⟨trivial, fun m hm => ?_⟩)
  exact hfields _ (mem_present.1 hm) m.2 rfl

/-- The fields of an element are less deep than the element. -/
theorem depth_of_mem_fields {d : Nat} (hd : (e.json children).depth ≤ d) {name : String} {v : Json}
    (hmem : (name, some v) ∈ e.fields children) : v.depth < d := by
  rw [json_eq_present] at hd
  have hmembers := membersDepth_le_iff.1 (Nat.le_refl _) _
    (List.mem_cons_of_mem ("type", Json.string "element") (mem_present.2 hmem))
  exact Nat.lt_of_le_of_lt hmembers hd

theorem depth_of_mem_children {d : Nat} (hd : (e.json children).depth ≤ d) :
    ∀ c ∈ children, c.depth + 2 ≤ d := by
  intro c hc
  have hne : children.isEmpty = false := by
    rw [List.isEmpty_eq_false_iff]
    exact List.ne_nil_of_mem hc
  have hmem : ("children", some (Json.array children)) ∈ e.fields children := by
    simp [fields, hne]
  have hitem := itemsDepth_le_iff.1 (Nat.le_refl _) c hc
  exact Nat.le_trans (Nat.add_le_add_right hitem 2) (depth_of_mem_fields hd hmem)

theorem depth_of_mem_state {d : Nat} (hd : (e.json children).depth ≤ d) :
    ∀ v ∈ e.state, v.depth < d := by
  intro v hv
  have hmem : ("state", some v) ∈ e.fields children := by
    rw [← Option.mem_def.1 hv]
    simp [fields]
  exact depth_of_mem_fields hd hmem

/-- An element as it is read back: a state null is no state. -/
def asRead (e : ElementRecord) : ElementRecord := { e with state := e.state.filter (!·.isNull) }

end ElementRecord

namespace Record

mutual

/-- The states of the elements of a record, at any depth. -/
def states : Record → List Json
  | .element e children => e.state.toList ++ statesAll children
  | .text _ | .markup _ => []

def statesAll : List Record → List Json
  | [] => []
  | r :: rs => r.states ++ statesAll rs

end

mutual

/-- A record as it is read back: an element whose state is null has none then. -/
def asRead : Record → Record
  | .element e children => .element e.asRead (asReadAll children)
  | .text content => .text content
  | .markup content => .markup content

def asReadAll : List Record → List Record
  | [] => []
  | r :: rs => r.asRead :: asReadAll rs

end

theorem asReadAll_eq_map (rs : List Record) : asReadAll rs = rs.map asRead := by
  induction rs with
  | nil => rfl
  | cons r rs ih => rw [asReadAll, ih, List.map_cons]

mutual

theorem asRead_eq_self {r : Record} (h : ∀ v ∈ r.states, v ≠ .null) : r.asRead = r := by
  match r with
  | .text _ | .markup _ => rfl
  | .element e children =>
    rw [states, List.forall_mem_append] at h
    have hstate : e.asRead = e := by
      obtain ⟨tag, attributes, style, state, bindings, listeners, computed⟩ := e
      cases state with
      | none => rfl
      | some v =>
        have hsome : v ≠ .null := h.1 v (by simp)
        cases v with
        | null => exact (hsome rfl).elim
        | bool _ | number _ | string _ | array _ | object _ => rfl
    rw [asRead, hstate, asReadAll_eq_self h.2]

theorem asReadAll_eq_self {rs : List Record} (h : ∀ v ∈ statesAll rs, v ≠ .null) :
    asReadAll rs = rs := by
  match rs with
  | [] => rfl
  | r :: rs =>
    rw [statesAll, List.forall_mem_append] at h
    rw [asReadAll, asRead_eq_self h.1, asReadAll_eq_self h.2]

end

theorem jsons_eq_map (rs : List Record) : jsons rs = rs.map json := by
  induction rs with
  | nil => rfl
  | cons r rs ih => rw [jsons, ih, List.map_cons]

mutual

theorem readsBack_json {r : Record} (h : ∀ v ∈ r.states, v.ReadsBack) : r.json.ReadsBack := by
  match r with
  | .text _ | .markup _ => exact ⟨trivial, trivial, trivial⟩
  | .element e children =>
    rw [states, List.forall_mem_append] at h
    refine ElementRecord.readsBack_json (readsBack_jsons h.2) fun v hv => ?_
    exact h.1 v (Option.mem_toList.2 hv)

theorem readsBack_jsons {rs : List Record} (h : ∀ v ∈ statesAll rs, v.ReadsBack) :
    ∀ v ∈ jsons rs, v.ReadsBack := by
  match rs with
  | [] => exact List.forall_mem_nil _
  | r :: rs =>
    rw [statesAll, List.forall_mem_append] at h
    exact List.forall_mem_cons.2 ⟨readsBack_json h.1, readsBack_jsons h.2⟩

end

theorem ofContent?_present (make : String → Record) (content : String) :
    ofContent? make (Json.object (present [("content", some (.string content))])).tree =
      some (make content) := by
  have hrecord : (Json.object (present [("content", some (.string content))])).tree.record?
      ["content"] = some [some (.string (some content))] := record?_present _ (by simp)
  rw [ofContent?, hrecord]
  rfl

/-- A text or markup comes back from its record. -/
theorem ofTree?_content {kind : String} {make : String → Record} (content : String)
    (h : kind = "text" ∧ make = .text ∨ kind = "markup" ∧ make = .markup) (fuel : Nat)
    (numbered : Bool) :
    ofTree? (fuel + 1) numbered
        (Json.object [("type", .string kind), ("content", .string content)]).tree =
      some (make content) := by
  have htag : tagged? "type" ["element", "text", "markup"] numbered
      (Json.object [("type", .string kind), ("content", .string content)]).tree =
      some (kind, (Json.object (present [("content", some (.string content))])).tree) := by
    refine tagged?_present [("content", some (.string content))] ?_ (by simp) numbered
    obtain ⟨rfl, -⟩ | ⟨rfl, -⟩ := h <;> simp
  rw [ofTree?, htag]
  obtain ⟨rfl, rfl⟩ | ⟨rfl, rfl⟩ := h
  · exact ofContent?_present .text content
  · exact ofContent?_present .markup content

/-- An element comes back when its children and its state do. -/
theorem ofTree?_element {e : ElementRecord} {children : List Record} {fuel : Nat}
    (hstate : ∀ v ∈ e.state, v.tree.value? depthLimit = some v)
    (hchildren : ∀ r ∈ children, ofTree? fuel true r.json.tree = some r.asRead) (numbered : Bool) :
    ofTree? (fuel + 1) numbered (e.json (jsons children)).tree =
      some (.element e.asRead (children.map asRead)) := by
  have htag : tagged? "type" ["element", "text", "markup"] numbered (e.json (jsons children)).tree =
      some ("element", (Json.object (present (e.fields (jsons children)))).tree) := by
    rw [e.json_eq_present]
    exact tagged?_present _ (by simp) (by simp [ElementRecord.fields]) numbered
  have hrecord : (Json.object (present (e.fields (jsons children)))).tree.record? elementFields =
      some ((e.fields (jsons children)).map fun f => f.2.map tree) :=
    record?_present _ (by simp [ElementRecord.fields])
  have hlist : orElse [] (listOf? (ofTree? fuel true))
      ((if (jsons children).isEmpty then none else some (Json.array (jsons children))).map tree) =
      some (children.map asRead) := orElse_listOf?_map (jsons_eq_map children) hchildren
  have hbindings : orElse [] (listOf? BindingRecord.ofTree?)
      ((if (e.bindings.map BindingRecord.json).isEmpty then none
        else some (Json.array (e.bindings.map BindingRecord.json))).map tree) =
      some e.bindings := orElse_listOf? rfl fun b _ => b.ofTree?_json
  have hlisteners : orElse [] (listOf? ListenerRecord.ofTree?)
      ((if (e.listeners.map ListenerRecord.json).isEmpty then none
        else some (Json.array (e.listeners.map ListenerRecord.json))).map tree) =
      some e.listeners := orElse_listOf? rfl fun l _ => l.ofTree?_json
  rw [ofTree?, htag]
  simp only [String.reduceEq, if_neg, not_false_iff, hrecord]
  simp only [ElementRecord.fields, List.map_cons, List.map_nil, orElse_texts?, hlist,
    optionalText_map, optional_map hstate, hbindings, hlisteners]
  rfl

mutual

/-- A node comes back from its record. One fuel is left for each level of nodes, which lies in an
array of its own inside an object of its own. -/
theorem ofTree?_json {r : Record} {fuel : Nat} (hdepth : r.json.depth ≤ fuel)
    (hfuel : fuel ≤ depthLimit) (hstates : ∀ v ∈ r.states, v.ReadsBack ∧ v.Canonical)
    (numbered : Bool) : ofTree? fuel numbered r.json.tree = some r.asRead := by
  match r, fuel with
  | .text s, 0 | .markup s, 0 | .element e children, 0 => cases hdepth
  | .text s, fuel + 1 => exact ofTree?_content s (.inl ⟨rfl, rfl⟩) fuel numbered
  | .markup s, fuel + 1 => exact ofTree?_content s (.inr ⟨rfl, rfl⟩) fuel numbered
  | .element e children, fuel + 1 =>
    rw [states, List.forall_mem_append] at hstates
    have hstate : ∀ v ∈ e.state, v.tree.value? depthLimit = some v := by
      intro v hv
      have hlt := ElementRecord.depth_of_mem_state hdepth v hv
      obtain ⟨hreads, hcanonical⟩ := hstates.1 v (Option.mem_toList.2 hv)
      exact value?_tree_of_canonical hreads hcanonical (by omega)
    rw [asRead, asReadAll_eq_map]
    refine ofTree?_element hstate (ofTree?_jsons ?_ (Nat.le_of_succ_le hfuel) hstates.2) numbered
    intro c hc
    have hchild := ElementRecord.depth_of_mem_children hdepth c hc
    omega

theorem ofTree?_jsons {rs : List Record} {fuel : Nat} (hdepth : ∀ v ∈ jsons rs, v.depth ≤ fuel)
    (hfuel : fuel ≤ depthLimit) (hstates : ∀ v ∈ statesAll rs, v.ReadsBack ∧ v.Canonical) :
    ∀ r ∈ rs, ofTree? fuel true r.json.tree = some r.asRead := by
  match rs with
  | [] => exact List.forall_mem_nil _
  | r :: rs =>
    rw [jsons, List.forall_mem_cons] at hdepth
    rw [statesAll, List.forall_mem_append] at hstates
    exact List.forall_mem_cons.2 ⟨ofTree?_json hdepth.1 hfuel hstates.1 true,
      ofTree?_jsons hdepth.2 hfuel hstates.2⟩

end

end Record

/-! Snapshots -/

namespace Snapshot

/-- The values that a snapshot holds, in its elements and in its state. -/
def values (s : Snapshot) : List Json :=
  Record.statesAll s.body ++ s.states.entries.map Prod.snd

variable {s : Snapshot}

theorem readsBack_json (h : ∀ v ∈ s.values, v.ReadsBack) : s.json.ReadsBack := by
  rw [values, List.forall_mem_append] at h
  have hbody : (Json.array (Record.jsons s.body)).ReadsBack :=
    readsBack_array_iff.2 (Record.readsBack_jsons h.1)
  have hstates : (Json.object s.states.entries).ReadsBack :=
    readsBack_object_iff.2 (List.forall_mem_map.1 h.2)
  exact ⟨s.head.readsBack_json, hbody, hstates, trivial⟩

/-- Nodes and the values of the state map lie in a list and an object of the snapshot's own. -/
theorem depth_parts (hdepth : s.json.depth ≤ depthLimit) :
    (∀ v ∈ Record.jsons s.body, v.depth ≤ depthLimit - 2) ∧
      ∀ e ∈ s.states.entries, e.2.depth ≤ depthLimit - 2 := by
  simp only [json, depth, membersDepth] at hdepth
  constructor
  · exact itemsDepth_le_iff.1 (by omega)
  · exact membersDepth_le_iff.1 (by omega)

theorem ofRoot?_json {r : Record} (hdepth : r.json.depth ≤ depthLimit - 2)
    (hstates : ∀ v ∈ r.states, v.ReadsBack ∧ v.Canonical) :
    Record.ofRoot? (depthLimit - 2) r.json.tree = some r.asRead := by
  have hsound : r.json.tree.sound (depthLimit - 2) = true :=
    sound_tree (Record.readsBack_json fun v hv => (hstates v hv).1) hdepth
  rw [Record.ofRoot?, if_pos hsound]
  exact Record.ofTree?_json (Nat.le_trans hdepth (Nat.sub_le ..)) (Nat.le_refl _) hstates false

theorem mem_statesAll {r : Record} {rs : List Record} (hr : r ∈ rs) :
    ∀ v ∈ r.states, v ∈ Record.statesAll rs := by
  intro v hv
  induction rs with
  | nil => cases hr
  | cons r' rs ih =>
    rw [Record.statesAll, List.mem_append]
    rcases List.mem_cons.1 hr with rfl | hlater
    · exact .inl hv
    · exact .inr (ih hlater)

/-- A snapshot as it is read back: elements whose state is null have none then. -/
def asRead (s : Snapshot) : Snapshot := { s with body := Record.asReadAll s.body }

theorem ofTree?_json_eq_asRead (hcanonical : ∀ v ∈ s.values, v.Canonical)
    (hreads : ∀ v ∈ s.values, v.ReadsBack) (hdepth : s.json.depth ≤ depthLimit) :
    Snapshot.ofTree? s.json.tree = some s.asRead := by
  obtain ⟨hbodyDepth, hstatesDepth⟩ := depth_parts hdepth
  rw [values, List.forall_mem_append, List.forall_mem_map] at hcanonical hreads
  have hbody : listOf? (Record.ofRoot? (depthLimit - 2)) (Json.array (Record.jsons s.body)).tree =
      some (Record.asReadAll s.body) := by
    rw [Record.jsons_eq_map] at hbodyDepth ⊢
    rw [Record.asReadAll_eq_map]
    refine listOf?_array_map fun r hr => ofRoot?_json ?_ fun v hv => ?_
    · exact hbodyDepth r.json (List.mem_map_of_mem hr)
    · have hall := mem_statesAll hr v hv
      exact ⟨hreads.1 v hall, hcanonical.1 v hall⟩
  have hstates : map? (value? (depthLimit - 2)) (Json.object s.states.entries).tree =
      some s.states := by
    have hvalue : ∀ e ∈ s.states.entries, (id e.2).tree.value? (depthLimit - 2) = some e.2 :=
      fun e he => value?_tree_of_canonical (hreads.2 e he) (hcanonical.2 e he) (hstatesDepth e he)
    simpa using map?_entries hvalue
  have hrecord : s.json.tree.record? ["head", "body", "state"] =
      some [some s.head.json.tree, some (Json.array (Record.jsons s.body)).tree,
        some (Json.object s.states.entries).tree] :=
    record?_present [("head", some s.head.json),
      ("body", some (.array (Record.jsons s.body))), ("state", some (.object s.states.entries))]
      (by simp)
  rw [Snapshot.ofTree?, hrecord]
  simp only [orElse, s.head.ofTree?_json, hbody, hstates]
  rfl

/-- Whatever states a snapshot holds, its text is read, and all but states null come back. -/
theorem read?_text_eq_asRead (hcanonical : ∀ v ∈ s.values, v.Canonical)
    (hreads : ∀ v ∈ s.values, v.ReadsBack) (hdepth : s.json.depth ≤ depthLimit) :
    Snapshot.read? s.text = some s.asRead := by
  have htree : Tree.read? s.text = some s.json.tree := Tree.read?_text (readsBack_json hreads)
  rw [Snapshot.read?, htree, Option.bind_some]
  exact ofTree?_json_eq_asRead hcanonical hreads hdepth

theorem ofTree?_json (hnull : ∀ v ∈ Record.statesAll s.body, v ≠ .null)
    (hcanonical : ∀ v ∈ s.values, v.Canonical) (hreads : ∀ v ∈ s.values, v.ReadsBack)
    (hdepth : s.json.depth ≤ depthLimit) : Snapshot.ofTree? s.json.tree = some s := by
  rw [ofTree?_json_eq_asRead hcanonical hreads hdepth, asRead, Record.asReadAll_eq_self hnull]

/-- A snapshot is read back from its text as it was: every text, number, list and missing field, and
the order of attributes, children, state and the head's maps. No element has the state null, which
is read as no state; objects have the one order of members that they are read in; and numbers are
written so that they read back. -/
theorem read?_text_eq_some (hnull : ∀ v ∈ Record.statesAll s.body, v ≠ .null)
    (hcanonical : ∀ v ∈ s.values, v.Canonical) (hreads : ∀ v ∈ s.values, v.ReadsBack)
    (hdepth : s.json.depth ≤ depthLimit) : Snapshot.read? s.text = some s := by
  have htree : Tree.read? s.text = some s.json.tree := Tree.read?_text (readsBack_json hreads)
  rw [Snapshot.read?, htree, Option.bind_some]
  exact ofTree?_json hnull hcanonical hreads hdepth

/-- A snapshot with escapes, empty and missing parts, keys out of order and values of every kind. -/
def motley : Snapshot where
  head := ⟨some "\"a\\b\" \n\x01 \u00e9 😀", [.metaTag ⟨[("z", "1"), ("a", "")], by decide⟩,
    .scriptTag none (some "</script>") true, .styleTag ""], ⟨[("y", "p"), ("x", "q")], by decide⟩,
    [⟨"b", "c"⟩]⟩
  body := [.element ⟨"div", ⟨[("id", "k"), ("class", "\t")], by decide⟩, none,
      some (.object [("a", .array [.number (.whole (-3)), .null]), ("b", .object [])]), [],
      [⟨"click", "k", none, "f"⟩, ⟨"blur", "k", some "t", "g"⟩], some "h"⟩
    [.text "<", .element ⟨"p", .empty, some "color: red", none, [⟨"s", "t"⟩], [], none⟩ [],
      .markup ""]]
  states := ⟨[("z", .null), ("a", .number (.real ⟨false, 4591870180066957722⟩)),
    ("m", .number (.whole 18446744073709551615))], by decide⟩

theorem read?_text_eq_some_motley : Snapshot.read? motley.text = some motley := by
  have hcanonical : ∀ v ∈ motley.values, v.Canonical := by
    have hordered : InOrder [("a", .array [.number (.whole (-3)), .null]), ("b", .object [])] :=
      List.pairwise_pair.2 (by decide)
    have hnone : InOrder [] := List.Pairwise.nil
    simp [values, motley, Record.statesAll, Record.states, Canonical, ItemsCanonical,
      MembersCanonical, hordered, hnone]
  have hreads : ∀ v ∈ motley.values, v.ReadsBack := by
    have hwhole : (Number.whole (-3)).ReadsBack := Number.readsBack_whole (by decide) (by decide)
    have hlast : (Number.whole 18446744073709551615).ReadsBack :=
      Number.readsBack_whole (by decide) (by decide)
    have hreal : (Number.real ⟨false, 4591870180066957722⟩).ReadsBack := by decide +kernel
    simpa [values, motley, Record.statesAll, Record.states, ReadsBack, ItemsReadBack,
      MembersReadBack] using ⟨hwhole, hreal, hlast⟩
  have hnull : ∀ v ∈ Record.statesAll motley.body, v ≠ .null := by
    simp [motley, Record.statesAll, Record.states]
  exact read?_text_eq_some hnull hcanonical hreads (by decide)

end Snapshot

end Folio
