import Folio.Proofs.Site.Restored
import Folio.Proofs.Style.Sheet

/-! An import undoes an export but for client scripts and markup: what builder calls make is in the
normal forms that an import brings everything into, so nothing else is lost or changed. -/
namespace Folio

/-! What an import takes over -/

/-- An element without its client scripts. -/
def ElementRecord.data (e : ElementRecord) : ElementRecord :=
  { e with bindings := [], listeners := [], computed := none }

namespace Record

mutual

/-- A record without client scripts, and with its markup as text. -/
def data : Record → Record
  | .text content => .text content
  | .markup content => .text content
  | .element e children => .element e.data (dataAll children)

def dataAll : List Record → List Record
  | [] => []
  | r :: rs => r.data :: dataAll rs

end

end Record

def Snapshot.data (s : Snapshot) : Snapshot := { s with body := Record.dataAll s.body }

/-! What builder calls make -/

/-- An element as builder calls leave it: in normal form, with a style of settled rules. -/
structure Element.Settled (limit : Nat) (e : Element) : Prop where
  scope : e.scope.isSome
  tag : Tag.normalize e.tag = .ok e.tag
  attributes : ∀ name ∈ e.attributes.keys, Text.IsAttributeName name
  style : ∃ rs : List Style.Rule, e.style = Style.sheetText rs ∧ ∀ r ∈ rs, r.Settled limit

/-- What authors compose on sites with some settings: texts, markup, nodes that documents make, and
what calls make of all these. No call clears its node, and styles are declared whole. -/
inductive Child.Composed (settings : Settings) : Child → Prop
  | text (s : String) : Child.Composed settings (.text s)
  | markup (s : String) : Child.Composed settings (.markup s)
  | create {s t : Site} {d : Document} {tag : String} {n : Node} (hpool : s.nodes.Reached)
    (h : s.create d tag = (.ok n, t)) : Child.Composed settings n.toChild
  | call {s t : Site} {n m : Node} {c : Call} (hsettings : s.settings = settings)
    (hn : Child.Composed settings n.toChild) (hreset : c ≠ .reset)
    (hwhole : ∀ ds, c = .css ds → Style.Whole settings.styleValueLength ds)
    (hadded : ∀ child ∈ c.added, Child.Composed settings child)
    (h : s.build n c = (.ok m, t)) : Child.Composed settings m.toChild
  | part {e : Element} {children : List Child} {c : Child}
    (h : Child.Composed settings (.element e children)) (hc : c ∈ children) :
    Child.Composed settings c

theorem Node.Move.settled {limit : Nat} {c : Call} {n m : Node}
    (hwhole : ∀ ds, c = .css ds → Style.Whole limit ds)
    (h : Node.Move limit c n m) (hn : n.toElement.Settled limit) : m.toElement.Settled limit := by
  cases h with
  | set value hname =>
    have hnames := Ordered.forall_mem_keys_insert value hname hn.attributes
    exact ⟨hn.scope, hn.tag, hnames, hn.style⟩
  | style hc hscope =>
    obtain ⟨rs, hstyle, hrs⟩ := hn.style
    obtain ⟨r, hr, hfragment⟩ := Style.exists_settled_of_scope (hwhole _ hc) hscope
    refine ⟨hn.scope, hn.tag, hn.attributes, rs ++ [r], ?_, ?_⟩
    · rw [Style.sheetText_append, ← hstyle, hfragment]
      simp [Style.sheetText]
    · exact List.forall_mem_append.2 ⟨hrs, List.forall_mem_singleton.2 hr⟩
  | append | state | computed | bind | listen =>
    exact ⟨hn.scope, hn.tag, hn.attributes, hn.style⟩

theorem Child.Composed.settled {settings : Settings} {c : Child} (h : c.Composed settings) :
    c.Each (Element.Settled settings.styleValueLength) := by
  induction h with
  | text s => trivial
  | markup s => trivial
  | create hpool h =>
    obtain ⟨name, hname, rfl⟩ := Site.create_eq_ok hpool h
    refine Child.each_toChild.2 ⟨⟨rfl, Tag.normalize_of_normalize hname, ?_, [], rfl, ?_⟩, ?_⟩
    · exact List.forall_mem_nil _
    · exact List.forall_mem_nil _
    · exact List.forall_mem_nil _
  | @call s t n m c hsettings _ hreset hwhole _ h ihn ihadded =>
    obtain ⟨scope, hscope⟩ := Option.isSome_iff_exists.1 (Child.each_toChild.1 ihn).1.scope
    have happly : (n.apply (s.shared scope) c).1 = .ok m := by
      rw [← Site.within_some_fst s fun sc => n.apply sc c, ← hscope, ← Site.build, h]
    have hmoves := Node.moves_apply hreset happly
    have hlimit : (s.shared scope).settings.styleValueLength = settings.styleValueLength := by
      rw [← hsettings]
      rfl
    rw [hlimit] at hmoves
    exact hmoves.keeps (P := fun n => n.toChild.Each (Element.Settled _))
      (fun _ _ hmove => hmove.each (hmove.settled hwhole) ihadded) ihn
  | part _ hc ih => exact Child.eachOf_iff.1 ih.2 _ hc

/-! What comes back of it -/

theorem Head.collect_entries {m : Ordered String String}
    (h : ∀ name ∈ m.keys, Text.IsAttributeName name) : Head.collect m.entries = m := by
  have hsame :
      (m.entries.map fun a => (Text.kebab a.1, a.2)).filter (!·.1.isEmpty) = m.entries := by
    have hmap : (m.entries.map fun a => (Text.kebab a.1, a.2)) = m.entries := by
      refine (List.map_congr_left fun a ha => ?_).trans (List.map_id _)
      exact Prod.ext (h a.1 (List.mem_map_of_mem ha)).normal rfl
    rw [hmap, List.filter_eq_self]
    intro a ha
    simpa using (h a.1 (List.mem_map_of_mem ha)).named
  exact (congrArg Ordered.ofList hsame).trans m.ofList_entries

/-- A record in the normal forms of an import, whose state the map `states` holds under its id. -/
structure ElementRecord.Lasting (limit : Nat) (states : Ordered String Json) (e : ElementRecord) :
    Prop where
  tag : Tag.normalize e.tag = .ok e.tag
  attributes : ∀ name ∈ e.attributes.keys, Text.IsAttributeName name
  style : ∀ fragment ∈ e.style, fragment ≠ "" ∧ Style.cleanFragment limit fragment = fragment
  state : ∀ value ∈ e.state, ∃ id, e.attributes.get? "id" = some id ∧ id ≠ "" ∧
    states.get? id = some value

variable {limit scope : Nat} {states : Ordered String Json}

theorem Element.Settled.lasting {e : Element} (h : e.Settled limit)
    (hstate : ∀ value ∈ e.state, ∃ id, e.id? = some id ∧ states.get? id = some value) :
    e.record.Lasting limit states := by
  refine ⟨h.tag, h.attributes, fun fragment hfragment => ?_, fun value hvalue => ?_⟩
  · obtain ⟨hsome, heq⟩ := Option.ite_none_left_eq_some.1 hfragment
    obtain rfl := Option.some.inj heq
    obtain ⟨rs, hstyle, hrs⟩ := h.style
    refine ⟨by simpa using hsome, ?_⟩
    rw [hstyle]
    exact Style.cleanFragment_settled hrs
  · obtain ⟨id, hid, hstored⟩ := hstate value hvalue
    obtain ⟨hget, hnonempty⟩ := Option.filter_eq_some_iff.1 hid
    exact ⟨id, hget, by simpa using hnonempty, hstored⟩

namespace ElementRecord.Restores

variable {e : ElementRecord} {f : Element}

theorem attributes_eq (h : e.Restores limit scope f) (he : e.Lasting limit states) :
    f.attributes = e.attributes := by
  have hcollect := Head.collect_entries he.attributes
  rcases h.attributes with heq | ⟨hsome, hnone, -⟩
  · rw [heq, hcollect]
  · obtain ⟨value, hvalue⟩ := Option.isSome_iff_exists.1 hsome
    obtain ⟨id, hget, hid, -⟩ := he.state value hvalue
    rw [hcollect, hget] at hnone
    simp [hid] at hnone

theorem record_eq (h : e.Restores limit scope f) (he : e.Lasting limit states) :
    f.record = e.data := by
  have htag : f.tag = e.tag := Except.ok.inj (h.tag.symm.trans he.tag)
  have hstyle : (if f.style.isEmpty then none else some f.style) = e.style := by
    rw [h.style]
    cases hfragment : e.style with
    | none => rfl
    | some fragment =>
      obtain ⟨hsome, hclean⟩ := he.style fragment hfragment
      simp [hclean, hsome]
  simp only [Element.record, ElementRecord.data, htag, h.attributes_eq he, hstyle, h.state,
    h.computed, h.bindings, h.listeners, List.map_nil, Option.map_none]

theorem captured_subset (h : e.Restores limit scope f) (he : e.Lasting limit states) :
    ∀ entry ∈ f.captured, states.get? entry.1 = some entry.2 := by
  unfold Element.captured
  split
  · next value hvalue =>
    rw [h.state] at hvalue
    obtain ⟨id, hget, -, hstored⟩ := he.state value hvalue
    rw [h.attributes_eq he, hget]
    exact List.forall_mem_singleton.2 hstored
  · exact List.forall_mem_nil _

end ElementRecord.Restores

/-- Lasting records come back as their data, and put nothing new into the states. -/
theorem Restored.of_lasting {rs : List Record} {cs : List Child} (h : Restored limit scope rs cs)
    (hrs : Record.EachOf (ElementRecord.Lasting limit states) rs) :
    Child.records cs = Record.dataAll rs ∧
      ∀ entry ∈ Child.capturedAll cs, states.get? entry.1 = some entry.2 := by
  induction h with
  | nil => exact ⟨rfl, List.forall_mem_nil _⟩
  | text content _ ih =>
    obtain ⟨hrecords, hcaptured⟩ := ih hrs.2
    exact ⟨by rw [Child.records, Record.dataAll, hrecords]; rfl, hcaptured⟩
  | markup content _ ih =>
    obtain ⟨hrecords, hcaptured⟩ := ih hrs.2
    exact ⟨by rw [Child.records, Record.dataAll, hrecords]; rfl, hcaptured⟩
  | element he _ _ ihchildren ih =>
    obtain ⟨⟨hlasting, hbelow⟩, hrest⟩ := hrs
    obtain ⟨hchildren, hcapturedBelow⟩ := ihchildren hbelow
    obtain ⟨hrecords, hcaptured⟩ := ih hrest
    refine ⟨?_, ?_⟩
    · rw [Child.records, Child.record, Record.dataAll, Record.data, hchildren, hrecords,
        he.record_eq hlasting]
    · simp only [Child.capturedAll, Child.captured, List.forall_mem_append]
      exact ⟨⟨hcapturedBelow, he.captured_subset hlasting⟩, hcaptured⟩

/-- Nodes are recorded as elements. -/
theorem Child.isElement_of_mem_records {nodes : List Node} :
    ∀ r ∈ Child.records (nodes.map Node.toChild), r.isElement = true := by
  induction nodes with
  | nil => exact List.forall_mem_nil _
  | cons n nodes ih => exact List.forall_mem_cons.2 ⟨rfl, ih⟩

namespace Site

variable {s t : Site}

/-- An export of what authors composed is imported again, under the same settings, if the state of
each node is the one that the document holds under the id of the node. The import exports the same
head, elements and states, in the same order; only client scripts are gone, and markup is text. -/
theorem restore_snapshot {d : Document}
    (hbody : ∀ n ∈ d.body, n.toChild.Composed s.settings)
    (hstates : ∀ n ∈ d.body, n.toChild.Each fun e => ∀ value, e.state = some value →
      ∃ id, e.id? = some id ∧ (s.store d.scope).toOrdered.get? id = some value)
    (hpool : t.nodes.Reached) (hsettings : t.settings = s.settings) :
    ∃ d' t', t.restore (s.snapshot d) = (.ok d', t') ∧
      t'.snapshot d' = (s.snapshot d).data := by
  have hlasting : Record.EachOf (ElementRecord.Lasting s.settings.styleValueLength
      (s.store d.scope).toOrdered) (s.snapshot d).body := by
    refine Child.eachOf_records.2 (Child.eachOf_map_toChild fun n hn => ?_)
    exact Child.each_imp₂ (fun e he hstate => he.lasting hstate) (hbody n hn).settled (hstates n hn)
  have haccepted : ∀ r ∈ (s.snapshot d).body, r.Each Accepted := by
    refine Record.eachOf_iff.1 (Child.eachOf_records.2 (Child.eachOf_map_toChild fun n hn => ?_))
    exact Child.each_imp₂ (fun e he _ => ⟨e.tag, he.tag⟩) (hbody n hn).settled (hstates n hn)
  obtain ⟨d', t', hrestored⟩ := exists_restore haccepted t
  obtain ⟨hhead, himported, himportedStates⟩ := imported_restore hpool hrestored
  rw [hsettings] at himported
  have hsame : (s.snapshot d).body.filter Record.isElement = (s.snapshot d).body :=
    List.filter_eq_self.2 Child.isElement_of_mem_records
  rw [hsame] at himported
  obtain ⟨hrecords, hcaptured⟩ := himported.of_lasting hlasting
  have hkept : (t'.store d'.scope).toOrdered = (s.store d.scope).toOrdered :=
    himportedStates.trans (Ordered.putAll_of_get? hcaptured)
  refine ⟨d', t', hrestored, ?_⟩
  rw [snapshot, Snapshot.take, hhead, hrecords, hkept]
  rfl

/-- A node with a style, a state, a listener and children of each kind. -/
theorem restore_snapshot_motley :
    ∃ (s t : Site) (d : Document), (∀ n ∈ d.body, n.toChild.Composed s.settings) ∧
      (∀ n ∈ d.body, n.toChild.Each fun e => ∀ value, e.state = some value →
        ∃ id, e.id? = some id ∧ (s.store d.scope).toOrdered.get? id = some value) ∧
      t.nodes.Reached ∧ t.settings = s.settings ∧
      d.body.map (fun n => (n.id?, n.state.isSome, n.listeners.length)) = [(some "k", true, 1)] ∧
      ∃ d' t', t.restore (s.snapshot d) = (.ok d', t') ∧
        t'.snapshot d' = (s.snapshot d).data := by
  let s₀ : Site := (Site.newDocument (.ofSettings {} .silent 0) {}).2
  let d : Document := { scope := 0 }
  have hpool : s₀.nodes.Reached := .empty 1024 Pool.nodeNames
  have hp : Child.Composed {} _ := .create hpool (rfl : s₀.create d "P" = (.ok _, _))
  have hid := hp.call (s := s₀) (c := .id "k") rfl nofun nofun nofun rfl
  let plain : Node := { tag := "p", attributes := ⟨[("id", "k")], by decide⟩, scope := some 0 }
  let styled : Node :=
    { plain with
      attributes := ⟨[("id", "k"), ("class", "w-9rfate")], by decide⟩
      style := ".w-9rfate\x7bcolor:red;\x7d" }
  have hplain : plain.toChild.Composed {} := hid
  have hcss : (plain.css (s₀.shared 0) [("Color", " red; ")]) = styled := by
    have hscope : Style.scope (s₀.shared 0).settings.styleValueLength [("Color", " red; ")] =
        some ⟨"w-9rfate", "color:red;"⟩ := by decide +kernel
    rw [Node.css, hscope]
    rfl
  have hstyled : styled.toChild.Composed {} := by
    refine hplain.call (s := s₀) (c := .css [("Color", " red; ")]) (t := _) rfl nofun ?_ nofun
      (Prod.ext (congrArg Except.ok hcss) rfl)
    rintro ds ⟨⟩
    exact List.forall_mem_singleton.2 (by decide +kernel)
  have hchildren := hstyled.call (s := s₀) (c := .append [.text "<", .markup "<br>"]) rfl nofun
    nofun (by simp [Call.added, Child.Composed.text, Child.Composed.markup]) rfl
  have hlisten := hchildren.call (s := s₀) (c := .listen "click" none "f") rfl nofun nofun nofun rfl
  have hstate := hlisten.call (s := s₀) (c := .state (.ok (.string "v"))) rfl nofun nofun nofun rfl
  let node : Node :=
    { styled with
      state := some (.string "v")
      listeners := [⟨"click", "k", none, ⟨.event, "f"⟩⟩]
      children := [.text "<", .markup "<br>"] }
  have hnode : node.toChild.Composed {} := hstate
  let s : Site := s₀.setStore 0 (Indexed.empty.insert "k" (.string "v"))
  have hstore : (s.store 0).toOrdered.get? "k" = some (.string "v") := by
    rw [store_setStore (by decide), Indexed.toOrdered_insert]
    rfl
  have hbody : ∀ n ∈ [node], n.toChild.Composed s.settings := List.forall_mem_singleton.2 hnode
  have hstates : ∀ n ∈ [node], n.toChild.Each fun e => ∀ value, e.state = some value →
      ∃ id, e.id? = some id ∧ (s.store 0).toOrdered.get? id = some value := by
    refine List.forall_mem_singleton.2 ⟨?_, trivial, trivial, trivial⟩
    rintro value ⟨⟩
    exact ⟨"k", rfl, hstore⟩
  exact ⟨s, s₀, { scope := 0, body := [node] }, hbody, hstates, hpool, rfl, rfl,
    restore_snapshot hbody hstates hpool rfl⟩

end Site

end Folio
