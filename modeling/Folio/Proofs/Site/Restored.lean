import Folio.Proofs.Page.Built
import Folio.Proofs.Page.Guarded
import Folio.Site.Restore

/-! What an import makes of a snapshot: each element comes back with the normal forms of its names,
its style rebuilt, its state, and nothing else; texts come back as they were, and so does markup, as
text. Captured states are put into the states of the document, children before their parent. -/
namespace Folio

/-! Trees of records -/

namespace Record

variable {P : ElementRecord → Prop}

mutual

/-- Holds of a record all of whose elements have a property, at any depth. -/
def Each (P : ElementRecord → Prop) : Record → Prop
  | .text _ => True
  | .markup _ => True
  | .element e children => P e ∧ EachOf P children

def EachOf (P : ElementRecord → Prop) : List Record → Prop
  | [] => True
  | r :: rs => r.Each P ∧ EachOf P rs

end

theorem eachOf_iff {rs : List Record} : EachOf P rs ↔ ∀ r ∈ rs, r.Each P := by
  induction rs with
  | nil => simp [EachOf]
  | cons r rs ih => rw [EachOf, ih, List.forall_mem_cons]

def isElement : Record → Bool
  | .element .. => true
  | _ => false

end Record

namespace Child

mutual

theorem each_imp₂ {P Q R : Element → Prop} (h : ∀ e, P e → Q e → R e) {c : Child}
    (hp : c.Each P) (hq : c.Each Q) : c.Each R := by
  match c with
  | .text _ | .markup _ => trivial
  | .element e children => exact ⟨h e hp.1 hq.1, eachOf_imp₂ h hp.2 hq.2⟩

theorem eachOf_imp₂ {P Q R : Element → Prop} (h : ∀ e, P e → Q e → R e) {cs : List Child}
    (hp : EachOf P cs) (hq : EachOf Q cs) : EachOf R cs := by
  match cs with
  | [] => trivial
  | c :: cs => exact ⟨each_imp₂ h hp.1 hq.1, eachOf_imp₂ h hp.2 hq.2⟩

end

mutual

theorem each_record {P : ElementRecord → Prop} {c : Child} :
    c.record.Each P ↔ c.Each fun e => P e.record := by
  match c with
  | .text _ | .markup _ => exact Iff.rfl
  | .element e children => exact and_congr_right fun _ => eachOf_records

theorem eachOf_records {P : ElementRecord → Prop} {cs : List Child} :
    Record.EachOf P (records cs) ↔ EachOf (fun e => P e.record) cs := by
  match cs with
  | [] => exact Iff.rfl
  | c :: cs => exact and_congr each_record eachOf_records

end

end Child

/-! Captured states -/

/-- The entry of an element in the states of its document. -/
def Element.captured (e : Element) : List (String × Json) :=
  match e.state with
  | some value => [((e.attributes.get? "id").getD "", value)]
  | none => []

namespace Child

mutual

/-- The states that a child and all below it captured, in the order in which an import puts them
into the states of a document. -/
def captured : Child → List (String × Json)
  | .text _ | .markup _ => []
  | .element e children => capturedAll children ++ e.captured

def capturedAll : List Child → List (String × Json)
  | [] => []
  | c :: cs => c.captured ++ capturedAll cs

end

end Child

/-- A map after entries were put into it one after another. -/
def Ordered.putAll (m : Ordered String Json) (es : List (String × Json)) : Ordered String Json :=
  es.foldl (fun m e => m.insert e.1 e.2) m

theorem Ordered.putAll_append (m : Ordered String Json) (es more : List (String × Json)) :
    m.putAll (es ++ more) = (m.putAll es).putAll more := List.foldl_append

/-- Entries that a map has already leave it as it is. -/
theorem Ordered.putAll_of_get? {m : Ordered String Json} {es : List (String × Json)}
    (h : ∀ e ∈ es, m.get? e.1 = some e.2) : m.putAll es = m := by
  induction es with
  | nil => rfl
  | cons e es ih =>
    rw [List.forall_mem_cons] at h
    have hsame : m.insert e.1 e.2 = m := by
      have hput : Entries.put e.1 e.2 m.entries = m.entries := Entries.put_of_get? h.1
      obtain ⟨entries, hkeys⟩ := m
      simp only [insert, hput]
    rw [putAll, List.foldl_cons, hsame]
    exact ih h.2

/-! Records and what becomes of them -/

/-- How an element comes back from its record. It gets a new id if it has a state and no id. -/
structure ElementRecord.Restores (limit scope : Nat) (e : ElementRecord) (f : Element) : Prop where
  tag : Tag.normalize e.tag = .ok f.tag
  attributes : f.attributes = Head.collect e.attributes.entries ∨
    e.state.isSome ∧ ((Head.collect e.attributes.entries).get? "id").filter (!·.isEmpty) = none ∧
      ∃ id, f.attributes = (Head.collect e.attributes.entries).insert "id" id
  style : f.style = (e.style.map (Style.cleanFragment limit)).getD ""
  state : f.state = e.state
  computed : f.computed = none
  bindings : f.bindings = []
  listeners : f.listeners = []
  scope : f.scope = some scope

theorem Head.isAttributeName_collect {as : List (String × String)} {name : String}
    (h : name ∈ (Head.collect as).keys) : Text.IsAttributeName name := by
  obtain ⟨a, ha, rfl⟩ := List.mem_map.1 (Ordered.mem_keys_ofList h)
  obtain ⟨hmem, hsome⟩ := List.mem_filter.1 ha
  obtain ⟨b, -, rfl⟩ := List.mem_map.1 hmem
  exact ⟨Text.kebab_kebab b.1, by simpa using hsome⟩

namespace ElementRecord.Restores

variable {limit scope : Nat} {e : ElementRecord} {f : Element}

theorem isAttributeName (h : e.Restores limit scope f) :
    ∀ name ∈ f.attributes.keys, Text.IsAttributeName name := by
  have hcollected : ∀ name ∈ (Head.collect e.attributes.entries).keys, Text.IsAttributeName name :=
    fun _ => Head.isAttributeName_collect
  rcases h.attributes with heq | ⟨-, -, id, heq⟩
  · rwa [heq]
  · rw [heq]
    exact Ordered.forall_mem_keys_insert id Text.isAttributeName_id hcollected

theorem guarded (h : e.Restores limit scope f) : f.Guarded := by
  refine ⟨?_, ?_⟩
  · rw [h.style]
    cases e.style with
    | none => exact nofun
    | some fragment => exact Style.isBare_cleanFragment limit fragment
  · rw [h.bindings]
    exact List.forall_mem_nil _

end ElementRecord.Restores

/-- Records and the children that an import makes of them. -/
inductive Restored (limit scope : Nat) : List Record → List Child → Prop
  | nil : Restored limit scope [] []
  | text (content : String) {rs : List Record} {cs : List Child} (h : Restored limit scope rs cs) :
    Restored limit scope (.text content :: rs) (.text content :: cs)
  | markup (content : String) {rs : List Record} {cs : List Child}
    (h : Restored limit scope rs cs) :
    Restored limit scope (.markup content :: rs) (.text content :: cs)
  | element {e : ElementRecord} {f : Element} {records rs : List Record} {children cs : List Child}
    (he : e.Restores limit scope f) (hchildren : Restored limit scope records children)
    (h : Restored limit scope rs cs) :
    Restored limit scope (.element e records :: rs) (.element f children :: cs)

theorem Restored.append {limit scope : Nat} {rs more : List Record} {cs ds : List Child}
    (h : Restored limit scope rs cs) (hmore : Restored limit scope more ds) :
    Restored limit scope (rs ++ more) (cs ++ ds) := by
  induction h with
  | nil => exact hmore
  | text content _ ih => exact .text content ih
  | markup content _ ih => exact .markup content ih
  | element he hchildren _ _ ih => exact .element he hchildren ih

/-- What every restored element has, all elements that come back have, at any depth. -/
theorem Restored.each {P : Element → Prop} {limit scope : Nat} {rs : List Record} {cs : List Child}
    (hP : ∀ {e : ElementRecord} {f : Element}, e.Restores limit scope f → P f)
    (h : Restored limit scope rs cs) : Child.EachOf P cs := by
  induction h with
  | nil => trivial
  | text _ _ ih => exact ⟨trivial, ih⟩
  | markup _ _ ih => exact ⟨trivial, ih⟩
  | element he _ _ ihchildren ih => exact ⟨⟨hP he, ihchildren⟩, ih⟩

namespace Site

variable {s t u : Site} {scope : Nat} {es more : List (String × Json)}

/-! What building does to the site -/

/-- How a site changes while the states `es` are captured in a scope. -/
structure Filled (scope : Nat) (es : List (String × Json)) (s t : Site) : Prop where
  settings : t.settings = s.settings
  nodes : s.nodes.Reached → t.nodes.Reached
  stores : t.stores.length = s.stores.length
  states : scope < s.stores.length →
    (t.store scope).toOrdered = (s.store scope).toOrdered.putAll es

theorem filled_report (s : Site) (rs : List Report) : Filled scope [] s (s.report rs) :=
  ⟨rfl, id, rfl, fun _ => rfl⟩

theorem filled_refl (s : Site) : Filled scope [] s s := ⟨rfl, id, rfl, fun _ => rfl⟩

theorem Filled.trans (h : Filled scope es s t) (h' : Filled scope more t u) :
    Filled scope (es ++ more) s u := by
  refine ⟨h'.settings.trans h.settings, fun hs => h'.nodes (h.nodes hs),
    h'.stores.trans h.stores, fun hscope => ?_⟩
  rw [h'.states (h.stores ▸ hscope), h.states hscope, Ordered.putAll_append]

/-- What is shared in a scope of a site. -/
def shared (s : Site) (scope : Nat) : Scope :=
  { settings := s.settings, ids := s.ids, states := s.store scope }

theorem store_setStore (h : scope < s.stores.length) (states : States) :
    (s.setStore scope states).store scope = states := by
  simp [store, setStore, h]

theorem filled_within {α : Type} (s : Site) {f : Scope → α × Scope}
    (h : (f (s.shared scope)).2.states.toOrdered = (s.store scope).toOrdered.putAll es) :
    Filled scope es s (s.within (some scope) f).2 := by
  refine ⟨rfl, id, ?_, fun hscope => ?_⟩
  · simp [within, report, setStore]
  · rw [← h]
    have hlast : scope < (s.setStore scope .empty).stores.length := by simpa [setStore] using hscope
    exact congrArg Indexed.toOrdered (store_setStore (s := { s.setStore scope .empty with
      ids := (f (s.shared scope)).2.ids }) hlast _)

/-! The steps of an import -/

theorem filled_create {d : Document} {tag : String} {n : Node} (h : s.create d tag = (.ok n, t)) :
    Filled d.scope [] s t := by
  unfold create at h
  split at h
  · cases h
  · obtain ⟨-, rfl⟩ := Prod.mk.inj h
    exact ⟨rfl, Pool.Reached.acquire, rfl, fun _ => rfl⟩

theorem within_some_fst {α : Type} (s : Site) (f : Scope → α × Scope) :
    (s.within (some scope) f).1 = (f (s.shared scope)).1 := rfl

theorem importAttributes_eq {n : Node} (hscope : n.scope = some scope)
    (as : List (String × String)) (s : Site) :
    (importAttributes n as s).1 =
        { n with
          attributes := ((as.map fun a => (Text.kebab a.1, a.2)).filter (!·.1.isEmpty)).foldl
            (fun m a => m.insert a.1 a.2) n.attributes } ∧
      Filled scope [] s (importAttributes n as s).2 := by
  induction as generalizing n s with
  | nil => exact ⟨rfl, filled_refl s⟩
  | cons a as ih =>
    have hstep : (s.within n.scope fun sc => n.attr sc a.1 a.2).1 =
        if (Text.kebab a.1).isEmpty then n else n.setAttribute (Text.kebab a.1) a.2 := by
      rw [hscope, within_some_fst, Node.attr_fst]
    have hfilled : Filled scope [] s (s.within n.scope fun sc => n.attr sc a.1 a.2).2 := by
      rw [hscope]
      exact filled_within s (congrArg Indexed.toOrdered (Node.states_attr n _ a.1 a.2))
    rw [importAttributes]
    simp only [hstep]
    split
    · next hempty =>
      obtain ⟨heq, hrest⟩ := ih hscope (s.within n.scope fun sc => n.attr sc a.1 a.2).2
      refine ⟨heq.trans ?_, hfilled.trans hrest⟩
      simp [hempty]
    · next hsome =>
      obtain ⟨heq, hrest⟩ := ih (n := n.setAttribute (Text.kebab a.1) a.2) hscope
        (s.within n.scope fun sc => n.attr sc a.1 a.2).2
      refine ⟨heq.trans ?_, hfilled.trans hrest⟩
      simp [hsome, Node.setAttribute]

theorem importStyle_eq (scope : Nat) (s : Site) (n : Node) (tag : String)
    (fragment : Option String) :
    (s.importStyle n tag fragment).1 =
        { n with
          style := (fragment.map (Style.cleanFragment s.settings.styleValueLength)).getD n.style } ∧
      Filled scope [] s (s.importStyle n tag fragment).2 := by
  cases fragment with
  | none => exact ⟨rfl, filled_refl s⟩
  | some fragment =>
    simp only [importStyle]
    refine ⟨rfl, ?_⟩
    split
    · exact filled_report s _
    · exact filled_refl s

/-- A capture changes the state and, if there is no id, gives one. -/
theorem capture_eq (n : Node) (sc : Scope) (value : Json) :
    ∃ attributes, (n.capture sc value).1 = { n with attributes, state := some value } ∧
      (n.capture sc value).2.states =
        sc.states.insert ((attributes.get? "id").getD "") value ∧
      (attributes = n.attributes ∨
        n.id? = none ∧ ∃ id, attributes = n.attributes.insert "id" id) := by
  unfold Node.capture Node.ensureId
  cases n.id? with
  | some _ => exact ⟨n.attributes, rfl, rfl, .inl rfl⟩
  | none => exact ⟨_, rfl, rfl, .inr ⟨rfl, _, rfl⟩⟩

theorem importState_eq {n : Node} (hscope : n.scope = some scope) (hstate : n.state = none)
    (s : Site) (state : Option Json) :
    ∃ attributes, (s.importState n state).1 = { n with attributes, state } ∧
      (attributes = n.attributes ∨
        state.isSome ∧ n.id? = none ∧ ∃ id, attributes = n.attributes.insert "id" id) ∧
      Filled scope (s.importState n state).1.captured s (s.importState n state).2 := by
  cases state with
  | none =>
    have hnone : n.captured = [] := by simp [Element.captured, hstate]
    refine ⟨n.attributes, by rw [importState, ← hstate], .inl rfl, ?_⟩
    rw [importState, hnone]
    exact filled_refl s
  | some value =>
    obtain ⟨attributes, hnode, hstates, hattributes⟩ := capture_eq n (s.shared scope) value
    rw [importState, hscope, within_some_fst]
    refine ⟨attributes, by rw [hnode, hscope], hattributes.imp_right fun hid => ⟨rfl, hid⟩,
      filled_within s ?_⟩
    rw [hstates, Indexed.toOrdered_insert, hnode]
    rfl

/-! Whole records -/

/-- The attributes of an element that a document just made. -/
theorem importAttributes_of_created (scope : Nat) (name : String) (as : List (String × String))
    (s : Site) :
    (importAttributes { tag := name, scope := some scope } as s).1 =
        { tag := name, attributes := Head.collect as, scope := some scope } ∧
      Filled scope [] s (importAttributes { tag := name, scope := some scope } as s).2 :=
  importAttributes_eq rfl as s

/-- The style and the state of an element, which come after its children. -/
theorem importState_importStyle_eq {name : String} {attributes : Ordered String String}
    {children : List Child} (s : Site) (e : ElementRecord) {n : Node}
    (hn : n = { tag := name, attributes, scope := some scope, children }) :
    ∃ f : Element,
      ((s.importStyle n e.tag e.style).2.importState (s.importStyle n e.tag e.style).1 e.state).1 =
        { toElement := f, children } ∧
      Filled scope f.captured s
        ((s.importStyle n e.tag e.style).2.importState (s.importStyle n e.tag e.style).1
          e.state).2 ∧
      (Tag.normalize e.tag = .ok name → attributes = Head.collect e.attributes.entries →
        e.Restores s.settings.styleValueLength scope f) := by
  obtain ⟨hstyle, hstyled⟩ := importStyle_eq scope s n e.tag e.style
  subst hn
  generalize s.importStyle _ e.tag e.style = styled at hstyle hstyled ⊢
  obtain ⟨_, t⟩ := styled
  dsimp only at hstyle hstyled ⊢
  subst hstyle
  obtain ⟨last, hstate, hlast, hcaptured⟩ := importState_eq
    (n := { tag := name, attributes, scope := some scope, children, style := _ }) rfl rfl t e.state
  rw [hstate] at hcaptured ⊢
  refine ⟨_, rfl, hstyled.trans hcaptured, ?_⟩
  rintro hname rfl
  exact ⟨hname, hlast, rfl, rfl, rfl, rfl, rfl, rfl⟩

mutual

theorem restored_importRecord {d : Document} {r : Record} {s t : Site} {c : Child}
    (hpool : s.nodes.Reached) (h : importRecord d r s = (.ok c, t)) :
    Restored s.settings.styleValueLength d.scope [r] [c] ∧ Filled d.scope c.captured s t := by
  match r with
  | .text content =>
    rw [importRecord, Prod.mk.injEq, Except.ok.injEq] at h
    obtain ⟨rfl, rfl⟩ := h
    exact ⟨.text content .nil, filled_refl s⟩
  | .markup content =>
    rw [importRecord, Prod.mk.injEq, Except.ok.injEq] at h
    obtain ⟨rfl, rfl⟩ := h
    exact ⟨.markup content .nil, filled_refl s⟩
  | .element e children =>
    rw [importRecord] at h
    split at h
    · cases h
    · next n s₁ hcreate =>
      obtain ⟨name, hname, rfl⟩ := create_eq_ok hpool hcreate
      have hcreated := filled_create hcreate
      obtain ⟨hattributes, hnamed⟩ :=
        importAttributes_of_created d.scope name e.attributes.entries s₁
      simp only [hattributes] at h
      split at h
      · cases h
      · next cs s₃ hchildren =>
        have hmade := hcreated.trans hnamed
        obtain ⟨hrestored, hbelow⟩ := restored_importRecords (hmade.nodes hpool) hchildren
        obtain ⟨f, hnode, hcaptured, hrestores⟩ := importState_importStyle_eq s₃ e
          (rfl : Node.append { tag := name, attributes := _, scope := some d.scope } cs = _)
        obtain ⟨hc, rfl⟩ := Prod.mk.inj h
        obtain rfl := Except.ok.inj hc
        have hrecord := hrestores hname rfl
        rw [hmade.settings] at hrestored
        rw [hbelow.settings, hmade.settings] at hrecord
        rw [hnode]
        exact ⟨.element hrecord hrestored .nil, (hmade.trans hbelow).trans hcaptured⟩

theorem restored_importRecords {d : Document} {rs : List Record} {s t : Site} {cs : List Child}
    (hpool : s.nodes.Reached) (h : importRecords d rs s = (.ok cs, t)) :
    Restored s.settings.styleValueLength d.scope rs cs ∧
      Filled d.scope (Child.capturedAll cs) s t := by
  match rs with
  | [] =>
    rw [importRecords, Prod.mk.injEq, Except.ok.injEq] at h
    obtain ⟨rfl, rfl⟩ := h
    exact ⟨.nil, filled_refl s⟩
  | r :: rs =>
    rw [importRecords] at h
    split at h
    · cases h
    · next c s₁ hc =>
      obtain ⟨hfirst, hfilled⟩ := restored_importRecord hpool hc
      split at h
      · cases h
      · next cs s₂ hcs =>
        obtain ⟨hrest, hrestFilled⟩ := restored_importRecords (hfilled.nodes hpool) hcs
        rw [Prod.mk.injEq, Except.ok.injEq] at h
        obtain ⟨rfl, rfl⟩ := h
        rw [hfilled.settings] at hrest
        exact ⟨hfirst.append hrest, hfilled.trans hrestFilled⟩

end

theorem restored_importBody {d : Document} {rs : List Record} {done body : List Node} {s t : Site}
    (hpool : s.nodes.Reached) (h : importBody d done rs s = (none, body, t)) :
    ∃ nodes : List Node, body = done.reverse ++ nodes ∧
      Restored s.settings.styleValueLength d.scope (rs.filter Record.isElement)
        (nodes.map Node.toChild) ∧
      Filled d.scope (Child.capturedAll (nodes.map Node.toChild)) s t := by
  induction rs generalizing done s with
  | nil =>
    rw [importBody, Prod.mk.injEq, Prod.mk.injEq] at h
    obtain ⟨-, rfl, rfl⟩ := h
    exact ⟨[], (List.append_nil _).symm, .nil, filled_refl s⟩
  | cons r rs ih =>
    -- what is no element leaves no node
    have hdropped : ∀ {c : Child} {content : String} {s₁ : Site},
        importRecord d r s = (.ok c, s₁) → (c = .text content ∨ c = .markup content) →
        importBody d done rs (importBody.droppedText content s₁) = (none, body, t) →
        ∃ nodes : List Node, body = done.reverse ++ nodes ∧
          Restored s.settings.styleValueLength d.scope ((r :: rs).filter Record.isElement)
            (nodes.map Node.toChild) ∧
          Filled d.scope (Child.capturedAll (nodes.map Node.toChild)) s t := by
      intro c content s₁ hrecord hc hrest
      obtain ⟨hfirst, hfilled⟩ := restored_importRecord hpool hrecord
      have hskip : r.isElement = false ∧ c.captured = [] := by
        rcases hc with rfl | rfl
        · cases hfirst <;> exact ⟨rfl, rfl⟩
        · cases hfirst
      have hreport : Filled d.scope (c.captured ++ []) s (importBody.droppedText content s₁) :=
        hfilled.trans (filled_report s₁ _)
      obtain ⟨nodes, rfl, hnodes, hlater⟩ := ih (hreport.nodes hpool) hrest
      rw [hreport.settings] at hnodes
      rw [hskip.2] at hreport
      exact ⟨nodes, rfl, by simpa [hskip.1] using hnodes, hreport.trans hlater⟩
    rw [importBody] at h
    split at h
    · cases h
    · next e children s₁ hrecord =>
      obtain ⟨hfirst, hfilled⟩ := restored_importRecord hpool hrecord
      have helement : r.isElement = true := by
        cases hfirst
        rfl
      obtain ⟨nodes, rfl, hnodes, hlater⟩ := ih (hfilled.nodes hpool) h
      rw [hfilled.settings] at hnodes
      refine ⟨{ toElement := e, children } :: nodes, by simp, ?_, hfilled.trans hlater⟩
      rw [List.filter_cons_of_pos helement]
      exact hfirst.append hnodes
    · next content s₁ hrecord => exact hdropped hrecord (.inl rfl) h
    · next content s₁ hrecord => exact hdropped hrecord (.inr rfl) h

/-- A document that was imported from a snapshot, and the site after the import. -/
structure Imported (s : Site) (snapshot : Snapshot) (d : Document) (t : Site) : Prop where
  head : d.head = snapshot.head
  body : Restored s.settings.styleValueLength d.scope (snapshot.body.filter Record.isElement)
    (d.body.map Node.toChild)
  states : (t.store d.scope).toOrdered =
    snapshot.states.putAll (Child.capturedAll (d.body.map Node.toChild))

/-- A site with a new scope that has the states of a snapshot. -/
def opened (s : Site) (snapshot : Snapshot) : Site :=
  ({ s with stores := s.stores ++ [.empty] } : Site).setStore s.stores.length
    (.ofOrdered snapshot.states)

theorem restore_eq (s : Site) (snapshot : Snapshot) :
    s.restore snapshot =
      match importBody { scope := s.stores.length, head := snapshot.head } [] snapshot.body
        (s.opened snapshot) with
      | (none, body, t) => (.ok { scope := s.stores.length, head := snapshot.head, body }, t)
      | (some fault, body, t) =>
        (.error fault, t.drop { scope := s.stores.length, head := snapshot.head, body }) := rfl

theorem store_opened (s : Site) (snapshot : Snapshot) :
    (s.opened snapshot).store s.stores.length = .ofOrdered snapshot.states :=
  store_setStore (s := { s with stores := s.stores ++ [.empty] }) (by simp) _

theorem imported_restore {snapshot : Snapshot} {d : Document} (hpool : s.nodes.Reached)
    (h : s.restore snapshot = (.ok d, t)) : s.Imported snapshot d t := by
  rw [restore_eq] at h
  split at h
  · next body s₁ hbody =>
    obtain ⟨hd, rfl⟩ := Prod.mk.inj h
    obtain rfl := Except.ok.inj hd
    have hopened : (s.opened snapshot).nodes.Reached := hpool
    obtain ⟨nodes, rfl, hnodes, hfilled⟩ := restored_importBody hopened hbody
    refine ⟨rfl, hnodes, ?_⟩
    have hnew : s.stores.length < (s.opened snapshot).stores.length := by
      simp [opened, setStore]
    have hstates := hfilled.states hnew
    rwa [store_opened, Indexed.toOrdered_ofOrdered] at hstates
  · cases h

/-! Which imports succeed -/

/-- An element whose tag a document accepts. -/
def Accepted (e : ElementRecord) : Prop := ∃ name, Tag.normalize e.tag = .ok name

mutual

theorem exists_importRecord {r : Record} (d : Document) (h : r.Each Accepted) (s : Site) :
    ∃ c t, importRecord d r s = (.ok c, t) := by
  match r with
  | .text content | .markup content => exact ⟨_, _, rfl⟩
  | .element e children =>
    obtain ⟨⟨name, hname⟩, hchildren⟩ := h
    rw [importRecord]
    simp only [create, hname]
    obtain ⟨cs, t, heq⟩ := exists_importRecords d hchildren _
    rw [heq]
    exact ⟨_, _, rfl⟩

theorem exists_importRecords {rs : List Record} (d : Document) (h : Record.EachOf Accepted rs)
    (s : Site) : ∃ cs t, importRecords d rs s = (.ok cs, t) := by
  match rs with
  | [] => exact ⟨_, _, rfl⟩
  | r :: rs =>
    obtain ⟨c, s₁, hfirst⟩ := exists_importRecord d h.1 s
    obtain ⟨cs, s₂, hrest⟩ := exists_importRecords d h.2 s₁
    rw [importRecords, hfirst]
    simp only [hrest]
    exact ⟨_, _, rfl⟩

end

theorem exists_importBody {d : Document} {rs : List Record} (h : ∀ r ∈ rs, r.Each Accepted)
    (done : List Node) (s : Site) : ∃ body t, importBody d done rs s = (none, body, t) := by
  induction rs generalizing done s with
  | nil => exact ⟨_, _, rfl⟩
  | cons r rs ih =>
    rw [List.forall_mem_cons] at h
    obtain ⟨c, s₁, hrecord⟩ := exists_importRecord d h.1 s
    rw [importBody, hrecord]
    cases c with
    | element e children => exact ih h.2 _ _
    | text content => exact ih h.2 _ _
    | markup content => exact ih h.2 _ _

/-- A snapshot is imported if all its tags are accepted. -/
theorem exists_restore {snapshot : Snapshot} (h : ∀ r ∈ snapshot.body, r.Each Accepted)
    (s : Site) : ∃ d t, s.restore snapshot = (.ok d, t) := by
  rw [restore_eq]
  obtain ⟨body, t, heq⟩ := exists_importBody h [] (s.opened snapshot)
  rw [heq]
  exact ⟨_, _, rfl⟩

end Site

end Folio
