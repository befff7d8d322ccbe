import Folio.Proofs.Page.Collected
import Folio.Proofs.Site.Made
import Folio.Proofs.Site.Returned
import Folio.Proofs.Snapshot.Codec

/-! Captured states through an export, its JSON text, and an import of what is read from the text.
Every state comes back at the place where it was captured, except for the value null: an element
whose state is null comes back without state, though the states of the document keep the value. -/
namespace Folio

/-! Names in normal form -/

/-- An element with names in normal form. A cleared element has no tag. -/
structure Element.Normal (e : Element) : Prop where
  tag : e.tag = "" ∨ Tag.normalize e.tag = .ok e.tag
  attributes : ∀ name ∈ e.attributes.keys, Text.IsAttributeName name

theorem Node.Move.normal {limit : Nat} {c : Call} {n m : Node} (h : Node.Move limit c n m)
    (hn : n.toElement.Normal) : m.toElement.Normal := by
  cases h with
  | set value hname => exact ⟨hn.tag, Ordered.forall_mem_keys_insert value hname hn.attributes⟩
  | append | style | state | computed | bind | listen => exact ⟨hn.tag, hn.attributes⟩

theorem Element.kept_normal : Element.Kept Element.Normal where
  fresh := ⟨.inl rfl, List.forall_mem_nil _⟩
  create _ h := ⟨.inr (Tag.normalize_of_normalize h), List.forall_mem_nil _⟩
  restore h := ⟨.inr (Tag.normalize_of_normalize h.tag), h.isAttributeName⟩
  move h := h.normal

/-! Corresponding elements -/

/-- Children of the same shape, whose elements at the same places are related. Markup corresponds to
a text. -/
inductive Child.Matched (R : Element → Element → Prop) : List Child → List Child → Prop
  | nil : Child.Matched R [] []
  | text (s : String) {cs ds : List Child} (h : Child.Matched R cs ds) :
    Child.Matched R (.text s :: cs) (.text s :: ds)
  | markup (s : String) {cs ds : List Child} (h : Child.Matched R cs ds) :
    Child.Matched R (.markup s :: cs) (.text s :: ds)
  | element {e f : Element} {children below cs ds : List Child} (he : R e f)
    (hchildren : Child.Matched R children below) (h : Child.Matched R cs ds) :
    Child.Matched R (.element e children :: cs) (.element f below :: ds)

/-- An element that came back through a text: with its tag and its state, unless that was null, and
under its id, if it had one. -/
structure Element.Persists (e f : Element) : Prop where
  tag : f.tag = e.tag
  state : f.state = e.state.filter (!·.isNull)
  id : e.id?.isSome → f.id? = e.id?

variable {limit scope : Nat}

theorem ElementRecord.Restores.persists {e f : Element} (he : e.Normal) (htag : e.tag ≠ "")
    (h : e.record.asRead.Restores limit scope f) : e.Persists f := by
  have hnormal := he.tag.resolve_left htag
  have hcollect : Head.collect e.attributes.entries = e.attributes :=
    Head.collect_entries he.attributes
  refine ⟨(Except.ok.inj (hnormal.symm.trans h.tag)).symm, h.state, fun hid => ?_⟩
  rcases h.attributes with heq | ⟨-, hnone, -⟩
  · exact congrArg (fun as : Ordered String String => (as.get? "id").filter (!·.isEmpty))
      (heq.trans hcollect)
  · have hmissing : e.id? = none := by
      rw [Element.id?, ← hcollect]
      exact hnone
    rw [hmissing] at hid
    cases hid

theorem Record.isElement_asRead (r : Record) : r.asRead.isElement = r.isElement := by
  cases r <;> rfl

/-- What is restored from the records of children, as they were read, matches the children. -/
theorem Child.matched_of_restored {cs ds : List Child}
    (hcs : EachOf (fun e => e.Normal ∧ e.tag ≠ "") cs)
    (h : Restored limit scope (Record.asReadAll (records cs)) ds) :
    Matched Element.Persists cs ds := by
  match cs with
  | [] =>
    cases h
    exact .nil
  | .text s :: cs =>
    cases h with
    | text _ h => exact .text s (matched_of_restored hcs.2 h)
  | .markup s :: cs =>
    cases h with
    | markup _ h => exact .markup s (matched_of_restored hcs.2 h)
  | .element e children :: cs =>
    obtain ⟨⟨⟨hnormal, htag⟩, hbelow⟩, hrest⟩ := hcs
    cases h with
    | element he hchildren h =>
      exact .element (he.persists hnormal htag) (matched_of_restored hbelow hchildren)
        (matched_of_restored hrest h)

theorem Child.accepted_asReadAll {cs : List Child}
    (hcs : EachOf (fun e => e.Normal ∧ e.tag ≠ "") cs) :
    Record.EachOf Site.Accepted (Record.asReadAll (records cs)) := by
  match cs with
  | [] => trivial
  | .text _ :: cs | .markup _ :: cs => exact ⟨trivial, accepted_asReadAll hcs.2⟩
  | .element e children :: cs =>
    obtain ⟨⟨⟨hnormal, htag⟩, hbelow⟩, hrest⟩ := hcs
    exact ⟨⟨⟨e.tag, hnormal.tag.resolve_left htag⟩, accepted_asReadAll hbelow⟩,
      accepted_asReadAll hrest⟩

/-! The states that the page sets up -/

theorem Element.Persists.stateEntries_eq {e f : Element} (h : e.Persists f)
    (hid : e.state.isSome → e.id?.isSome) :
    f.stateEntries = e.stateEntries.filter (!·.value.isNull) := by
  unfold Element.stateEntries
  cases hstate : e.state with
  | none =>
    have hnone : f.state = none := by rw [h.state, hstate]; rfl
    rw [hnone]
    cases e.id? <;> cases f.id? <;> rfl
  | some value =>
    have hsome : e.id?.isSome := hid (by rw [hstate]; rfl)
    rw [h.id hsome, h.state, h.tag, hstate]
    obtain ⟨id, heq⟩ := Option.isSome_iff_exists.1 hsome
    rw [heq]
    cases value <;> rfl

theorem Child.Matched.stateEntriesAll_eq {cs ds : List Child}
    (h : Matched Element.Persists cs ds)
    (hcs : EachOf (fun e => e.state.isSome → e.id?.isSome) cs) :
    stateEntriesAll ds = (stateEntriesAll cs).filter (!·.value.isNull) := by
  induction h with
  | nil => rfl
  | text s _ ih => exact ih hcs.2
  | markup s _ ih => exact ih hcs.2
  | @element e f _ _ _ _ he _ _ ihchildren ih =>
    obtain ⟨⟨hid, hbelow⟩, hrest⟩ := hcs
    simp only [stateEntriesAll, stateEntries, List.filter_append, ih hrest, he.stateEntries_eq hid,
      he.tag]
    split
    · rfl
    · rw [ihchildren hbelow]

namespace Site

variable {s t : Site} {d : Document}

/-- A document of named elements, whose values the text format can hold, is written, read and
imported again, by whatever site. Each of its elements comes back at its place with the state that
it captured, unless that was null; and if all states were captured under ids, a page of the import
sets up the same states as a page of the document, in the same order, but for values null. -/
theorem states_persist (hd : d.Made) (hnamed : ∀ n ∈ d.body, n.toChild.Each fun e => e.tag ≠ "")
    (hcanonical : ∀ v ∈ (s.snapshot d).values, v.Canonical)
    (hreads : ∀ v ∈ (s.snapshot d).values, v.ReadsBack)
    (hdepth : (s.snapshot d).json.depth ≤ Json.depthLimit) (hpool : t.nodes.Reached) :
    ∃ snapshot d' t', Snapshot.read? (s.snapshot d).text = some snapshot ∧
      t.restore snapshot = (.ok d', t') ∧
      Child.Matched Element.Persists (d.body.map Node.toChild) (d'.body.map Node.toChild) ∧
      ((∀ n ∈ d.body, n.toChild.Each fun e => e.state.isSome → e.id?.isSome) →
        ∀ settings, (Context.collect settings d'.body {}).1.states =
          (Context.collect settings d.body {}).1.states.filter (!·.value.isNull)) := by
  have hread := Snapshot.read?_text_eq_asRead hcanonical hreads hdepth
  have hnormal : Child.EachOf (fun e => e.Normal ∧ e.tag ≠ "") (d.body.map Node.toChild) :=
    Child.eachOf_map_toChild fun n hn =>
      Child.each_imp₂ (fun _ he htag => ⟨he, htag⟩) (hd.each Element.kept_normal n hn) (hnamed n hn)
  have haccepted : ∀ r ∈ (s.snapshot d).asRead.body, r.Each Accepted :=
    Record.eachOf_iff.1 (Child.accepted_asReadAll hnormal)
  obtain ⟨d', t', hrestored⟩ := exists_restore haccepted t
  have himported := (imported_restore hpool hrestored).body
  have hsame : (s.snapshot d).asRead.body.filter Record.isElement = (s.snapshot d).asRead.body := by
    rw [List.filter_eq_self, Snapshot.asRead, Record.asReadAll_eq_map]
    refine List.forall_mem_map.2 fun r hr => ?_
    rw [Record.isElement_asRead]
    exact Child.isElement_of_mem_records r hr
  rw [hsame] at himported
  have hmatched := Child.matched_of_restored hnormal himported
  refine ⟨_, d', t', hread, hrestored, hmatched, fun hcaptured settings => ?_⟩
  have hentries := hmatched.stateEntriesAll_eq (Child.eachOf_map_toChild hcaptured)
  rw [Context.states_collect, Context.states_collect]
  simpa using hentries

/-! A document with one state -/

/-- A paragraph that captured a value under the id `k`, with children. -/
def holding (v : Json) (children : List Child) : Node :=
  { tag := "p", attributes := ⟨[("id", "k")], by decide⟩, children, state := some v,
    scope := some 0 }

/-- What is written of a document with that paragraph. -/
def heldSnapshot (v : Json) (children : List Child) : Snapshot :=
  ⟨{}, [.element { tag := "p", attributes := ⟨[("id", "k")], by decide⟩, state := some v }
      (Child.records children)],
    ⟨[("k", v)], List.pairwise_singleton ..⟩⟩

theorem exists_holding (v : Json) {children : List Child} (hchildren : ∀ c ∈ children, c.Made) :
    ∃ (s : Site) (d : Document), s.nodes.Reached ∧ d.Made ∧ d.body = [holding v children] ∧
      s.snapshot d = heldSnapshot v children := by
  let s : Site := (Site.newDocument (.ofSettings {} .silent 0) {}).2
  have hpool : s.nodes.Reached := .empty 1024 Pool.nodeNames
  have hempty := Document.Made.new (rfl : (Site.ofSettings {} .silent 0).newDocument {} = (_, s))
  have hp := Child.Made.create hpool
    (rfl : s.create ((Site.ofSettings {} .silent 0).newDocument {}).1 "p" = (.ok _, _))
  have hid := hp.call (s := s) (c := .id "k") nofun rfl
  have hstate := hid.call (s := s) (c := .state (.ok v)) nofun rfl
  have hnode : (holding v children).toChild.Made :=
    hstate.call (s := s) (c := .append children) hchildren rfl
  refine ⟨s.setStore 0 (Indexed.empty.insert "k" v), _, hpool,
    hempty.push (List.forall_mem_singleton.2 hnode), rfl, ?_⟩
  have hstore : ((s.setStore 0 (Indexed.empty.insert "k" v)).store 0).toOrdered =
      ⟨[("k", v)], List.pairwise_singleton ..⟩ := by
    rw [store_setStore (by decide), Indexed.toOrdered_insert]
    rfl
  exact congrArg (Snapshot.mk _ _) hstore

/-- A captured text, with trusted markup below it. -/
theorem states_persist_text :
    ∃ (s : Site) (d : Document), d.Made ∧
      d.body = [holding (.string "v") [.markup "<b></b>"]] ∧
      ∃ snapshot d' t', Snapshot.read? (s.snapshot d).text = some snapshot ∧
        s.restore snapshot = (.ok d', t') ∧
        Child.Matched Element.Persists (d.body.map Node.toChild) (d'.body.map Node.toChild) ∧
        ((∀ n ∈ d.body, n.toChild.Each fun e => e.state.isSome → e.id?.isSome) →
          ∀ settings, (Context.collect settings d'.body {}).1.states =
            (Context.collect settings d.body {}).1.states.filter (!·.value.isNull)) := by
  obtain ⟨s, d, hpool, hd, hbody, hsnapshot⟩ :=
    exists_holding (.string "v") (List.forall_mem_singleton.2 (.markup "<b></b>"))
  have hnamed : ∀ n ∈ d.body, n.toChild.Each fun e => e.tag ≠ "" := by
    rw [hbody]
    exact List.forall_mem_singleton.2 ⟨by decide, trivial, trivial⟩
  have hvalues : (s.snapshot d).values = [.string "v", .string "v"] := by
    rw [hsnapshot]
    rfl
  have hcanonical : ∀ v ∈ (s.snapshot d).values, v.Canonical := by
    simp [hvalues, Json.Canonical]
  have hreads : ∀ v ∈ (s.snapshot d).values, v.ReadsBack := by
    simp [hvalues, Json.ReadsBack]
  have hdepth : (s.snapshot d).json.depth ≤ Json.depthLimit := by
    rw [hsnapshot]
    decide
  exact ⟨s, d, hd, hbody, states_persist hd hnamed hcanonical hreads hdepth hpool⟩

/-- A captured null is lost, though the states of the document keep it. -/
theorem state_null_lost :
    ∃ (s t u : Site) (d d' : Document) (snapshot : Snapshot), d.Made ∧
      d.body.map (fun n => (n.id?, n.state)) = [(some "k", some .null)] ∧
      Snapshot.read? (s.snapshot d).text = some snapshot ∧ t.restore snapshot = (.ok d', u) ∧
      d'.body.map (fun n => (n.id?, n.state)) = [(some "k", none)] ∧
      snapshot.states.entries = [("k", .null)] := by
  obtain ⟨s, d, -, hd, hbody, hsnapshot⟩ := exists_holding .null (List.forall_mem_nil Child.Made)
  have hvalues : (heldSnapshot .null []).values = [.null, .null] := rfl
  have hread : Snapshot.read? (s.snapshot d).text = some (heldSnapshot .null []).asRead := by
    rw [hsnapshot]
    exact Snapshot.read?_text_eq_asRead (by simp [hvalues, Json.Canonical])
      (by simp [hvalues, Json.ReadsBack]) (by decide)
  have hrestored : (Site.ofSettings {} .silent 0).restore (heldSnapshot .null []).asRead =
      (.ok _, _) := rfl
  exact ⟨s, _, _, d, _, _, hd, by rw [hbody]; rfl, hread, hrestored, rfl, rfl⟩

end Site

end Folio
