import Folio.Proofs.Site.Cleaned
import Folio.Proofs.Site.Restored

/-! The nodes that an import takes from the pool. They are all given back after an import that
succeeds, once its document ends. An import that fails drops the document with the top-level nodes
that are complete, so of the top-level record in which it stops nothing is given back. -/
namespace Folio

open Site (Accepted)

instance (e : ElementRecord) : Decidable (Accepted e) :=
  match h : Tag.normalize e.tag with
  | .ok name => .isTrue ⟨name, h⟩
  | .error _ => .isFalse fun ⟨_, hname⟩ => nomatch h.symm.trans hname

namespace Record

mutual

instance decidableEach (P : ElementRecord → Prop) [DecidablePred P] :
    (r : Record) → Decidable (r.Each P)
  | .text _ | .markup _ => .isTrue trivial
  | .element _ children => @instDecidableAnd _ _ _ (decidableEachOf P children)

instance decidableEachOf (P : ElementRecord → Prop) [DecidablePred P] :
    (rs : List Record) → Decidable (EachOf P rs)
  | [] => .isTrue trivial
  | r :: rs => @instDecidableAnd _ _ (decidableEach P r) (decidableEachOf P rs)

end

mutual

/-- The number of elements that are made of a record, up to the first tag that is refused. -/
def made : Record → Nat
  | .text _ | .markup _ => 0
  | .element e children => if Accepted e then madeAll children + 1 else 0

def madeAll : List Record → Nat
  | [] => 0
  | r :: rs => r.made + if r.Each Accepted then madeAll rs else 0

end

/-- The number of elements that are made of the one among the records in which a tag is refused. -/
def stranded : List Record → Nat
  | [] => 0
  | r :: rs => if r.Each Accepted then stranded rs else r.made

theorem stranded_of_forall {rs : List Record} (h : ∀ r ∈ rs, r.Each Accepted) :
    stranded rs = 0 := by
  induction rs with
  | nil => rfl
  | cons r rs ih =>
    rw [List.forall_mem_cons] at h
    rw [stranded, if_pos h.1]
    exact ih h.2

/-- The first tag that is refused in records stands at their top level. -/
def RefusedAtTop (rs : List Record) : Prop :=
  ∃ before e children after, rs = before ++ .element e children :: after ∧
    (∀ r ∈ before, r.Each Accepted) ∧ ¬ Accepted e

/-- Nothing is stranded if the first tag that is refused stands at the top level, and only then. -/
theorem stranded_eq_zero_iff {rs : List Record} (h : ¬ ∀ r ∈ rs, r.Each Accepted) :
    stranded rs = 0 ↔ RefusedAtTop rs := by
  induction rs with
  | nil => exact (h (List.forall_mem_nil _)).elim
  | cons r rs ih =>
    rw [List.forall_mem_cons] at h
    by_cases hr : r.Each Accepted
    · have hrest : ¬ ∀ r ∈ rs, r.Each Accepted := fun hrest => h ⟨hr, hrest⟩
      rw [stranded, if_pos hr, ih hrest]
      constructor
      · rintro ⟨before, e, children, after, rfl, hbefore, he⟩
        exact ⟨r :: before, e, children, after, rfl, List.forall_mem_cons.2 ⟨hr, hbefore⟩, he⟩
      · rintro ⟨before, e, children, after, heq, hbefore, he⟩
        cases before with
        | nil =>
          obtain ⟨rfl, -⟩ := List.cons.inj heq
          exact (he hr.1).elim
        | cons first before =>
          obtain ⟨-, rfl⟩ := List.cons.inj heq
          exact ⟨before, e, children, after, rfl, (List.forall_mem_cons.1 hbefore).2, he⟩
    · rw [stranded, if_neg hr]
      cases r with
      | text _ | markup _ => exact (hr trivial).elim
      | element e children =>
        by_cases he : Accepted e
        · rw [made, if_pos he]
          refine iff_of_false (Nat.succ_ne_zero _) ?_
          rintro ⟨before, f, below, after, heq, hbefore, hf⟩
          cases before with
          | nil =>
            obtain ⟨⟨rfl, -⟩, -⟩ := List.cons.inj heq |>.imp_left Record.element.inj
            exact hf he
          | cons first before =>
            obtain ⟨rfl, -⟩ := List.cons.inj heq
            exact hr (hbefore _ List.mem_cons_self)
        · rw [made, if_neg he]
          exact iff_of_true rfl ⟨[], e, children, rs, rfl, List.forall_mem_nil _, he⟩

end Record

namespace Child

theorem countAll_append (cs ds : List Child) : countAll (cs ++ ds) = countAll cs + countAll ds := by
  induction cs with
  | nil => exact (Nat.zero_add _).symm
  | cons c cs ih => rw [List.cons_append, countAll, countAll, ih, Nat.add_assoc]

theorem countAll_reverse (cs : List Child) : countAll cs.reverse = countAll cs := by
  induction cs with
  | nil => rfl
  | cons c cs ih =>
    rw [List.reverse_cons, countAll_append, ih, countAll, countAll, countAll]
    omega

end Child

/-- What comes back from records has as many elements as are made of them. -/
theorem Restored.countAll_eq {limit scope : Nat} {rs : List Record} {cs : List Child}
    (h : Restored limit scope rs cs) :
    Record.EachOf Accepted rs ∧ Child.countAll cs = Record.madeAll rs := by
  induction h with
  | nil => exact ⟨trivial, rfl⟩
  | text content _ ih =>
    have haccepted : Record.Each Accepted (.text content) := trivial
    refine ⟨⟨haccepted, ih.1⟩, ?_⟩
    rw [Child.countAll, Record.madeAll, if_pos haccepted, ih.2]
    rfl
  | markup content _ ih =>
    have haccepted : Record.Each Accepted (.markup content) := trivial
    refine ⟨⟨haccepted, ih.1⟩, ?_⟩
    rw [Child.countAll, Record.madeAll, if_pos haccepted, ih.2]
    rfl
  | element he _ _ ihchildren ih =>
    have haccepted : Accepted _ := ⟨_, he.tag⟩
    refine ⟨⟨⟨haccepted, ihchildren.1⟩, ih.1⟩, ?_⟩
    rw [Child.countAll, Child.count, Record.madeAll, if_pos ⟨haccepted, ihchildren.1⟩, Record.made,
      if_pos haccepted, ihchildren.2, ih.2]

namespace Site

/-- How far the books of the node pool go on from one site to another: by so many instances that
were handed out, and so many that were given back. -/
structure Booked (s t : Site) (handed given : Nat) : Prop where
  handed_eq : t.nodes.statistics.created + t.nodes.statistics.reused =
    s.nodes.statistics.created + s.nodes.statistics.reused + handed
  given_eq : t.nodes.statistics.released + t.nodes.statistics.discarded =
    s.nodes.statistics.released + s.nodes.statistics.discarded + given

variable {s t u : Site} {d : Document} {handed given later more : Nat}

theorem booked_of_nodes_eq (h : t.nodes = s.nodes) : Booked s t 0 0 := by
  constructor <;> rw [h] <;> rfl

theorem Booked.trans (h : Booked s t handed given) (h' : Booked t u later more) :
    Booked s u (handed + later) (given + more) := by
  obtain ⟨hhanded, hgiven⟩ := h
  obtain ⟨hlater, hmore⟩ := h'
  constructor <;> omega

/-- What changes no nodes leaves the books as they are. -/
theorem Booked.of_nodes_eq (h : Booked s t handed given) (hnodes : u.nodes = t.nodes) :
    Booked s u handed given := h.trans (booked_of_nodes_eq hnodes)

theorem booked_acquireNode (s : Site) : Booked s s.acquireNode.2 1 0 := by
  have hnodes : s.acquireNode.2.nodes = s.nodes.acquire.2.1 := rfl
  rcases s.nodes.acquire_cases with ⟨_, _, -, -, -, hs, -⟩ | ⟨-, -, -, hs, -⟩ <;>
    constructor <;> rw [hnodes, hs] <;> dsimp only <;> omega

theorem booked_of_recycled {cs : List Child} (h : t.nodes = (s.nodes.recycleAll cs).1) :
    Booked s t 0 (Child.countAll cs) := by
  constructor
  · rw [h, Pool.recycleAll_eq, Pool.created_releaseAll, Pool.reused_releaseAll]
    rfl
  · rw [h, Pool.given_recycleAll]

/-- When a document ends, all elements in it are given back. -/
theorem Cleaned.booked {r : Document × Site} (h : Cleaned s d r) :
    Booked s r.2 0 (Child.countAll (d.body.map Node.toChild)) := booked_of_recycled h.nodes_eq

/-! What an import takes -/

theorem nodes_within {α : Type} (s : Site) (scope : Option Nat) (f : Scope → α × Scope) :
    (s.within scope f).2.nodes = s.nodes := by
  cases scope <;> rfl

theorem nodes_importAttributes (n : Node) (as : List (String × String)) (s : Site) :
    (importAttributes n as s).2.nodes = s.nodes := by
  induction as generalizing n s with
  | nil => rfl
  | cons a as ih =>
    rw [importAttributes, ih]
    exact nodes_within s n.scope _

theorem nodes_importStyle (s : Site) (n : Node) (tag : String) (fragment : Option String) :
    (s.importStyle n tag fragment).2.nodes = s.nodes := by
  cases fragment with
  | none => rfl
  | some fragment =>
    rw [importStyle]
    dsimp only
    split <;> rfl

theorem nodes_importState (s : Site) (n : Node) (state : Option Json) :
    (s.importState n state).2.nodes = s.nodes := by
  cases state with
  | none => rfl
  | some value => exact nodes_within s n.scope _

mutual

/-- An import of a record takes a node for each element that is made of it, and gives none back. It
succeeds if all tags are accepted, and only then. -/
theorem booked_importRecord (d : Document) (r : Record) (s : Site) :
    Booked s (importRecord d r s).2 r.made 0 ∧
      ((∃ c, (importRecord d r s).1 = .ok c) ↔ r.Each Accepted) := by
  match r with
  | .text content | .markup content =>
    exact ⟨booked_of_nodes_eq rfl, iff_of_true ⟨.text content, rfl⟩ trivial⟩
  | .element e children =>
    rw [importRecord, Record.made, create]
    cases hname : Tag.normalize e.tag with
    | error fault =>
      have hrefused : ¬ Accepted e := fun ⟨_, h⟩ => nomatch hname.symm.trans h
      rw [if_neg hrefused]
      exact ⟨booked_of_nodes_eq rfl, iff_of_false (fun ⟨_, h⟩ => nomatch h) fun h => hrefused h.1⟩
    | ok name =>
      have haccepted : Accepted e := ⟨name, hname⟩
      rw [if_pos haccepted]
      have hnamed (n : Node) :
          Booked s (importAttributes n e.attributes.entries s.acquireNode.2).2 1 0 :=
        (booked_acquireNode s).of_nodes_eq (nodes_importAttributes n _ _)
      replace hnamed := hnamed { s.acquireNode.1 with tag := name, scope := some d.scope }
      dsimp only
      generalize importAttributes _ e.attributes.entries s.acquireNode.2 = named at hnamed ⊢
      obtain ⟨hbelow, hsucceeds⟩ := booked_importRecords d children named.2
      have htaken := hnamed.trans hbelow
      rw [Nat.add_comm 1] at htaken
      generalize importRecords d children named.2 = below at htaken hsucceeds ⊢
      obtain ⟨_ | cs, s₂⟩ := below
      · exact ⟨htaken, iff_of_false (fun ⟨_, h⟩ => nomatch h)
          fun h => nomatch hsucceeds.2 h.2⟩
      · have hlast : (s₂.importStyle (named.1.append cs) e.tag e.style).2.nodes = s₂.nodes :=
          nodes_importStyle ..
        refine ⟨htaken.of_nodes_eq ((nodes_importState ..).trans hlast), ?_⟩
        exact iff_of_true ⟨_, rfl⟩ ⟨haccepted, hsucceeds.1 ⟨cs, rfl⟩⟩

theorem booked_importRecords (d : Document) (rs : List Record) (s : Site) :
    Booked s (importRecords d rs s).2 (Record.madeAll rs) 0 ∧
      ((∃ cs, (importRecords d rs s).1 = .ok cs) ↔ Record.EachOf Accepted rs) := by
  match rs with
  | [] => exact ⟨booked_of_nodes_eq rfl, iff_of_true ⟨[], rfl⟩ trivial⟩
  | r :: rs =>
    rw [importRecords, Record.madeAll]
    obtain ⟨hfirst, hsucceeds⟩ := booked_importRecord d r s
    generalize importRecord d r s = first at hfirst hsucceeds ⊢
    obtain ⟨_ | c, s₁⟩ := first
    · have hrefused : ¬ r.Each Accepted := fun h => nomatch hsucceeds.2 h
      rw [if_neg hrefused]
      exact ⟨hfirst, iff_of_false (fun ⟨_, h⟩ => nomatch h) fun h => hrefused h.1⟩
    · have haccepted := hsucceeds.1 ⟨c, rfl⟩
      rw [if_pos haccepted]
      obtain ⟨hrest, hall⟩ := booked_importRecords d rs s₁
      have htaken := hfirst.trans hrest
      dsimp only
      generalize importRecords d rs s₁ = rest at htaken hall ⊢
      obtain ⟨_ | cs, s₂⟩ := rest
      · exact ⟨htaken, iff_of_false (fun ⟨_, h⟩ => nomatch h) fun h => nomatch hall.2 h.2⟩
      · exact ⟨htaken, iff_of_true ⟨_, rfl⟩ ⟨haccepted, hall.1 ⟨cs, rfl⟩⟩⟩

end

/-- Of the elements that are made of top-level records all are in the nodes that come back, but for
those that are stranded. -/
theorem booked_importBody (d : Document) (done : List Node) (rs : List Record)
    (hpool : s.nodes.Reached) :
    Booked s (importBody d done rs s).2.2 (Record.madeAll rs) 0 ∧
      ((importBody d done rs s).1 = none ↔ ∀ r ∈ rs, r.Each Accepted) ∧
      Child.countAll ((importBody d done rs s).2.1.map Node.toChild) + Record.stranded rs =
        Child.countAll (done.map Node.toChild) + Record.madeAll rs := by
  induction rs generalizing done s with
  | nil =>
    refine ⟨booked_of_nodes_eq rfl, iff_of_true rfl (List.forall_mem_nil _), ?_⟩
    rw [importBody, List.map_reverse, Child.countAll_reverse]
    rfl
  | cons r rs ih =>
    obtain ⟨hfirst, hsucceeds⟩ := booked_importRecord d r s
    rw [List.forall_mem_cons, Record.madeAll, Record.stranded, importBody]
    cases hrecord : importRecord d r s with
    | mk outcome s₁ =>
      rw [hrecord] at hfirst hsucceeds
      cases outcome with
      | error fault =>
        have hrefused : ¬ r.Each Accepted := by
          intro haccepted
          obtain ⟨c, hc⟩ := hsucceeds.2 haccepted
          cases hc
        rw [if_neg hrefused, if_neg hrefused, List.map_reverse, Child.countAll_reverse]
        exact ⟨hfirst, iff_of_false (Option.some_ne_none fault) fun h => hrefused h.1, rfl⟩
      | ok c =>
        have haccepted := hsucceeds.1 ⟨c, rfl⟩
        obtain ⟨hrestored, hfilled⟩ := restored_importRecord hpool hrecord
        have hcount : c.count = r.made := by
          simpa [Child.countAll, Record.madeAll] using hrestored.countAll_eq.2
        have hrest : ∀ {done' : List Node} {t : Site}, t.nodes = s₁.nodes →
            Child.countAll (done'.map Node.toChild) =
              Child.countAll (done.map Node.toChild) + c.count →
            Booked s (importBody d done' rs t).2.2 (r.made + Record.madeAll rs) 0 ∧
              ((importBody d done' rs t).1 = none ↔
                r.Each Accepted ∧ ∀ r ∈ rs, r.Each Accepted) ∧
              Child.countAll ((importBody d done' rs t).2.1.map Node.toChild) +
                  Record.stranded rs =
                Child.countAll (done.map Node.toChild) + (r.made + Record.madeAll rs) := by
          intro done' t hnodes hdone
          have hreached : t.nodes.Reached := hnodes ▸ hfilled.nodes hpool
          obtain ⟨hlater, hall, hkept⟩ := ih done' hreached
          refine ⟨(hfirst.of_nodes_eq hnodes).trans hlater, ?_, by omega⟩
          rw [hall]
          exact (and_iff_right haccepted).symm
        rw [if_pos haccepted, if_pos haccepted]
        cases c with
        | element e children =>
          refine hrest rfl ?_
          rw [List.map_cons, Child.countAll, Nat.add_comm]
          rfl
        | text content | markup content => exact hrest rfl rfl

/-! What becomes of it -/

/-- An import succeeds if all tags are accepted, and only then. The nodes that it takes are given
back when its document ends, in whichever way. An import that fails has given back all that it took
but the elements of the top-level record with the refused tag, so the books of the pool balance if
that is the tag of the record itself, and only then. -/
theorem import_gives_back (hpool : s.nodes.Reached) (snapshot : Snapshot) :
    let made := Record.madeAll snapshot.body
    let stranded := Record.stranded snapshot.body
    ((∃ d, (s.restore snapshot).1 = .ok d) ↔ ∀ r ∈ snapshot.body, r.Each Accepted) ∧
    (∀ d t, s.restore snapshot = (.ok d, t) → ∀ e : Ending,
      Booked s (e.perform t d).2 made made) ∧
    (∀ fault t, s.restore snapshot = (.error fault, t) →
      (∃ given, given + stranded = made ∧ Booked s t made given) ∧
      (Booked s t made made ↔ Record.RefusedAtTop snapshot.body)) := by
  intro made stranded
  have hopened : (s.opened snapshot).nodes.Reached := hpool
  obtain ⟨htaken, hall, hkept⟩ := booked_importBody
    { scope := s.stores.length, head := snapshot.head } [] snapshot.body hopened
  have hstart : Booked s (s.opened snapshot) 0 0 := booked_of_nodes_eq rfl
  replace htaken := hstart.trans htaken
  rw [Nat.zero_add] at htaken
  rw [List.map_nil, Child.countAll, Nat.zero_add] at hkept
  rw [restore_eq]
  generalize importBody _ [] snapshot.body (s.opened snapshot) = imported at htaken hall hkept ⊢
  obtain ⟨_ | fault, body, t⟩ := imported <;> dsimp only at htaken hall hkept ⊢
  · have haccepted := hall.1 rfl
    refine ⟨iff_of_true ⟨_, rfl⟩ haccepted, ?_, fun _ _ h => nomatch (Prod.mk.inj h).1⟩
    intro d u hrestored e
    obtain ⟨hd, rfl⟩ := Prod.mk.inj hrestored
    have hbody : body = d.body := congrArg Document.body (Except.ok.inj hd)
    have hended := htaken.trans (e.cleaned t d).booked
    rw [Record.stranded_of_forall haccepted, Nat.add_zero, hbody] at hkept
    rwa [Nat.add_zero, Nat.zero_add, hkept] at hended
  · have hrefused : ¬ ∀ r ∈ snapshot.body, r.Each Accepted := fun h => nomatch hall.2 h
    refine ⟨iff_of_false (fun ⟨_, h⟩ => nomatch h) hrefused, ?_, ?_⟩
    · intro d u hrestored
      exact nomatch (Prod.mk.inj hrestored).1
    intro fault' u hrestored
    obtain ⟨-, rfl⟩ := Prod.mk.inj hrestored
    have hcleared := t.cleaned_clear { scope := s.stores.length, head := snapshot.head, body }
    have hdropped := htaken.trans hcleared.booked
    rw [Nat.add_zero, Nat.zero_add] at hdropped
    dsimp only at hdropped
    refine ⟨⟨_, hkept, hdropped⟩, ?_⟩
    rw [← Record.stranded_eq_zero_iff hrefused]
    constructor
    · intro hbalanced
      have hsame := hbalanced.given_eq.symm.trans hdropped.given_eq
      omega
    · intro hnone
      rw [hnone, Nat.add_zero] at hkept
      rwa [hkept] at hdropped

/-- In the second record a tag is refused below `span` and beside `b`: of the four elements that are
made, the two of the first record are given back. -/
theorem import_gives_back_two_of_four :
    let bare (tag : String) : ElementRecord := { tag }
    let body : List Record :=
      [.element (bare "p") [.element (bare "b") [], .text "a"],
        .element (bare "div") [.element (bare "span") [.element (bare "1") []]]]
    let s := Site.ofSettings {} .silent 0
    s.nodes.Reached ∧ Record.madeAll body = 4 ∧ Record.stranded body = 2 ∧
      ∃ fault t, s.restore { body } = (.error fault, t) ∧ ∃ given, given + 2 = 4 ∧
        Booked s t 4 given := by
  intro bare body s
  have hpool : s.nodes.Reached := .empty _ _
  have hmade : Record.madeAll body = 4 := by decide
  have hstranded : Record.stranded body = 2 := by decide
  have hrefused : ¬ ∀ r ∈ body, r.Each Accepted := by decide
  obtain ⟨hsucceeds, -, hfailed⟩ := import_gives_back hpool { body }
  refine ⟨hpool, hmade, hstranded, ?_⟩
  cases hrestored : s.restore { body } with
  | mk outcome t =>
    rw [hrestored] at hsucceeds
    cases outcome with
    | ok d => exact (hrefused (hsucceeds.1 ⟨d, rfl⟩)).elim
    | error fault =>
      obtain ⟨hgiven, -⟩ := hfailed fault t hrestored
      rw [hmade, hstranded] at hgiven
      exact ⟨fault, t, rfl, hgiven⟩

/-- An element above a refused tag is not given back, though the import fails and nothing has it. -/
theorem import_strands_parent :
    let s := Site.ofSettings {} .silent 0
    let restored := s.restore { body := [.element { tag := "p" } [.element { tag := "" } []]] }
    restored.1 = .error .emptyTag ∧ restored.2.nodes.statistics = ⟨0, 1024, 1, 0, 0, 0⟩ ∧
      ¬ Booked s restored.2 1 1 := by
  have hstatistics : ((Site.ofSettings {} .silent 0).restore
      { body := [.element { tag := "p" } [.element { tag := "" } []]] }).2.nodes.statistics =
      ⟨0, 1024, 1, 0, 0, 0⟩ := by decide +kernel
  refine ⟨rfl, hstatistics, fun h => ?_⟩
  have hgiven := h.given_eq
  rw [hstatistics] at hgiven
  exact nomatch hgiven

end Site

end Folio
