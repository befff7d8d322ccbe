import Folio.Proofs.Site.Labelled

/-! Authors at work on one site, as a step system: documents are opened, filled, rendered, cleared
and closed, nodes are made, built, nested and given back, snapshots are restored, and the site is
reset. Every node is in one place, and no id is given that has the form of an id of the run. Then no
id is issued twice, and no two elements have an id of the run in common. -/
namespace Folio

/-- The node of an element among children. -/
def Child.node? : Child → Option Node
  | .element e children => some { toElement := e, children }
  | .text _ | .markup _ => none

/-- A site with the documents that are open and the nodes that are in hand. -/
structure Workshop where
  site : Site
  documents : List Document := []
  hand : List Node := []

namespace Workshop

/-- The ids of nodes and of all elements below them. -/
def inHand (nodes : List Node) : List String := Child.idsAll (nodes.map Node.toChild)

/-- The ids of all elements in documents. -/
def inDocuments (documents : List Document) : List String :=
  documents.flatMap fun d => inHand d.body

/-- The ids of all elements, at any depth, in hand and in documents. -/
def ids (w : Workshop) : List String := inHand w.hand ++ inDocuments w.documents

/-- One step of an author. Texts and markup are at hand whenever a call adds them. -/
inductive Step (w : Workshop) : Workshop → Prop
  | document (o : CacheOptions) :
    Step w ⟨(w.site.newDocument o).2, (w.site.newDocument o).1 :: w.documents, w.hand⟩
  | create {d : Document} {tag : String} {n : Node} {t : Site} (hd : d ∈ w.documents)
    (h : w.site.create d tag = (.ok n, t)) : Step w ⟨t, w.documents, n :: w.hand⟩
  /-- A node without document. -/
  | fresh : Step w { w with hand := Reusable.fresh :: w.hand }
  | acquire : Step w ⟨w.site.acquireNode.2, w.documents, w.site.acquireNode.1 :: w.hand⟩
  | call {n m : Node} {rest : List Node} {c : Call} {t : Site}
    (hhand : w.hand.Perm (n :: (c.added.filterMap Child.node? ++ rest)))
    (hgiven : ∀ i, c.givenId? = some i → ¬ w.site.ids.Own i)
    (h : w.site.build n c = (.ok m, t)) : Step w ⟨t, w.documents, m :: rest⟩
  /-- A call breaks off, and its node is gone. -/
  | crash {n : Node} {rest : List Node} {c : Call} {e : Crash} {t : Site}
    (hhand : w.hand.Perm (n :: rest)) (h : w.site.build n c = (.error e, t)) :
    Step w ⟨t, w.documents, rest⟩
  | lose {n : Node} {rest : List Node} (hhand : w.hand.Perm (n :: rest)) :
    Step w { w with hand := rest }
  | release {n : Node} {rest : List Node} (hhand : w.hand.Perm (n :: rest)) :
    Step w ⟨w.site.releaseNode n, w.documents, rest⟩
  | recycle {nodes rest : List Node} (hhand : w.hand.Perm (nodes ++ rest)) :
    Step w ⟨w.site.recycleAll nodes, w.documents, rest⟩
  | push {before after : List Document} {d : Document} {nodes rest : List Node}
    (hdocuments : w.documents = before ++ d :: after) (hhand : w.hand.Perm (nodes ++ rest)) :
    Step w ⟨w.site, before ++ { d with body := d.body ++ nodes } :: after, rest⟩
  | head {before after : List Document} {d : Document}
    (hdocuments : w.documents = before ++ d :: after) (head : Head) :
    Step w ⟨w.site, before ++ { d with head } :: after, w.hand⟩
  | finish {before after : List Document} {d : Document}
    (hdocuments : w.documents = before ++ d :: after) (e : Site.Ending) :
    Step w ⟨(e.perform w.site d).2, before ++ (e.perform w.site d).1 :: after, w.hand⟩
  /-- A page is made for a request, which looks into the cache for itself. -/
  | compute {before after : List Document} {d : Document}
    (hdocuments : w.documents = before ++ d :: after) :
    Step w ⟨(w.site.renderUncached d).2.2, before ++ (w.site.renderUncached d).2.1 :: after, w.hand⟩
  | close {before after : List Document} {d : Document}
    (hdocuments : w.documents = before ++ d :: after) :
    Step w ⟨w.site.drop d, before ++ after, w.hand⟩
  | restore {snapshot : Snapshot} {d : Document} {t : Site}
    (hsnapshot : ∀ r ∈ snapshot.body, r.Each (ElementRecord.Foreign w.site.ids))
    (h : w.site.restore snapshot = (.ok d, t)) : Step w ⟨t, d :: w.documents, w.hand⟩
  /-- A snapshot is refused, and what was made of it is dropped. -/
  | refuse {snapshot : Snapshot} {fault : StructureFault} {t : Site}
    (hsnapshot : ∀ r ∈ snapshot.body, r.Each (ElementRecord.Foreign w.site.ids))
    (h : w.site.restore snapshot = (.error fault, t)) : Step w ⟨t, w.documents, w.hand⟩
  | reset : Step w ⟨w.site.reset, w.documents, w.hand⟩
  /-- What touches neither ids nor nodes: the cache, requests, reports, rendering nodes alone. -/
  | aside {t : Site} (hids : t.ids = w.site.ids) (hrun : t.nextRun = w.site.nextRun)
    (hnodes : t.nodes = w.site.nodes) : Step w ⟨t, w.documents, w.hand⟩

abbrev Run : Workshop → Workshop → Prop := Relation.ReflTransGen Step

variable {w w' : Workshop}

/-! What is in hand and in documents -/

theorem idsAll_nodes (cs : List Child) :
    Child.idsAll ((cs.filterMap Child.node?).map Node.toChild) = Child.idsAll cs := by
  induction cs with
  | nil => rfl
  | cons c cs ih =>
    have hcons (c : Child) (cs : List Child) :
        Child.idsAll (c :: cs) = Child.idsAll [c] ++ Child.idsAll cs := Child.idsAll_append [c] cs
    cases c with
    | element e children =>
      rw [hcons, ← ih]
      exact hcons _ _
    | text | markup => exact ih

theorem inHand_append (nodes rest : List Node) :
    inHand (nodes ++ rest) = inHand nodes ++ inHand rest := by
  rw [inHand, List.map_append, Child.idsAll_append]
  rfl

theorem inHand_cons (n : Node) (nodes : List Node) :
    inHand (n :: nodes) = Child.idsAll [n.toChild] ++ inHand nodes := inHand_append [n] nodes

theorem inHand_perm {nodes rest : List Node} (h : nodes.Perm rest) :
    (inHand nodes).Perm (inHand rest) := Child.idsAll_perm (h.map _)

theorem inDocuments_append (before after : List Document) :
    inDocuments (before ++ after) = inDocuments before ++ inDocuments after :=
  List.flatMap_append

theorem inDocuments_cons (d : Document) (documents : List Document) :
    inDocuments (d :: documents) = inHand d.body ++ inDocuments documents :=
  List.flatMap_cons

/-- Some of the ids that were there may be gone, and others may have come. -/
theorem subperm_of_count {is js : List String} (h : ∀ i, is.count i ≤ js.count i) :
    is.Subperm js := List.subperm_ext_iff.2 fun i _ => h i

theorem ids_mk (t : Site) (documents : List Document) (hand : List Node) :
    (Workshop.mk t documents hand).ids = inHand hand ++ inDocuments documents := rfl

/-! Steps and runs -/

/-- A step in which no id comes. -/
theorem exists_issues_of_nil {t : Site} {documents : List Document} {hand : List Node}
    (hissues : w.site.Issues t [])
    (hids : ∀ i, (inHand hand).count i + (inDocuments documents).count i ≤
      (inHand w.hand).count i + (inDocuments w.documents).count i) :
    ∃ new, w.site.Issues t new ∧ (Workshop.mk t documents hand).ids.Subperm (w.ids ++ new) := by
  refine ⟨[], hissues, subperm_of_count fun i => ?_⟩
  rw [List.append_nil, ids_mk, List.count_append, ids, List.count_append]
  exact hids i

theorem count_inHand {nodes : List Node} (hhand : w.hand.Perm nodes) (i : String) :
    (inHand w.hand).count i = (inHand nodes).count i := (inHand_perm hhand).count_eq i

theorem count_inDocuments {before after : List Document} {d : Document}
    (hdocuments : w.documents = before ++ d :: after) (i : String) :
    (inDocuments w.documents).count i = (inDocuments before).count i +
      ((inHand d.body).count i + (inDocuments after).count i) := by
  rw [hdocuments, inDocuments_append, inDocuments_cons, List.count_append, List.count_append]

/-- An element that is just made has no id. -/
theorem inHand_made {n : Node} (hn : n.id? = none) (hchildren : n.children = [])
    (nodes : List Node) : inHand (n :: nodes) = inHand nodes := by
  rw [inHand_cons, Child.idsAll_toChild, hn, hchildren]
  rfl

/-- A document comes to its end, and the ids in it are gone. -/
theorem exists_issues_of_cleaned {before after : List Document} {d : Document}
    {r : Document × Site} (hdocuments : w.documents = before ++ d :: after)
    (hcleaned : Site.Cleaned w.site d r) :
    ∃ new, w.site.Issues r.2 new ∧
      (Workshop.mk r.2 (before ++ r.1 :: after) w.hand).ids.Subperm (w.ids ++ new) := by
  refine exists_issues_of_nil hcleaned.issues fun i => ?_
  have hempty : (inHand []).count i = 0 := List.count_nil
  rw [count_inDocuments hdocuments, inDocuments_append, inDocuments_cons, hcleaned.document_eq,
    List.count_append, List.count_append]
  dsimp only
  omega

/-- All ids that are there after a step were there before, or are among those that came. -/
theorem Step.exists_issues (h : w.Step w') (hs : w.site.Grounded) (hpool : w.site.nodes.Reached) :
    ∃ new, w.site.Issues w'.site new ∧ w'.ids.Subperm (w.ids ++ new) := by
  cases h with
  | document o => exact exists_issues_of_nil (w.site.issues_newDocument o) fun i => Nat.le_refl _
  | @create d tag n t hd h =>
    have hissues := w.site.issues_create d tag
    rw [h] at hissues
    obtain ⟨name, -, rfl⟩ := Site.create_eq_ok hpool h
    refine exists_issues_of_nil hissues fun i => Nat.le_of_eq ?_
    rw [inHand_made rfl rfl]
  | fresh => exact exists_issues_of_nil (.refl _) fun i => Nat.le_refl _
  | acquire =>
    have hfresh : w.site.acquireNode.1 = Reusable.fresh := hpool.acquire_eq_fresh
    refine exists_issues_of_nil (.nil rfl (Nat.le_refl _) Pool.Reached.acquire) fun i =>
      Nat.le_of_eq ?_
    rw [hfresh, inHand_made rfl rfl]
  | @call n m rest c t hhand hgiven h =>
    obtain ⟨new, hissues, hids⟩ := Site.exists_issues_build hs hgiven h
    refine ⟨new, hissues, subperm_of_count fun i => ?_⟩
    have hnode := hids.count_le i
    have hhand := count_inHand hhand i
    have hadded : inHand (c.added.filterMap Child.node?) = Child.idsAll c.added := idsAll_nodes _
    rw [ids_mk, inHand_cons, ids]
    rw [inHand_cons, inHand_append, hadded] at hhand
    simp only [List.count_append] at hnode hhand ⊢
    omega
  | crash hhand h =>
    refine exists_issues_of_nil (Site.issues_crash h) fun i => ?_
    rw [count_inHand hhand, inHand_cons, List.count_append]
    omega
  | lose hhand =>
    refine exists_issues_of_nil (.refl _) fun i => ?_
    rw [count_inHand hhand, inHand_cons, List.count_append]
    omega
  | release hhand =>
    refine exists_issues_of_nil (.nil rfl (Nat.le_refl _) fun hr => hr.release _) fun i => ?_
    rw [count_inHand hhand, inHand_cons, List.count_append]
    omega
  | recycle hhand =>
    refine exists_issues_of_nil (Site.issues_recycled rfl rfl rfl) fun i => ?_
    rw [count_inHand hhand, inHand_append, List.count_append]
    omega
  | push hdocuments hhand =>
    refine exists_issues_of_nil (.refl _) fun i => ?_
    rw [count_inDocuments hdocuments, count_inHand hhand, inDocuments_append, inDocuments_cons,
      inHand_append, inHand_append]
    simp only [List.count_append]
    omega
  | head hdocuments head =>
    refine exists_issues_of_nil (.refl _) fun i => Nat.le_of_eq ?_
    rw [hdocuments, inDocuments_append, inDocuments_append, inDocuments_cons, inDocuments_cons]
  | finish hdocuments e => exact exists_issues_of_cleaned hdocuments (e.cleaned ..)
  | compute hdocuments => exact exists_issues_of_cleaned hdocuments (Site.cleaned_renderUncached ..)
  | @close before after d hdocuments =>
    refine exists_issues_of_nil (w.site.cleaned_clear d).issues fun i => ?_
    rw [count_inDocuments hdocuments, inDocuments_append, List.count_append]
    omega
  | @restore snapshot d t hsnapshot h =>
    obtain ⟨new, hissues, hids⟩ := Site.exists_issues_restore hs hpool hsnapshot
    rw [h] at hissues hids
    refine ⟨new, hissues, subperm_of_count fun i => ?_⟩
    have hbody : (inHand d.body).count i ≤ new.count i := (hids d rfl).count_le i
    rw [ids_mk, inDocuments_cons, ids]
    simp only [List.count_append]
    omega
  | refuse hsnapshot h =>
    obtain ⟨new, hissues, -⟩ := Site.exists_issues_restore hs hpool hsnapshot
    rw [h] at hissues
    exact exists_issues_of_nil (hissues.subperm List.nil_subperm) fun i => Nat.le_refl _
  | reset =>
    exact exists_issues_of_nil (.nil rfl (Nat.le_refl _) Pool.Reached.clear) fun i => Nat.le_refl _
  | aside hids hrun hnodes =>
    exact exists_issues_of_nil (.nil hids (Nat.le_of_eq hrun.symm) fun hr => hnodes ▸ hr)
      fun i => Nat.le_refl _

/-- The same for a whole run. -/
theorem Run.exists_issues (h : w.Run w') (hs : w.site.Grounded) (hpool : w.site.nodes.Reached) :
    ∃ new, w.site.Issues w'.site new ∧ w'.ids.Subperm (w.ids ++ new) := by
  induction h with
  | refl => exact ⟨[], .refl _, (List.sublist_append_left ..).subperm⟩
  | tail _ hlast ih =>
    obtain ⟨new, hissues, hids⟩ := ih
    obtain ⟨more, hmore, hlater⟩ :=
      hlast.exists_issues (hissues.grounded hs) (hissues.reached hpool)
    refine ⟨new ++ more, hissues.trans hmore, hlater.trans ?_⟩
    rw [← List.append_assoc]
    exact hids.append (.refl _)

/-- No id is issued twice on a site, whatever its authors do: what is issued comes after all that
was issued before, all ids of the run that elements have were issued, and no two elements have the
same. An element gets one of them only when it is issued, and a call that finds an id on its node
leaves it there and takes none. -/
theorem ids_issued_once {settings : Settings} {sink : Sink} {firstRun : Nat}
    (h : Run { site := Site.ofSettings settings sink firstRun } w) :
    let own := w.site.ids.Own
    let past := w.site.ids.past
    w.site.ids.run = Ids.runName firstRun ∧ past.Nodup ∧
    (∀ i ∈ w.ids, own i → i ∈ past) ∧ w.ids.Pairwise (fun i j => own i → i ≠ j) ∧
    (∀ w', w.Step w' → w'.site.ids.run = w.site.ids.run ∧ ∃ new, w'.site.ids.past = past ++ new ∧
      ∀ i ∈ w'.ids, own i → i ∉ w.ids → i ∈ new) ∧
    ∀ (n m : Node) (c : Call) (t : Site), w.site.build n c = (.ok m, t) → n.id?.isSome →
      c.givenId? = none → c ≠ .reset → m.id? = n.id? ∧ t.ids = w.site.ids := by
  intro own past
  have hs : (Site.ofSettings settings sink firstRun).Grounded :=
    ⟨firstRun, Nat.lt_succ_self _, rfl⟩
  obtain ⟨came, hissues, hids⟩ := h.exists_issues hs (.empty _ _)
  have hlive := hissues.subperm hids
  refine ⟨hissues.run_eq, w.site.ids.nodup_past, ?_, ?_, ?_, ?_⟩
  · rintro i hi ⟨k, rfl⟩
    rw [Ids.nth_congr hissues.run_eq] at hi
    exact Ids.nth_mem_past.2 (hlive.span k hi)
  · exact hlive.apart.imp fun hij hown => hij (hissues.own_iff.1 hown)
  · intro w' hstep
    obtain ⟨new, hnew, hlater⟩ :=
      hstep.exists_issues (hissues.grounded hs) (hissues.reached (.empty _ _))
    refine ⟨hnew.run_eq, _, Ids.past_append hnew.run_eq hnew.issued_le, ?_⟩
    rintro i hi ⟨k, rfl⟩ hfresh
    have hcame := (List.mem_append.1 (hlater.subset hi)).resolve_left hfresh
    have hspan := hnew.span k hcame
    rw [Ids.fst_take]
    exact List.mem_map.2 ⟨k, List.mem_range'_1.2 (by omega), rfl⟩
  · intro n m c t hbuild hid hgiven hclear
    exact Site.keeps_id hid hgiven hclear hbuild

/-- Two elements that take an id each, the second after the site was reset. -/
theorem ids_issued_once_after_reset :
    ∃ w : Workshop, Run { site := Site.ofSettings {} .silent 0 } w ∧
      w.ids = ["w00000000-2", "w00000000-1"] ∧
      w.site.ids.past = ["w00000000-1", "w00000000-2"] ∧
      w.site.nodes.statistics.created = 1 ∧ w.site.ids.past.Nodup ∧
      w.ids.Pairwise fun i j => w.site.ids.Own i → i ≠ j := by
  have hcreate (s : Site) (hpool : s.nodes.Reached) :
      s.create { scope := 0 } "p" = (.ok { tag := "p", scope := some 0 }, s.acquireNode.2) := by
    have hfresh : s.acquireNode.1 = Reusable.fresh := hpool.acquire_eq_fresh
    have hname : Tag.normalize "p" = .ok "p" := rfl
    simp only [Site.create, hname, hfresh]
    rfl
  have hnamed (w : Workshop) (hpool : w.site.nodes.Reached) (hd : { scope := 0 } ∈ w.documents) :
      w.Run ⟨(w.site.acquireNode.2.ensureId { tag := "p", scope := some 0 }).2, w.documents,
        (w.site.acquireNode.2.ensureId { tag := "p", scope := some 0 }).1 :: w.hand⟩ := by
    have hmade : w.Step _ := .create hd (hcreate w.site hpool)
    exact (Relation.ReflTransGen.single hmade).tail (.call (c := .autoId) (.refl _) nofun rfl)
  have hopened : Run { site := Site.ofSettings {} .silent 0 } _ := .single (.document {})
  have hfirst := hopened.trans (hnamed _ (.empty _ _) (List.mem_singleton.2 rfl))
  have hreset := hfirst.tail .reset
  have hlast := hreset.trans
    (hnamed _ (Pool.Reached.acquire (.empty _ _)).clear (List.mem_singleton.2 rfl))
  obtain ⟨-, honce, -, hapart, -⟩ := ids_issued_once hlast
  exact ⟨_, hlast, by decide +kernel, by decide +kernel, by decide +kernel, honce, hapart⟩

end Workshop

end Folio
