import Folio.Proofs.Site.Restored

/-! Documents as authors get them: started empty and filled by calls, or rebuilt from a snapshot.
What holds of elements however they are come by, and is kept by calls, holds of all elements in
such a document, at any depth. -/
namespace Folio

/-- What can stand in a document: texts, trusted markup, nodes that documents make or that belong to
none, nodes rebuilt from a record, and what calls make of all these, each on a site in any state that
its pool can come to. -/
inductive Child.Made : Child → Prop
  | text (s : String) : Child.Made (.text s)
  | markup (s : String) : Child.Made (.markup s)
  | fresh : Child.Made (Reusable.fresh : Node).toChild
  | create {s t : Site} {d : Document} {tag : String} {n : Node} (hpool : s.nodes.Reached)
      (h : s.create d tag = (.ok n, t)) : Child.Made n.toChild
  | restore {s t : Site} {d : Document} {r : Record} {c : Child} (hpool : s.nodes.Reached)
      (h : Site.importRecord d r s = (.ok c, t)) : Child.Made c
  | call {s t : Site} {n m : Node} {c : Call} (hn : Child.Made n.toChild)
      (hadded : ∀ child ∈ c.added, Child.Made child) (h : s.build n c = (.ok m, t)) :
      Child.Made m.toChild
  | part {e : Element} {children : List Child} {c : Child} (h : Child.Made (.element e children))
      (hc : c ∈ children) : Child.Made c

/-- Documents that are started empty or restored from a snapshot, and then changed by calls. -/
inductive Document.Made : Document → Prop
  | new {s t : Site} {o : CacheOptions} {d : Document} (h : s.newDocument o = (d, t)) :
      Document.Made d
  | restore {s t : Site} {snapshot : Snapshot} {d : Document} (hpool : s.nodes.Reached)
      (h : s.restore snapshot = (.ok d, t)) : Document.Made d
  | push {d : Document} {nodes : List Node} (hd : Document.Made d)
      (hnodes : ∀ n ∈ nodes, n.toChild.Made) : Document.Made { d with body := d.body ++ nodes }
  | head {d : Document} (hd : Document.Made d) (calls : List Head.Call) :
      Document.Made { d with head := (Head.applyAll calls d.head).1 }
  | clear {d : Document} (hd : Document.Made d) (s : Site) : Document.Made (s.clear d).1

/-- Holds of properties that elements have in whatever way authors come by them, and that calls
keep. -/
structure Element.Kept (P : Element → Prop) : Prop where
  fresh : P (Reusable.fresh : Node).toElement
  create : ∀ {tag name : String} (scope : Option Nat), Tag.normalize tag = .ok name →
    P { tag := name, scope }
  restore : ∀ {limit scope : Nat} {e : ElementRecord} {f : Element}, e.Restores limit scope f → P f
  move : ∀ {limit : Nat} {c : Call} {n m : Node}, Node.Move limit c n m → P n.toElement →
    P m.toElement

variable {P : Element → Prop}

theorem Child.Made.each (hP : Element.Kept P) {c : Child} (h : c.Made) : c.Each P := by
  have hfresh : (Reusable.fresh : Node).toChild.Each P := Child.each_toChild.2 ⟨hP.fresh, nofun⟩
  induction h with
  | text | markup => trivial
  | fresh => exact hfresh
  | create hpool h =>
    obtain ⟨name, hname, rfl⟩ := Site.create_eq_ok hpool h
    exact Child.each_toChild.2 ⟨hP.create _ hname, nofun⟩
  | restore hpool h => exact ((Site.restored_importRecord hpool h).1.each hP.restore).1
  | call _ _ h ihn ihadded =>
    exact Site.build_keeps (P := fun n => n.toChild.Each P) hfresh
      (fun _ _ _ hmove => hmove.each (hP.move hmove) ihadded) h ihn
  | part _ hc ih => exact Child.eachOf_iff.1 ih.2 _ hc

theorem Document.Made.each (hP : Element.Kept P) {d : Document} (h : d.Made) :
    ∀ n ∈ d.body, n.toChild.Each P := by
  induction h with
  | new h =>
    unfold Site.newDocument at h
    obtain ⟨rfl, -⟩ := Prod.mk.inj h
    exact nofun
  | restore hpool h =>
    have hbody := (Site.imported_restore hpool h).body.each hP.restore
    exact fun n hn => Child.eachOf_iff.1 hbody _ (List.mem_map_of_mem hn)
  | push _ hnodes ih => exact List.forall_mem_append.2 ⟨ih, fun n hn => (hnodes n hn).each hP⟩
  | head _ _ ih => exact ih
  | clear _ _ => exact nofun

theorem Element.kept_guarded : Element.Kept Element.Guarded where
  fresh := Element.guarded_fresh
  create _ _ := ⟨nofun, nofun⟩
  restore h := h.guarded
  move h := h.guarded

end Folio
