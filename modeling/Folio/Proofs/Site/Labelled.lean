import Folio.Proofs.Page.Issued
import Folio.Proofs.Site.Cleaned
import Folio.Proofs.Site.Restored
import Mathlib.Data.List.Perm.Subperm

/-! The ids that a site issues. Whatever is done on a site, the ids that elements take from its run
are numbers that it had not come to before, each for one element. Elements without a document have
ids of runs of their own. -/
namespace Folio

namespace Child

mutual

/-- All elements of a child, each before those below it. -/
def elements : Child → List Element
  | .text _ | .markup _ => []
  | .element e children => e :: elementsAll children

def elementsAll : List Child → List Element
  | [] => []
  | c :: cs => c.elements ++ elementsAll cs

end

/-- The ids of all elements, those that are not empty. -/
def idsAll (cs : List Child) : List String := (elementsAll cs).filterMap Element.id?

theorem elementsAll_eq_flatMap (cs : List Child) : elementsAll cs = cs.flatMap elements := by
  induction cs with
  | nil => rfl
  | cons c cs ih => rw [elementsAll, ih, List.flatMap_cons]

theorem idsAll_append (cs ds : List Child) : idsAll (cs ++ ds) = idsAll cs ++ idsAll ds := by
  simp only [idsAll, elementsAll_eq_flatMap, List.flatMap_append, List.filterMap_append]

theorem idsAll_perm {cs ds : List Child} (h : cs.Perm ds) : (idsAll cs).Perm (idsAll ds) := by
  simp only [idsAll, elementsAll_eq_flatMap]
  exact (h.flatMap_right _).filterMap _

theorem idsAll_cons_element (e : Element) (children cs : List Child) :
    idsAll (.element e children :: cs) = e.id?.toList ++ idsAll children ++ idsAll cs := by
  simp only [idsAll, elementsAll, elements, List.filterMap_append]
  cases h : e.id? <;> simp [h]

theorem idsAll_toChild (n : Node) : idsAll [n.toChild] = n.id?.toList ++ idsAll n.children := by
  rw [Node.toChild, idsAll_cons_element]
  exact List.append_nil _

end Child

/-- A record that gives no id of the form that ids of a run have. -/
def ElementRecord.Foreign (ids : Ids) (e : ElementRecord) : Prop :=
  ∀ a ∈ e.attributes.entries, Text.kebab a.1 = "id" → ¬ ids.Own a.2

/-- Two ids that are different, if they are ids of a run. -/
def Ids.Apart (ids : Ids) (i j : String) : Prop := ids.Own i → i ≠ j

theorem Ids.Apart.symm {ids : Ids} {i j : String} (h : ids.Apart i j) : ids.Apart j i := by
  rintro hj rfl
  exact h hj rfl

theorem Ids.own_congr {ids ids' : Ids} (h : ids'.run = ids.run) {i : String} :
    ids'.Own i ↔ ids.Own i := by
  simp only [Own, nth_congr h]

namespace Site

variable {s t u : Site} {new more : List String} {n m : Node} {c : Call}

/-- The run of the site is one of those that were taken already. -/
def Grounded (s : Site) : Prop := ∃ run < s.nextRun, s.ids.run = Ids.runName run

/-- What happened to the source of ids and to the pool while elements came to the ids `new`: of
these the ones of the run of the site are numbers that were issued in the meantime, each once. -/
structure Issues (s t : Site) (new : List String) : Prop where
  run_eq : t.ids.run = s.ids.run
  issued_le : s.ids.issued ≤ t.ids.issued
  nextRun_le : s.nextRun ≤ t.nextRun
  reached : s.nodes.Reached → t.nodes.Reached
  span : ∀ k, s.ids.nth k ∈ new → s.ids.issued < k ∧ k ≤ t.ids.issued
  apart : new.Pairwise s.ids.Apart

namespace Issues

theorem nil (hids : t.ids = s.ids) (hrun : s.nextRun ≤ t.nextRun)
    (hreached : s.nodes.Reached → t.nodes.Reached) : Issues s t [] :=
  ⟨by rw [hids], Nat.le_of_eq (by rw [hids]), hrun, hreached, nofun, .nil⟩

theorem refl (s : Site) : Issues s s [] := nil rfl (Nat.le_refl _) id

theorem grounded (h : Issues s t new) (hs : s.Grounded) : t.Grounded := by
  obtain ⟨run, hrun, heq⟩ := hs
  exact ⟨run, Nat.lt_of_lt_of_le hrun h.nextRun_le, h.run_eq.trans heq⟩

theorem own_iff (h : Issues s t new) {i : String} : t.ids.Own i ↔ s.ids.Own i :=
  Ids.own_congr h.run_eq

/-- Some of the ids may be lost again. -/
theorem subperm (h : Issues s t new) (hmore : more.Subperm new) : Issues s t more := by
  obtain ⟨kept, hperm, hsublist⟩ := hmore
  refine ⟨h.run_eq, h.issued_le, h.nextRun_le, h.reached, fun k hk => ?_, ?_⟩
  · exact h.span k (hsublist.subset (hperm.mem_iff.2 hk))
  · exact (hperm.pairwise_iff Ids.Apart.symm).1 (h.apart.sublist hsublist)

theorem trans (h : Issues s t new) (h' : Issues t u more) : Issues s u (new ++ more) := by
  have hnth := Ids.nth_congr h.run_eq
  have hle := h'.issued_le
  have hge := h.issued_le
  refine ⟨h'.run_eq.trans h.run_eq, Nat.le_trans hge hle, Nat.le_trans h.nextRun_le h'.nextRun_le,
    fun hs => h'.reached (h.reached hs), fun k hk => ?_, ?_⟩
  · rcases List.mem_append.1 hk with hk | hk
    · have hspan := h.span k hk
      omega
    · have hspan := h'.span k (hnth k ▸ hk)
      omega
  · refine List.pairwise_append.2 ⟨h.apart, ?_, ?_⟩
    · refine h'.apart.imp fun {i j} hij hown => hij (h.own_iff.2 hown)
    · rintro i hi j hj ⟨k, rfl⟩ rfl
      have hearly := h.span k hi
      have hlate := h'.span k (hnth k ▸ hj)
      omega

end Issues

/-! Work in a scope -/

theorem issues_within_nil {α : Type} {f : Scope → α × Scope} (s : Site) (scope : Option Nat)
    (h : ∀ sc, (f sc).2.ids = sc.ids) : Issues s (s.within scope f).2 [] := by
  cases scope with
  | none => exact .nil rfl (Nat.le_succ _) id
  | some k => exact .nil (h _) (Nat.le_refl _) id

/-- An id of another form is no concern of the run. -/
theorem Issues.foreign {i : String} (h : Issues s t []) (hi : ¬ s.ids.Own i) : Issues s t [i] := by
  refine ⟨h.run_eq, h.issued_le, h.nextRun_le, h.reached, fun k hk => ?_,
    List.pairwise_singleton ..⟩
  exact (hi ⟨k, (List.mem_singleton.1 hk).symm⟩).elim

/-- Ids of runs that were not taken before are no ids of the run of the site. -/
theorem Grounded.not_own (hs : s.Grounded) (k : Nat) :
    ¬ s.ids.Own ((Ids.ofRun s.nextRun).nth k) := by
  obtain ⟨run, hrun, heq⟩ := hs
  rintro ⟨j, hj⟩
  have hsite : s.ids.nth j = (Ids.ofRun run).nth j := Ids.nth_congr heq j
  have hsame := Ids.run_eq_of_nth_eq (hj.trans hsite)
  omega

/-- What is done with a node in its scope may issue an id, which the node then has. -/
theorem exists_issues_within {α : Type} {f : Scope → α × Scope} {a : α} (hs : s.Grounded)
    (scope : Option Nat) (ha : (s.within scope f).1 = a)
    (h : ∀ sc, (f sc).1 = a → n.Labelled sc.ids m (f sc).2.ids) :
    ∃ new, Issues s (s.within scope f).2 new ∧ m.id?.toList.Subperm (n.id?.toList ++ new) := by
  cases scope with
  | none =>
    have hstart : Issues s (s.within none f).2 [] := .nil rfl (Nat.le_succ _) id
    have hlabelled := h (.detached s.nextRun) ha
    generalize (f (.detached s.nextRun)).2.ids = ids' at hlabelled
    cases hlabelled with
    | kept hid =>
      refine ⟨[], hstart, ?_⟩
      rw [hid, List.append_nil]
    | issued hnone hid =>
      refine ⟨_, hstart.foreign (hs.not_own 1), ?_⟩
      rw [hid, hnone]
      exact .refl _
  | some k =>
    have hids : (s.within (some k) f).2.ids = (f (s.shared k)).2.ids := rfl
    have hlabelled := h (s.shared k) ha
    generalize (f (s.shared k)).2.ids = ids' at hids hlabelled
    cases hlabelled with
    | kept hid =>
      refine ⟨[], .nil hids (Nat.le_refl _) id, ?_⟩
      rw [hid, List.append_nil]
    | issued hnone hid =>
      refine ⟨[s.ids.next.1], ⟨?_, ?_, Nat.le_refl _, id, fun j hj => ?_,
        List.pairwise_singleton ..⟩, ?_⟩
      · rw [hids]
        rfl
      · rw [hids]
        exact Nat.le_succ _
      · obtain rfl := Ids.nth_injective (List.mem_singleton.1 hj)
        rw [hids]
        exact ⟨Nat.lt_succ_self _, Nat.le_refl _⟩
      · rw [hid, hnone]
        exact .refl _

/-! Builder calls -/

theorem issues_crash {e : Crash} (h : s.build n c = (.error e, t)) : Issues s t [] := by
  obtain ⟨sc, hsc⟩ := s.exists_within n.scope fun sc => n.apply sc c
  have hcrash : (n.apply sc c).1 = .error e := by rw [← hsc, ← build, h]
  obtain ⟨value, rfl⟩ := Node.eq_id_of_crash hcrash
  have hissues := s.issues_within_nil n.scope
    fun _ => Node.ids_of_givenId (n := n) (c := .id value) rfl
  rwa [← build, h] at hissues

/-- After a call its node has the id that it had, the one that it was given, or the next one. -/
theorem exists_issues_id (hs : s.Grounded)
    (hgiven : ∀ i, c.givenId? = some i → ¬ s.ids.Own i) (h : s.build n c = (.ok m, t)) :
    ∃ new, Issues s t new ∧ m.id?.toList.Subperm (n.id?.toList ++ new) := by
  obtain ⟨states, hchange, -⟩ := change_build h
  have ht : (s.within n.scope fun sc => n.apply sc c).2 = t := by rw [← build, h]
  by_cases hclear : c = .reset
  · subst hclear
    refine ⟨[], ?_, ?_⟩
    · have hissues := s.issues_within_nil n.scope (f := fun sc => n.apply sc .reset) fun _ => rfl
      rwa [ht] at hissues
    · rw [hchange.eq_fresh]
      exact List.nil_subperm
  cases hvalue : c.givenId? with
  | some value =>
    have hissues := s.issues_within_nil n.scope fun _ => Node.ids_of_givenId (n := n) hvalue
    rw [ht] at hissues
    refine ⟨[value], hissues.foreign (hgiven value hvalue), ?_⟩
    refine List.Subperm.trans ?_ (List.sublist_append_right ..).subperm
    rw [Element.id?, hchange.get?_id_of_givenId hvalue]
    by_cases hempty : value = ""
    · simp [hempty]
    · simp [hempty]
  | none =>
    have hresult : (s.within n.scope fun sc => n.apply sc c).1 = .ok m := by rw [← build, h]
    have hissues := exists_issues_within (n := n) (m := m) hs n.scope hresult
      fun sc hsc => Node.labelled_apply hvalue hclear (Prod.ext hsc rfl)
    rwa [ht] at hissues

/-- A call that finds an id on its node leaves it there and takes none, unless it gives one or
clears the node. -/
theorem keeps_id (hid : n.id?.isSome) (hgiven : c.givenId? = none) (hclear : c ≠ .reset)
    (h : s.build n c = (.ok m, t)) : m.id? = n.id? ∧ t.ids = s.ids := by
  have hkept {sc sc' : Scope} (happly : n.apply sc c = (.ok m, sc')) :
      m.id? = n.id? ∧ sc'.ids = sc.ids := by
    have hlabelled := Node.labelled_apply hgiven hclear happly
    generalize sc'.ids = ids' at hlabelled ⊢
    cases hlabelled with
    | kept hsame => exact ⟨hsame, rfl⟩
    | issued hnone _ => simp [hnone] at hid
  unfold build within at h
  cases hscope : n.scope with
  | none =>
    rw [hscope] at h
    dsimp only at h
    generalize hresult : n.apply _ c = r at h
    obtain ⟨built, sc⟩ := r
    obtain ⟨rfl, rfl⟩ := Prod.mk.inj h
    exact ⟨(hkept hresult).1, rfl⟩
  | some k =>
    rw [hscope] at h
    dsimp only at h
    generalize hresult : n.apply _ c = r at h
    obtain ⟨built, sc⟩ := r
    obtain ⟨rfl, rfl⟩ := Prod.mk.inj h
    exact hkept hresult

/-- Below a node there are after a call the ids that were there, and those of what it added. -/
theorem exists_issues_build (hs : s.Grounded)
    (hgiven : ∀ i, c.givenId? = some i → ¬ s.ids.Own i) (h : s.build n c = (.ok m, t)) :
    ∃ new, Issues s t new ∧ (Child.idsAll [m.toChild]).Subperm
      (Child.idsAll [n.toChild] ++ Child.idsAll c.added ++ new) := by
  obtain ⟨new, hissues, hid⟩ := exists_issues_id hs hgiven h
  obtain ⟨states, hchange, -⟩ := change_build h
  have hbelow : (Child.idsAll m.children).Sublist
      (Child.idsAll n.children ++ Child.idsAll c.added) := by
    by_cases hclear : c = .reset
    · subst hclear
      rw [hchange.eq_fresh]
      exact List.nil_sublist _
    · rw [hchange.children_eq hclear, Child.idsAll_append]
  refine ⟨new, hissues, ?_⟩
  rw [Child.idsAll_toChild, Child.idsAll_toChild, List.append_assoc, List.append_assoc]
  refine (hid.append hbelow.subperm).trans ?_
  rw [List.append_assoc, ← List.append_assoc (Child.idsAll n.children)]
  exact (List.perm_append_comm.append_left _).subperm

/-! Imports -/

theorem issues_report (s : Site) (rs : List Report) : Issues s (s.report rs) [] :=
  .nil rfl (Nat.le_refl _) id

theorem issues_importAttributes (n : Node) (as : List (String × String)) (s : Site) :
    Issues s (importAttributes n as s).2 [] := by
  induction as generalizing n s with
  | nil => exact .refl s
  | cons a as ih =>
    have hfirst := s.issues_within_nil n.scope fun sc => Node.ids_attr n sc a.1 a.2
    rw [importAttributes]
    exact hfirst.trans (ih _ _)

theorem issues_importStyle (s : Site) (n : Node) (tag : String) (fragment : Option String) :
    Issues s (s.importStyle n tag fragment).2 [] := by
  cases fragment with
  | none => exact .refl s
  | some fragment =>
    rw [importStyle]
    dsimp only
    split
    · exact s.issues_report _
    · exact .refl s

theorem exists_issues_importState (hs : s.Grounded) (n : Node) (state : Option Json) :
    ∃ new, Issues s (s.importState n state).2 new ∧
      (s.importState n state).1.id?.toList.Subperm (n.id?.toList ++ new) := by
  cases state with
  | none =>
    refine ⟨[], .refl s, ?_⟩
    rw [List.append_nil]
    exact .refl _
  | some value =>
    refine exists_issues_within hs n.scope rfl fun sc hsc => ?_
    rw [importState, ← hsc]
    exact Node.labelled_captureResult n sc (.ok value)

theorem issues_create (s : Site) (d : Document) (tag : String) :
    Issues s (s.create d tag).2 [] := by
  unfold create
  split
  · exact .refl s
  · exact .nil rfl (Nat.le_refl _) Pool.Reached.acquire

section Records

variable {ids : Ids}

/-- An element that comes back has an id of the run of the site only if it takes the next one. -/
theorem exists_issues_collected (hs : s.Grounded) (hrun : s.ids.run = ids.run) {e : ElementRecord}
    (he : e.Foreign ids) (hn : n.attributes = Head.collect e.attributes.entries) :
    ∃ new, Issues s (s.importState n e.state).2 new ∧
      (s.importState n e.state).1.id?.toList.Subperm new := by
  obtain ⟨new, hissues, hid⟩ := exists_issues_importState hs n e.state
  cases hold : n.id? with
  | none =>
    rw [hold] at hid
    exact ⟨new, hissues, hid⟩
  | some i =>
    have hforeign : ¬ s.ids.Own i := by
      have hget := (Element.get?_of_id? hold).1
      rw [hn] at hget
      obtain ⟨hmem, -⟩ := List.mem_filter.1 (Ordered.mem_of_get?_ofList hget)
      obtain ⟨a, ha, heq⟩ := List.mem_map.1 hmem
      obtain ⟨hname, rfl⟩ := Prod.mk.inj heq
      exact fun hown => he a ha hname ((Ids.own_congr hrun).1 hown)
    rw [hold] at hid
    exact ⟨_, ((Issues.refl s).foreign hforeign).trans hissues, hid⟩

/-- The style and the state of an element, which come after its children. -/
theorem exists_issues_completed (hs : s.Grounded) (hrun : s.ids.run = ids.run) {e : ElementRecord}
    (he : e.Foreign ids) {name : String} {scope : Nat} {children : List Child}
    (hn : n =
      { tag := name, attributes := Head.collect e.attributes.entries, scope := some scope,
        children }) :
    let styled := s.importStyle n e.tag e.style
    let completed := styled.2.importState styled.1 e.state
    ∃ new, Issues s completed.2 new ∧
      (Child.idsAll [completed.1.toChild]).Subperm (Child.idsAll children ++ new) := by
  intro styled completed
  have hstyled : Issues s styled.2 [] := s.issues_importStyle n e.tag e.style
  have hattributes : styled.1.attributes = Head.collect e.attributes.entries := by
    rw [(importStyle_eq scope s n e.tag e.style).1, hn]
  obtain ⟨f, hnode, -, -⟩ := importState_importStyle_eq s e hn
  have hchildren : completed.1.children = children := congrArg Node.children hnode
  obtain ⟨new, hissues, hid⟩ := exists_issues_collected (hstyled.grounded hs)
    (hstyled.run_eq.trans hrun) he hattributes
  refine ⟨new, hstyled.trans hissues, ?_⟩
  rw [Child.idsAll_toChild, hchildren]
  exact (hid.append (.refl _)).trans List.perm_append_comm.subperm

mutual

theorem exists_issues_importRecord {r : Record} (d : Document) {s : Site} (hs : s.Grounded)
    (hrun : s.ids.run = ids.run) (hpool : s.nodes.Reached)
    (hr : r.Each (ElementRecord.Foreign ids)) :
    ∃ new, Issues s (importRecord d r s).2 new ∧
      ∀ c, (importRecord d r s).1 = .ok c → (Child.idsAll [c]).Subperm new := by
  match r with
  | .text content | .markup content =>
    refine ⟨[], .refl s, fun c hc => ?_⟩
    obtain rfl := Except.ok.inj hc
    exact List.nil_subperm
  | .element e children =>
    have hcreated := s.issues_create d e.tag
    rw [importRecord]
    cases hcreate : s.create d e.tag with
    | mk outcome s₁ =>
      rw [hcreate] at hcreated
      cases outcome with
      | error fault => exact ⟨[], hcreated, nofun⟩
      | ok n =>
        obtain ⟨name, -, rfl⟩ := create_eq_ok hpool hcreate
        have hnamed := issues_importAttributes { tag := name, scope := some d.scope }
          e.attributes.entries s₁
        obtain ⟨hattributes, -⟩ :=
          importAttributes_of_created d.scope name e.attributes.entries s₁
        dsimp only
        generalize importAttributes _ e.attributes.entries s₁ = named at hattributes hnamed ⊢
        obtain ⟨n, s₂⟩ := named
        dsimp only at hattributes hnamed ⊢
        subst hattributes
        have hstart := hcreated.trans hnamed
        obtain ⟨new, hbelow, hids⟩ := exists_issues_importRecords d (hstart.grounded hs)
          (hstart.run_eq.trans hrun) (hstart.reached hpool) hr.2
        generalize importRecords d children s₂ = below at hbelow hids ⊢
        obtain ⟨_ | cs, s₃⟩ := below
        · exact ⟨_, hstart.trans hbelow, nofun⟩
        · have hmade := hstart.trans hbelow
          obtain ⟨more, hlast, hall⟩ := exists_issues_completed (hmade.grounded hs)
            (hmade.run_eq.trans hrun) hr.1 (rfl : Node.append
              { tag := name, attributes := Head.collect e.attributes.entries,
                scope := some d.scope } cs = _)
          refine ⟨_, hmade.trans hlast, fun c hc => ?_⟩
          obtain rfl := Except.ok.inj hc
          exact hall.trans ((hids cs rfl).append (.refl _))

theorem exists_issues_importRecords {rs : List Record} (d : Document) {s : Site} (hs : s.Grounded)
    (hrun : s.ids.run = ids.run) (hpool : s.nodes.Reached)
    (hr : Record.EachOf (ElementRecord.Foreign ids) rs) :
    ∃ new, Issues s (importRecords d rs s).2 new ∧
      ∀ cs, (importRecords d rs s).1 = .ok cs → (Child.idsAll cs).Subperm new := by
  match rs with
  | [] =>
    refine ⟨[], .refl s, fun cs hcs => ?_⟩
    obtain rfl := Except.ok.inj hcs
    exact List.nil_subperm
  | r :: rs =>
    obtain ⟨new, hfirst, hids⟩ := exists_issues_importRecord d hs hrun hpool hr.1
    rw [importRecords]
    generalize importRecord d r s = first at hfirst hids ⊢
    obtain ⟨_ | c, s₁⟩ := first
    · exact ⟨new, hfirst, nofun⟩
    · obtain ⟨more, hrest, hmore⟩ := exists_issues_importRecords d (hfirst.grounded hs)
        (hfirst.run_eq.trans hrun) (hfirst.reached hpool) hr.2
      dsimp only
      generalize importRecords d rs s₁ = rest at hrest hmore ⊢
      obtain ⟨_ | cs, s₂⟩ := rest
      · exact ⟨_, hfirst.trans hrest, nofun⟩
      · refine ⟨_, hfirst.trans hrest, fun all hall => ?_⟩
        obtain rfl := Except.ok.inj hall
        rw [← List.singleton_append, Child.idsAll_append]
        exact (hids c rfl).append (hmore cs rfl)

end

theorem exists_issues_importBody {rs : List Record} (d : Document) (done : List Node) {s : Site}
    (hs : s.Grounded) (hrun : s.ids.run = ids.run) (hpool : s.nodes.Reached)
    (hrs : ∀ r ∈ rs, r.Each (ElementRecord.Foreign ids)) :
    ∃ new, Issues s (importBody d done rs s).2.2 new ∧
      (Child.idsAll ((importBody d done rs s).2.1.map Node.toChild)).Subperm
        (Child.idsAll (done.map Node.toChild) ++ new) := by
  induction rs generalizing done s with
  | nil =>
    refine ⟨[], .refl s, ?_⟩
    rw [importBody, List.append_nil]
    exact (Child.idsAll_perm ((List.reverse_perm done).map _)).subperm
  | cons r rs ih =>
    rw [List.forall_mem_cons] at hrs
    obtain ⟨new, hfirst, hids⟩ := exists_issues_importRecord d hs hrun hpool hrs.1
    rw [importBody]
    generalize importRecord d r s = first at hfirst hids ⊢
    obtain ⟨_ | c, s₁⟩ := first
    · refine ⟨new, hfirst, ?_⟩
      have hreversed := Child.idsAll_perm ((List.reverse_perm done).map Node.toChild)
      exact hreversed.subperm.trans (List.sublist_append_left ..).subperm
    · replace hids := hids c rfl
      -- text at the top level is reported and left out
      have hdropped (content : String) := ih done ((hfirst.trans (issues_report s₁
        [.log .debug "top-level text dropped on import" [("content", content)]])).grounded hs)
        (hfirst.run_eq.trans hrun) (hfirst.reached hpool) hrs.2
      cases c with
      | element e children =>
        obtain ⟨more, hrest, hall⟩ := ih ({ toElement := e, children } :: done)
          (hfirst.grounded hs) (hfirst.run_eq.trans hrun) (hfirst.reached hpool) hrs.2
        refine ⟨_, hfirst.trans hrest, hall.trans ?_⟩
        rw [List.map_cons, ← List.singleton_append, Child.idsAll_append, ← List.append_assoc]
        refine List.Subperm.append ?_ (.refl _)
        exact (hids.append (.refl _)).trans List.perm_append_comm.subperm
      | text content | markup content =>
        obtain ⟨more, hrest, hall⟩ := hdropped content
        have hreported := hfirst.trans (issues_report s₁
          [.log .debug "top-level text dropped on import" [("content", content)]])
        refine ⟨_, hreported.trans hrest, hall.trans (List.Subperm.append (.refl _) ?_)⟩
        exact (List.sublist_append_right ..).subperm

end Records

/-! Documents -/

/-- What gives trees back to the pool issues nothing. -/
theorem issues_recycled {cs : List Child} (hids : t.ids = s.ids) (hrun : t.nextRun = s.nextRun)
    (hnodes : t.nodes = (s.nodes.recycleAll cs).1) : Issues s t [] :=
  .nil hids (Nat.le_of_eq hrun.symm) fun h => hnodes ▸ h.recycleAll cs

theorem Cleaned.issues {d : Document} {r : Document × Site} (h : Cleaned s d r) :
    Issues s r.2 [] := issues_recycled h.ids_eq h.nextRun_eq h.nodes_eq

theorem issues_newDocument (s : Site) (o : CacheOptions) : Issues s (s.newDocument o).2 [] := by
  unfold newDocument advise
  dsimp only
  split
  · split <;> exact .nil rfl (Nat.le_refl _) id
  · exact .nil rfl (Nat.le_refl _) id

theorem exists_issues_restore (hs : s.Grounded) (hpool : s.nodes.Reached) {snapshot : Snapshot}
    (hsnapshot : ∀ r ∈ snapshot.body, r.Each (ElementRecord.Foreign s.ids)) :
    ∃ new, Issues s (s.restore snapshot).2 new ∧
      ∀ d, (s.restore snapshot).1 = .ok d →
        (Child.idsAll (d.body.map Node.toChild)).Subperm new := by
  have hopened : Issues s (s.opened snapshot) [] := .nil rfl (Nat.le_refl _) id
  obtain ⟨new, htaken, hids⟩ := exists_issues_importBody
    { scope := s.stores.length, head := snapshot.head } [] (hopened.grounded hs) hopened.run_eq
    hpool hsnapshot
  rw [restore_eq]
  generalize importBody _ [] snapshot.body (s.opened snapshot) = imported at htaken hids ⊢
  obtain ⟨_ | fault, body, t⟩ := imported
  · refine ⟨_, hopened.trans htaken, fun d hd => ?_⟩
    obtain rfl := Except.ok.inj hd
    exact hids
  · have hdropped := (t.cleaned_clear
      { scope := s.stores.length, head := snapshot.head, body }).issues
    exact ⟨_, (hopened.trans htaken).trans hdropped, fun _ h => nomatch h⟩

end Site

end Folio
