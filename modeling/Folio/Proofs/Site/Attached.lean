import Folio.Proofs.Site.Bench
import Mathlib.Data.List.Forall2
import Mathlib.Data.List.Nodup

/-! Listeners and the ids of their elements. A listener keeps the id that its element had when it
was captured, and the id that its target had then. As long as an element with listeners and an
element that is referred to keep their ids, these are the ids under which both stand in the rendered
page. -/
namespace Folio

/-- The source of a listener statement is the one that was captured, with the target put in. -/
theorem Hydration.eq_of_listenerSource? {limits : Client.Limits} {e : ListenerEntry}
    {source : String} (h : listenerSource? limits e = some source) :
    source = match e.targetId with
      | some id => Client.substitute id e.source
      | none => e.source := by
  simp only [listenerSource?, Option.ite_none_right_eq_some] at h
  exact (Option.some.inj h.2).symm

namespace Bench

variable {b b' : Bench} {act : Act} {q : Numbered} {l : Listener} {target : Option Nat}

/-- Some listener on the bench refers to the element with a number. -/
def Referred (b : Bench) (number : Nat) : Prop := ∃ q ∈ b.elements, some number ∈ q.targets

/-- An element that keeps listeners, or that is referred to, keeps its id. -/
def Act.Steady (b : Bench) : Act → Prop
  | .call own _ own' =>
    b.Referred own.number ∨ (own.element.listeners ≠ [] ∧ own'.element.listeners ≠ []) →
      own'.element.id? = own.element.id?
  | .create | .lose => True

/-- A listener without target substitutes no id, and any other the id that its target has. -/
def Aims (b : Bench) (l : Listener) : Option Nat → Prop
  | none => l.targetId = none
  | some number => number < b.given ∧ ∃ id, l.targetId = some id ∧
      ∀ q ∈ b.elements, q.number = number → q.element.id? = some id

/-- Every listener names the id of its element and aims at its target. -/
structure Attached (b : Bench) (q : Numbered) : Prop where
  own : ∀ l ∈ q.element.listeners, q.element.id? = some l.nodeId
  targets : List.Forall₂ b.Aims q.element.listeners q.targets

/-- The numbers tell the elements apart, and all listeners are attached. -/
structure Sound (b : Bench) : Prop where
  nodup : (b.elements.map Numbered.number).Nodup
  lt_given : ∀ q ∈ b.elements, q.number < b.given
  attached : ∀ q ∈ b.elements, b.Attached q

/-- The element with a number, if it is still there, has the id that it had. -/
def KeepsId (b b' : Bench) (number : Nat) : Prop :=
  ∀ q' ∈ b'.elements, q'.number = number →
    ∃ q ∈ b.elements, q.number = number ∧ q'.element.id? = q.element.id?

/-- What is referred to keeps its id. -/
theorem Step.keepsId (h : b.Step act b') (hpool : b.site.nodes.Reached) (hsteady : act.Steady b)
    {number : Nat} (hreferred : b.Referred number) (hlt : number < b.given) :
    b.KeepsId b' number := by
  intro q' hq' hnumber
  cases act with
  | create =>
    obtain ⟨tag, scope, helements, -, -⟩ := h.elements_create hpool
    rw [helements] at hq'
    rcases List.mem_cons.1 hq' with rfl | hq'
    · exact (Nat.ne_of_lt hlt hnumber.symm).elim
    · exact ⟨q', hq', hnumber, rfl⟩
  | call own c own' =>
    obtain ⟨below, m, target, others, others', -, rfl, -, hperm, helements, hsub, -⟩ :=
      h.elements_call
    rw [helements] at hq'
    rcases List.mem_cons.1 hq' with rfl | hq'
    · subst hnumber
      exact ⟨own, hperm.mem_iff.2 List.mem_cons_self, rfl, hsteady (.inl hreferred)⟩
    · exact ⟨q', hperm.mem_iff.2 (List.mem_cons_of_mem _ (hsub.subset hq')), hnumber, rfl⟩
  | lose =>
    obtain ⟨own, others, hperm, hsub, -, -⟩ := h.elements_lose
    exact ⟨q', hperm.mem_iff.2 (List.mem_cons_of_mem _ (hsub.subset hq')), hnumber, rfl⟩

theorem Aims.mono (h : b.Aims l target) (hgiven : b.given ≤ b'.given)
    (hkeeps : ∀ number, target = some number → number < b.given → b.KeepsId b' number) :
    b'.Aims l target := by
  cases target with
  | none => exact h
  | some number =>
    obtain ⟨hlt, id, hid, hall⟩ := h
    refine ⟨Nat.lt_of_lt_of_le hlt hgiven, id, hid, fun q' hq' hnumber => ?_⟩
    obtain ⟨q, hq, hsame, hkept⟩ := hkeeps number rfl hlt q' hq' hnumber
    rw [hkept, hall q hq hsame]

/-- Listeners that stay aim at what they aimed at. -/
theorem forall₂_aims {ls : List Listener} {targets : List (Option Nat)}
    (h : List.Forall₂ b.Aims ls targets) (hgiven : b.given ≤ b'.given)
    (hkeeps : ∀ number, some number ∈ targets → number < b.given → b.KeepsId b' number) :
    List.Forall₂ b'.Aims ls targets := by
  rw [List.forall₂_iff_zip] at h ⊢
  refine ⟨h.1, fun {l target} hzip => (h.2 hzip).mono hgiven fun number htarget => ?_⟩
  exact hkeeps number (htarget ▸ (List.of_mem_zip hzip).2)

/-- A listener that is just captured aims at the element that the call refers to. -/
theorem aims_of_refers {candidates : List Numbered} {event source : String}
    (h : (Call.listen event l.targetId source).Refers candidates target)
    (hsubset : candidates ⊆ b.elements) (hnodup : (b.elements.map Numbered.number).Nodup)
    (hlt : ∀ q ∈ b.elements, q.number < b.given) : b.Aims l target := by
  generalize hid : l.targetId = targetId at h
  cases h with
  | @target own id _ _ hown hownid =>
    refine ⟨hlt own (hsubset hown), id, hid, fun q hq hnumber => ?_⟩
    rw [List.inj_on_of_nodup_map hnodup hq (hsubset hown) hnumber, hownid]
  | none hnone => exact hid.trans hnone

/-- The targets that are noted after a call are those of the listeners after it. -/
theorem forall₂_after {own : Numbered} {m : Node} {below : List Piece} {limits : Client.Limits}
    {states states' : States} {c : Call} {candidates : List Numbered}
    (hchange : (own.node below).Change limits states c m states')
    (hold : List.Forall₂ b.Aims own.element.listeners own.targets)
    (hrefers : c.Refers candidates target) (hsubset : candidates ⊆ b.elements)
    (hnodup : (b.elements.map Numbered.number).Nodup)
    (hlt : ∀ q ∈ b.elements, q.number < b.given) :
    List.Forall₂ b.Aims m.listeners (own.after m target).targets := by
  have hlength := hold.length_eq
  change List.Forall₂ b.Aims m.listeners ((own.targets ++ [target]).take m.listeners.length)
  rcases hchange.listeners_cases with hsame | hnone | ⟨event, source, l, rfl, hadded, -⟩
  · have hsame : m.listeners = own.element.listeners := hsame
    rw [hsame, List.take_left' hlength.symm]
    exact hold
  · rw [hnone]
    exact .nil
  · have hadded : m.listeners = own.element.listeners ++ [l] := hadded
    have haims : b.Aims l target := aims_of_refers hrefers hsubset hnodup hlt
    rw [hadded, List.take_of_length_le (by simp [hlength])]
    exact List.rel_append hold (.cons haims .nil)

/-- Every listener names the id of its element, unless that had listeners before and changed its
id. -/
theorem nodeId_after {own : Numbered} {m : Node} {below : List Piece} {limits : Client.Limits}
    {states states' : States} {c : Call}
    (hchange : (own.node below).Change limits states c m states')
    (hold : ∀ l ∈ own.element.listeners, own.element.id? = some l.nodeId)
    (hid : own.element.listeners ≠ [] ∧ m.listeners ≠ [] → m.id? = own.element.id?) :
    ∀ l ∈ m.listeners, m.id? = some l.nodeId := by
  have hkept : ∀ l ∈ own.element.listeners, m.listeners ≠ [] → m.id? = some l.nodeId := by
    intro l hl hm
    rw [hid ⟨List.ne_nil_of_mem hl, hm⟩, hold l hl]
  intro l hl
  rcases hchange.listeners_cases with hsame | hnone | ⟨event, source, l', rfl, hadded, hnew⟩
  · exact hkept l (hsame ▸ hl) (List.ne_nil_of_mem hl)
  · rw [hnone] at hl
    cases hl
  · rcases List.mem_append.1 (hadded ▸ hl) with hmem | hmem
    · exact hkept l hmem (List.ne_nil_of_mem hl)
    · rw [List.mem_singleton.1 hmem, hnew]

theorem Sound.step (hb : b.Sound) (h : b.Step act b') (hpool : b.site.nodes.Reached)
    (hsteady : act.Steady b) : b'.Sound := by
  have hkeeps {q : Numbered} (hq : q ∈ b.elements) (number : Nat) (hmem : some number ∈ q.targets) :
      number < b.given → b.KeepsId b' number := h.keepsId hpool hsteady ⟨q, hq, hmem⟩
  have hkept (hgiven : b.given ≤ b'.given) (q : Numbered) (hq : q ∈ b.elements) : b'.Attached q :=
    ⟨(hb.attached q hq).own, forall₂_aims (hb.attached q hq).targets hgiven (hkeeps hq)⟩
  cases act with
  | create =>
    obtain ⟨tag, scope, helements, hgiven, -⟩ := h.elements_create hpool
    have hle : b.given ≤ b'.given := hgiven ▸ Nat.le_succ _
    refine ⟨?_, ?_, ?_⟩
    · rw [helements, List.map_cons, List.nodup_cons]
      refine ⟨fun hmem => ?_, hb.nodup⟩
      obtain ⟨q, hq, hnumber⟩ := List.mem_map.1 hmem
      exact Nat.ne_of_lt (hb.lt_given q hq) hnumber
    · rw [helements, hgiven, List.forall_mem_cons]
      exact ⟨Nat.lt_succ_self _, fun q hq => Nat.lt_succ_of_lt (hb.lt_given q hq)⟩
    · rw [helements, List.forall_mem_cons]
      exact ⟨⟨List.forall_mem_nil _, .nil⟩, hkept hle⟩
  | call own c own' =>
    obtain ⟨below, m, target, others, others', hbuild, rfl, hrefers, hperm, helements, hsub,
      hgiven⟩ := h.elements_call
    have hown : own ∈ b.elements := hperm.mem_iff.2 List.mem_cons_self
    have hothers : others' ⊆ b.elements := fun q hq =>
      hperm.mem_iff.2 (List.mem_cons_of_mem _ (hsub.subset hq))
    have hnodup : (b'.elements.map Numbered.number).Nodup := by
      have hbefore := (hperm.map Numbered.number).nodup_iff.1 hb.nodup
      rw [helements]
      exact hbefore.sublist ((hsub.map _).cons_cons _)
    have hlt : ∀ q ∈ b'.elements, q.number < b'.given := by
      rw [helements, hgiven, List.forall_mem_cons]
      exact ⟨hb.lt_given own hown, fun q hq => hb.lt_given q (hothers hq)⟩
    refine ⟨hnodup, hlt, ?_⟩
    rw [helements, List.forall_mem_cons]
    refine ⟨?_, fun q hq => hkept (Nat.le_of_eq hgiven.symm) q (hothers hq)⟩
    obtain ⟨states, hchange, -⟩ := Site.change_build hbuild
    have hafter : others' ⊆ b'.elements := helements ▸ List.subset_cons_self _ _
    exact ⟨nodeId_after hchange (hb.attached own hown).own fun hboth => hsteady (.inr hboth),
      forall₂_after hchange (hkept (Nat.le_of_eq hgiven.symm) own hown).targets hrefers hafter
        hnodup hlt⟩
  | lose =>
    obtain ⟨own, others, hperm, hsub, hgiven, -⟩ := h.elements_lose
    have hsubset : b'.elements ⊆ b.elements := fun q hq =>
      hperm.mem_iff.2 (List.mem_cons_of_mem _ (hsub.subset hq))
    refine ⟨?_, fun q hq => hgiven ▸ hb.lt_given q (hsubset hq),
      fun q hq => hkept (Nat.le_of_eq hgiven.symm) q (hsubset hq)⟩
    have hbefore := (hperm.map Numbered.number).nodup_iff.1 hb.nodup
    exact hbefore.sublist ((hsub.map _).cons _)

/-- A listener statement reaches its elements: it names the id of the rendered element that captured
the listener, and if the listener refers to an element, the source has the id of that element in
place of the placeholder. -/
def Reaches (rendered : List Numbered) (statement : String) : Prop :=
  ∃ own ∈ rendered, ∃ l target id source,
    (l, target) ∈ own.element.listeners.zip own.targets ∧ own.element.id? = some id ∧
      statement = Hydration.listenerStatement { l.entry with nodeId := id } source ∧
      (target = none → source = l.handler.source) ∧
      ∀ number, target = some number → ∃ targetId,
        source = Client.substitute targetId l.handler.source ∧
          ∀ q ∈ rendered, q.number = number → q.element.id? = some targetId

theorem Sound.reaches {own : Numbered} {rendered : List Numbered} {statement : String}
    {limits : Client.Limits} (hb : b.Sound) (hrendered : rendered ⊆ b.elements)
    (hown : own ∈ rendered) (hl : l ∈ own.element.listeners)
    (h : (Hydration.listenerSource? limits l.entry).map (Hydration.listenerStatement l.entry) =
      some statement) : Reaches rendered statement := by
  obtain ⟨hids, htargets⟩ := hb.attached own (hrendered hown)
  have hzip := List.forall₂_iff_zip.1 htargets
  have hfst : l ∈ (own.element.listeners.zip own.targets).map Prod.fst := by
    rwa [List.map_fst_zip (Nat.le_of_eq hzip.1)]
  obtain ⟨⟨l, target⟩, hmem, rfl⟩ := List.mem_map.1 hfst
  obtain ⟨source, hsource, rfl⟩ := Option.map_eq_some_iff.1 h
  have haims : b.Aims l target := hzip.2 hmem
  have hput := Hydration.eq_of_listenerSource? hsource
  refine ⟨own, hown, l, target, l.nodeId, source, hmem, hids l hl, rfl, ?_, ?_⟩
  · rintro rfl
    have hnone : l.entry.targetId = none := haims
    rw [hput, hnone]
    rfl
  · rintro number rfl
    obtain ⟨-, id, hid, hall⟩ := haims
    have hsome : l.entry.targetId = some id := hid
    refine ⟨id, ?_, fun q hq => hall q (hrendered hq)⟩
    rw [hput, hsome]
    rfl

theorem Sound.run (hb : b.Sound) (hpool : b.site.nodes.Reached)
    (h : b.Run (fun b act _ => act.Steady b) b') : b'.Sound := by
  refine (h.keeps (P := fun b => b.Sound ∧ b.site.nodes.Reached) (fun hstep hsteady hb => ?_)
    ⟨hb, hpool⟩).1
  exact ⟨hb.1.step hstep hb.2 hsteady, hstep.reached hb.2⟩

theorem sound_of_hand_eq_nil (h : b.hand = []) : b.Sound := by
  have helements : b.elements = [] := by
    rw [elements, h]
    rfl
  constructor <;> simp [helements]

/-! Clicks on a page -/

/-- A call on a node of a document, on a site with default settings. -/
theorem exists_build_default {s : Site} {n m : Node} {c : Call} {k : Nat} (hs : s.settings = {})
    (hscope : n.scope = some k)
    (h : ∀ ids states log, ∃ sc, n.apply ⟨{}, ids, states, log⟩ c = (.ok m, sc)) :
    ∃ t, s.build n c = (.ok m, t) ∧ t.settings = {} := by
  obtain ⟨sc, hsettings, -, hnode, hkept, -, -⟩ := s.build_eq n c
  rw [Site.settingsOf, hscope] at hsettings
  obtain ⟨settings, ids, states, log⟩ := sc
  obtain rfl : settings = {} := hsettings.trans hs
  obtain ⟨sc', happly⟩ := h ids states log
  rw [happly] at hnode
  exact ⟨_, Prod.ext hnode rfl, hkept.trans hs⟩

theorem steady_of_targets_eq_nil {own own' : Numbered} {c : Call}
    (h : ∀ q ∈ b.elements, q.targets = []) (hlisteners : own.element.listeners = []) :
    (Act.call own c own').Steady b := by
  rintro (⟨q, hq, hmem⟩ | ⟨hne, -⟩)
  · rw [h q hq] at hmem
    cases hmem
  · exact (hne hlisteners).elim

/-- An element with an id and with listeners for clicks, each with the number of its target. -/
def clickable (number : Nat) (tag id : String) (clicks : List (Listener × Option Nat)) :
    Numbered where
  number
  element :=
    { tag, attributes := Ordered.empty.insert "id" id
      listeners := clicks.map Prod.fst, scope := some 0 }
  targets := clicks.map Prod.snd

/-- A button that listens under one id and is then given another. -/
def renamedButton : Numbered :=
  clickable 0 "button" "x" [(⟨"click", "a", none, ⟨.event, "() => 1"⟩⟩, none)]

/-- Whatever an author does from an empty hand, with calls on any nodes in any order, as long as an
element that keeps listeners and an element that is referred to keep their ids: of whatever nodes in
hand are then rendered, every listener statement reaches its elements. -/
theorem listeners_reach (hhand : b.hand = []) (hpool : b.site.nodes.Reached)
    (h : b.Run (fun b act _ => act.Steady b) b') {pushed : List Piece} (hpushed : pushed ⊆ b'.hand)
    {nodes : List Node} (hnodes : nodes.map Node.toChild = Piece.toChildAll pushed)
    (settings : Settings) :
    ∀ statement ∈ Hydration.listenerStatements settings.limits
      (Context.collect settings nodes {}).1.listeners,
        Reaches (Piece.renderedAll pushed) statement := by
  intro statement hstatement
  have hsound := (sound_of_hand_eq_nil hhand).run hpool h
  obtain ⟨entry, hentry, hmade⟩ := List.mem_filterMap.1 hstatement
  rw [Context.collect_fst, hnodes] at hentry
  obtain ⟨e, he, hentry⟩ := List.mem_flatMap.1 hentry
  obtain ⟨l, hl, rfl⟩ := List.mem_map.1 hentry
  rw [(Child.leftAll_perm_enteredAll _).mem_iff, ← Piece.map_element_renderedAll] at he
  obtain ⟨own, hown, rfl⟩ := List.mem_map.1 he
  exact hsound.reaches (Piece.renderedAll_subset hpushed) hown hl hmade

theorem listeners_reach_field :
    ∃ (a b : Bench) (field button : Numbered), a.hand = [] ∧
      a.Run (fun b act _ => act.Steady b) b ∧
      b.hand = [.element button [], .element field []] ∧
      (field.number, field.element.id?, button.targets) = (1, some "name", [some 1]) ∧
      Hydration.listenerStatements {}
          (Context.collect {} [field.node [], button.node []] {}).1.listeners =
        [Hydration.listenerStatement ⟨"click", "go", some "name", ""⟩ "() => 'name'"] ∧
      Reaches [field, button]
        (Hydration.listenerStatement ⟨"click", "go", some "name", ""⟩ "() => 'name'") := by
  let s : Site := ((Site.ofSettings {} .silent 0).newDocument {}).2
  let madeButton : Numbered := ⟨0, { tag := "button", scope := some 0 }, []⟩
  let madeField : Numbered := ⟨1, { tag := "input", scope := some 0 }, []⟩
  let field := clickable 1 "input" "name" []
  let namedButton := clickable 0 "button" "go" []
  let button := clickable 0 "button" "go"
    [(⟨"click", "go", some "name", ⟨.event, "() => '__TARGET_ID__'"⟩⟩, some 1)]
  obtain ⟨s₁, s₂, hcreate₁, hcreate₂, hs₂⟩ : ∃ t u,
      s.create { scope := 0 } "button" = (.ok (madeButton.node []), t) ∧
        t.create { scope := 0 } "input" = (.ok (madeField.node []), u) ∧ u.settings = {} :=
    ⟨_, _, rfl, rfl, rfl⟩
  obtain ⟨s₃, hid₃, hs₃⟩ := exists_build_default (n := madeField.node []) (m := field.node [])
    (c := .id "name") hs₂ rfl fun _ _ _ => ⟨_, rfl⟩
  obtain ⟨s₄, hid₄, hs₄⟩ := exists_build_default (n := madeButton.node [])
    (m := namedButton.node []) (c := .id "go") hs₃ rfl fun _ _ _ => ⟨_, rfl⟩
  obtain ⟨s₅, hlisten, -⟩ := exists_build_default (n := namedButton.node []) (m := button.node [])
    (c := .listen "click" (some "name") "() => '__TARGET_ID__'") hs₄ rfl fun _ _ _ => ⟨_, rfl⟩
  have hmadeButton : Step ⟨s, [], 0⟩ .create ⟨s₁, [.element madeButton []], 1⟩ :=
    .create (b := ⟨s, [], 0⟩) (n := madeButton.node []) hcreate₁
  have hmadeField : Step ⟨s₁, [.element madeButton []], 1⟩ .create
      ⟨s₂, [.element madeField [], .element madeButton []], 2⟩ :=
    .create (b := ⟨s₁, _, 1⟩) (n := madeField.node []) hcreate₂
  have hfield : Step ⟨s₂, [.element madeField [], .element madeButton []], 2⟩
      (.call madeField (.id "name") field)
      ⟨s₃, [.element field [], .element madeButton []], 2⟩ :=
    .plain (b := ⟨s₂, _, 2⟩) (.refl _) rfl (by simp) (.none rfl) hid₃ rfl
  have hnamedButton : Step ⟨s₃, [.element field [], .element madeButton []], 2⟩
      (.call madeButton (.id "go") namedButton)
      ⟨s₄, [.element namedButton [], .element field []], 2⟩ :=
    .plain (b := ⟨s₃, _, 2⟩) (.swap ..) rfl (by simp) (.none rfl) hid₄ rfl
  have hbutton : Step ⟨s₄, [.element namedButton [], .element field []], 2⟩
      (.call namedButton (.listen "click" (some "name") "() => '__TARGET_ID__'") button)
      ⟨s₅, [.element button [], .element field []], 2⟩ :=
    .plain (b := ⟨s₄, _, 2⟩) (.refl _) rfl (by simp)
      (.target "click" _ (List.mem_singleton_self field) rfl) hlisten rfl
  have hrun : Run (fun b act _ => act.Steady b) ⟨s, [], 0⟩
      ⟨s₅, [.element button [], .element field []], 2⟩ := by
    refine ((((Relation.ReflTransGen.single ⟨_, hmadeButton, trivial⟩).tail
      ⟨_, hmadeField, trivial⟩).tail ⟨_, hfield, ?_⟩).tail ⟨_, hnamedButton, ?_⟩).tail
      ⟨_, hbutton, ?_⟩
    all_goals
      refine steady_of_targets_eq_nil ?_ rfl
      exact List.forall_mem_cons.2 ⟨rfl, List.forall_mem_singleton.2 rfl⟩
  let statement := Hydration.listenerStatement ⟨"click", "go", some "name", ""⟩ "() => 'name'"
  have hstatements : Hydration.listenerStatements {}
      (Context.collect {} [field.node [], button.node []] {}).1.listeners = [statement] := by
    decide +kernel
  have hpushed : [Piece.element field [], .element button []] ⊆
      [.element button [], .element field []] := (List.Perm.swap ..).subset
  have hnodes : [field.node [], button.node []].map Node.toChild =
      Piece.toChildAll [.element field [], .element button []] := rfl
  have hreach := listeners_reach rfl (.empty 1024 Pool.nodeNames) hrun hpushed hnodes {}
  refine ⟨_, _, field, button, rfl, hrun, rfl, rfl, hstatements, hreach statement ?_⟩
  exact hstatements ▸ List.mem_singleton_self statement

/-- A listener that is captured before its element is given another id names the id that the element
no longer has. -/
theorem listener_left_behind :
    ∃ a b : Bench, a.hand = [] ∧ a.site.nodes.Reached ∧ a.Run (fun _ _ _ => True) b ∧
      b.hand = [.element renamedButton []] ∧
      renamedButton.element.id? = some "x" ∧
      Hydration.listenerStatements {}
          (Context.collect {} [renamedButton.node []] {}).1.listeners =
        [Hydration.listenerStatement ⟨"click", "a", none, ""⟩ "() => 1"] ∧
      ¬Reaches [renamedButton]
        (Hydration.listenerStatement ⟨"click", "a", none, ""⟩ "() => 1") := by
  let s : Site := ((Site.ofSettings {} .silent 0).newDocument {}).2
  let made : Numbered := ⟨0, { tag := "button", scope := some 0 }, []⟩
  let named := clickable 0 "button" "a" []
  let clicked := clickable 0 "button" "a" [(⟨"click", "a", none, ⟨.event, "() => 1"⟩⟩, none)]
  obtain ⟨s₁, hcreate, hs₁⟩ : ∃ t, s.create { scope := 0 } "button" = (.ok (made.node []), t) ∧
      t.settings = {} := ⟨_, rfl, rfl⟩
  obtain ⟨s₂, hid, hs₂⟩ := exists_build_default (n := made.node []) (m := named.node [])
    (c := .id "a") hs₁ rfl fun _ _ _ => ⟨_, rfl⟩
  obtain ⟨s₃, hlisten, hs₃⟩ := exists_build_default (n := named.node []) (m := clicked.node [])
    (c := .listen "click" none "() => 1") hs₂ rfl fun _ _ _ => ⟨_, rfl⟩
  obtain ⟨s₄, hrename, -⟩ := exists_build_default (n := clicked.node [])
    (m := renamedButton.node []) (c := .id "x") hs₃ rfl fun _ _ _ => ⟨_, rfl⟩
  have hcreated : Step ⟨s, [], 0⟩ .create ⟨s₁, [.element made []], 1⟩ :=
    .create (b := ⟨s, [], 0⟩) (n := made.node []) hcreate
  have hnamed : Step ⟨s₁, [.element made []], 1⟩ (.call made (.id "a") named)
      ⟨s₂, [.element named []], 1⟩ :=
    .plain (b := ⟨s₁, _, 1⟩) (.refl _) rfl (by simp) (.none rfl) hid rfl
  have hclicked : Step ⟨s₂, [.element named []], 1⟩
      (.call named (.listen "click" none "() => 1") clicked) ⟨s₃, [.element clicked []], 1⟩ :=
    .plain (b := ⟨s₂, _, 1⟩) (.refl _) rfl (by simp) (.none rfl) hlisten rfl
  have hrenamed : Step ⟨s₃, [.element clicked []], 1⟩ (.call clicked (.id "x") renamedButton)
      ⟨s₄, [.element renamedButton []], 1⟩ :=
    .plain (b := ⟨s₃, _, 1⟩) (.refl _) rfl (by simp) (.none rfl) hrename rfl
  refine ⟨⟨s, [], 0⟩, _, rfl, .empty 1024 Pool.nodeNames,
    (((Relation.ReflTransGen.single ⟨_, hcreated, trivial⟩).tail ⟨_, hnamed, trivial⟩).tail
      ⟨_, hclicked, trivial⟩).tail ⟨_, hrenamed, trivial⟩, rfl, rfl, by decide +kernel, ?_⟩
  rintro ⟨own, hown, l, target, id, source, hmem, hid, hstatement, hnone, -⟩
  obtain rfl := List.mem_singleton.1 hown
  obtain ⟨rfl, rfl⟩ := Prod.mk.inj (List.mem_singleton.1 hmem)
  obtain rfl : "x" = id := Option.some.inj hid
  obtain rfl := hnone rfl
  revert hstatement
  decide +kernel

end Bench

end Folio
