import Folio.Proofs.Site.Hydrated

/-! Whether a node needs hydration, as it says itself and as a rendering of it shows. The node goes
by all that was captured at or below it, the rendering by what it comes to and finds an id on. A node
that gives a script always says so. The other way round, what captured something has to have an id
and may not lie below a void element. -/
namespace Folio

namespace Element

variable {e : Element}

theorem captures_of_hydrates (h : e.hydrates = true) : e.captures = true := by
  simp only [hydrates, captures, Bool.or_eq_true, Bool.and_eq_true] at h ⊢
  tauto

theorem hydrates_eq_captures (h : e.captures → e.id?.isSome) : e.hydrates = e.captures := by
  rw [Bool.eq_iff_iff]
  refine ⟨captures_of_hydrates, fun hcaptures => ?_⟩
  have hid := h hcaptures
  rw [hydrates, hid, Bool.true_and]
  exact hcaptures

theorem entries_eq_nil (h : e.captures = false) (limits : Client.Limits) :
    e.stateEntries = [] ∧ e.computedEntries limits = [] ∧ e.bindingEntries = [] ∧
      e.listeners = [] := by
  simp only [captures, Bool.or_eq_false_iff, Bool.not_eq_false', List.isEmpty_iff,
    Option.isSome_eq_false_iff, Option.isNone_iff_eq_none] at h
  obtain ⟨⟨⟨hstate, hcomputed⟩, hbindings⟩, hlisteners⟩ := h
  unfold stateEntries computedEntries bindingEntries
  rw [hstate, hcomputed, hbindings]
  cases e.id? <;> exact ⟨rfl, rfl, rfl, hlisteners⟩

end Element

namespace Child

theorem anyNeedsHydration_eq_false_iff {cs : List Child} :
    anyNeedsHydration cs = false ↔ ∀ c ∈ cs, c.needsHydration = false := by
  induction cs with
  | nil => simp [anyNeedsHydration]
  | cons c cs ih => rw [anyNeedsHydration, Bool.or_eq_false_iff, ih, List.forall_mem_cons]

mutual

/-- What is not needed is not there: all elements that a rendering comes to captured nothing. -/
theorem captures_of_mem_entered {c : Child} (h : c.needsHydration = false) :
    ∀ e ∈ c.entered, e.captures = false := by
  match c with
  | .text _ | .markup _ => exact nofun
  | .element e children =>
    obtain ⟨hself, hbelow⟩ := Bool.or_eq_false_iff.1 h
    rw [entered, List.forall_mem_cons]
    refine ⟨hself, ?_⟩
    split
    · exact nofun
    · exact captures_of_mem_enteredAll hbelow

theorem captures_of_mem_enteredAll {cs : List Child} (h : anyNeedsHydration cs = false) :
    ∀ e ∈ enteredAll cs, e.captures = false := by
  match cs with
  | [] => exact nofun
  | c :: cs =>
    obtain ⟨hfirst, hrest⟩ := Bool.or_eq_false_iff.1 h
    rw [enteredAll, List.forall_mem_append]
    exact ⟨captures_of_mem_entered hfirst, captures_of_mem_enteredAll hrest⟩

end

mutual

/-- Holds of a child where nothing below a void element captured anything, at any depth. -/
def VoidsBare : Child → Prop
  | .text _ | .markup _ => True
  | .element e children =>
    (Tag.isVoid e.tag → anyNeedsHydration children = false) ∧ AllVoidsBare children

def AllVoidsBare : List Child → Prop
  | [] => True
  | c :: cs => c.VoidsBare ∧ AllVoidsBare cs

end

theorem allVoidsBare_iff {cs : List Child} : AllVoidsBare cs ↔ ∀ c ∈ cs, c.VoidsBare := by
  induction cs with
  | nil => simp [AllVoidsBare]
  | cons c cs ih => rw [AllVoidsBare, ih, List.forall_mem_cons]

theorem voidsBare_toChild {n : Node} :
    n.toChild.VoidsBare ↔ (Tag.isVoid n.tag → ∀ c ∈ n.children, c.needsHydration = false) ∧
      ∀ c ∈ n.children, c.VoidsBare := by
  rw [Node.toChild, VoidsBare, anyNeedsHydration_eq_false_iff, allVoidsBare_iff]

mutual

theorem needsHydration_eq {c : Child} (hbare : c.VoidsBare)
    (hid : c.Each fun e => e.captures → e.id?.isSome) :
    c.needsHydration = c.entered.any Element.hydrates := by
  match c with
  | .text _ | .markup _ => rfl
  | .element e children =>
    rw [needsHydration, entered, List.any_cons, Element.hydrates_eq_captures hid.1]
    by_cases hvoid : Tag.isVoid e.tag = true
    · rw [if_pos hvoid, hbare.1 hvoid, List.any_nil]
    · rw [if_neg hvoid, anyNeedsHydration_eq hbare.2 hid.2]

theorem anyNeedsHydration_eq {cs : List Child} (hbare : AllVoidsBare cs)
    (hid : EachOf (fun e => e.captures → e.id?.isSome) cs) :
    anyNeedsHydration cs = (enteredAll cs).any Element.hydrates := by
  match cs with
  | [] => rfl
  | c :: cs =>
    rw [anyNeedsHydration, enteredAll, List.any_append, needsHydration_eq hbare.1 hid.1,
      anyNeedsHydration_eq hbare.2 hid.2]

end

/-- Where nothing that captured something is put below a void element, void elements are bare. -/
theorem Grown.voidsBare {settings : Settings} {c : Child}
    (h : c.Grown settings fun n c =>
      Tag.isVoid n.tag → ∀ child ∈ c.added, child.needsHydration = false) : c.VoidsBare := by
  induction h with
  | text | markup => trivial
  | create _ hpool h =>
    obtain ⟨name, -, rfl⟩ := Site.create_eq_ok hpool h
    exact voidsBare_toChild.2 ⟨nofun, nofun⟩
  | @call s t n m c _ _ _ hok h ihn ihadded =>
    obtain ⟨hself, hchildren⟩ := voidsBare_toChild.1 ihn
    obtain ⟨states, hchange, -⟩ := Site.change_build h
    refine voidsBare_toChild.2 ?_
    by_cases hclear : c = .reset
    · subst hclear
      rw [hchange.eq_fresh]
      exact ⟨nofun, nofun⟩
    · rw [hchange.children_eq hclear, hchange.tag_eq hclear, List.forall_mem_append,
        List.forall_mem_append]
      exact ⟨fun hvoid => ⟨hself hvoid, hok hvoid⟩, hchildren, ihadded⟩

end Child

/-- A node that leaves anything for hydration in a context says that it needs hydration, whatever
tree it is the root of and whatever the settings are. -/
theorem Node.needsHydration_of_collect {n : Node} {settings : Settings}
    (h : (Context.collect settings [n] {}).1.isStatic = false) : n.needsHydration = true := by
  by_contra hnot
  have hentered : ∀ e ∈ Child.enteredAll [n.toChild], e.captures = false := by
    rw [Child.enteredAll, Child.enteredAll, List.append_nil]
    exact Child.captures_of_mem_entered (Bool.eq_false_iff.2 hnot)
  have hstatic : (Context.collect settings [n] {}).1.isStatic = true :=
    Context.isStatic_collect_iff.2 fun e he => Element.entries_eq_nil (hentered e he) _
  rw [hstatic] at h
  cases h

/-- There is a script unless the context is static. -/
theorem Hydration.compile_eq_empty_iff (c : Context) (settings : Settings) :
    (compile c settings).1 = "" ↔ c.isStatic = true := by
  unfold compile
  cases c.isStatic with
  | true => exact iff_of_true rfl rfl
  | false =>
    refine iff_of_false (fun h => ?_) Bool.false_ne_true
    have hclosing : closing = "" := (String.append_eq_empty_iff.1 h).2
    exact absurd hclosing (by decide)

/-- A call on a node of a document after which a rendering still comes to all that was captured, with
an id: no empty id for a node that captured something, and nothing that captured something below a
void element. -/
structure Call.Seen (n : Node) (c : Call) : Prop where
  scope : n.scope.isSome
  id : n.captures → c.givenId? ≠ some ""
  added : Tag.isVoid n.tag → ∀ child ∈ c.added, child.needsHydration = false

namespace Site

/-- Where no call gives the empty id to a node that captured something or puts what captured
something below a void element, a node says that it needs hydration exactly if a rendering of it,
under the settings of its site, leaves a context that is not static, and exactly if it gives a
script. -/
theorem needsHydration_iff {s : Site} {n : Node} (h : n.toChild.Grown s.settings Call.Seen) :
    let (_, context, script, _) := s.renderInto s.settings [n] {}
    (n.needsHydration = true ↔ context.isStatic = false) ∧
      (n.needsHydration = true ↔ script ≠ "") := by
  have haccepted : n.toChild.Each (Element.Accepted s.settings.limits) :=
    (h.mono fun _ _ hok => hok.scope).accepted
  have hid : n.toChild.Each fun e => e.captures → e.id?.isSome :=
    (h.mono fun _ _ hok => hok.id).identified
  have hbare : n.toChild.VoidsBare := (h.mono fun _ _ hok => hok.added).voidsBare
  have hstatic : (Context.collect s.settings [n] {}).1.isStatic = !n.needsHydration := by
    rw [Context.isStatic_collect (List.forall_mem_singleton.2 haccepted), List.map_singleton,
      Child.enteredAll, Child.enteredAll, List.append_nil, ← Child.needsHydration_eq hbare hid]
    rfl
  change (_ ↔ (Context.collect s.settings [n] {}).1.isStatic = false) ∧
    (_ ↔ (Hydration.compile (Context.collect s.settings [n] {}).1 s.settings).1 ≠ "")
  rw [Ne, Hydration.compile_eq_empty_iff, hstatic]
  simp

/-- A list with a break in it, and an item below which a state was captured. -/
theorem needsHydration_iff_list :
    ∃ (s : Site) (n : Node), n.toChild.Grown s.settings Call.Seen ∧
      n.captures = false ∧ n.needsHydration = true ∧
      (s.renderInto s.settings [n] {}).2.1.isStatic = false ∧
      (s.renderInto s.settings [n] {}).2.2.1 ≠ "" := by
  let s : Site := ((Site.ofSettings {} .silent 0).newDocument {}).2
  have hpool : s.nodes.Reached := .empty 1024 Pool.nodeNames
  have hitem : Child.Grown s.settings Call.Seen _ :=
    .create (s := s) rfl hpool (rfl : s.create { scope := 0 } "li" = (.ok _, _))
  have hitem := hitem.call (s := s) (c := .state (.ok .null)) rfl nofun
    ⟨rfl, nofun, fun _ => nofun⟩ rfl
  have hbreak : Child.Grown s.settings Call.Seen _ :=
    .create (s := s) rfl hpool (rfl : s.create { scope := 0 } "br" = (.ok _, _))
  have hbreak := hbreak.call (s := s) (c := .append [.text "lost"]) rfl
    (List.forall_mem_singleton.2 (.text "lost"))
    ⟨rfl, nofun, fun _ => List.forall_mem_singleton.2 rfl⟩ rfl
  have hlist : Child.Grown s.settings Call.Seen _ :=
    .create (s := s) rfl hpool (rfl : s.create { scope := 0 } "ul" = (.ok _, _))
  have hlist := hlist.call (s := s) (c := .append [_, _]) rfl
    (List.forall_mem_cons.2 ⟨hitem, List.forall_mem_singleton.2 hbreak⟩)
    ⟨rfl, nofun, by decide⟩ rfl
  obtain ⟨hcontext, hscript⟩ := needsHydration_iff hlist
  exact ⟨s, _, hlist, rfl, rfl, hcontext.1 rfl, hscript.1 rfl⟩

/-- A break below which a state was captured says that it needs hydration, and so does a paragraph
that captured a state and was then given the empty id; neither gives a script. -/
theorem hydration_needed_in_vain :
    (∃ (s : Site) (n : Node), (n.toChild.Grown s.settings fun n c => n.scope.isSome ∧
        (n.captures → c.givenId? ≠ some "")) ∧
      n.tag = "br" ∧ n.needsHydration = true ∧
      (s.renderInto s.settings [n] {}).2.1.isStatic = true ∧
      (s.renderInto s.settings [n] {}).2.2.1 = "") ∧
    ∃ (s : Site) (n : Node), (n.toChild.Grown s.settings fun n c => n.scope.isSome ∧
        (Tag.isVoid n.tag → ∀ child ∈ c.added, child.needsHydration = false)) ∧
      n.tag = "p" ∧ n.needsHydration = true ∧
      (s.renderInto s.settings [n] {}).2.1.isStatic = true ∧
      (s.renderInto s.settings [n] {}).2.2.1 = "" := by
  let s : Site := ((Site.ofSettings {} .silent 0).newDocument {}).2
  have hpool : s.nodes.Reached := .empty 1024 Pool.nodeNames
  constructor
  · have hspan : Child.Grown s.settings (fun n c => n.scope.isSome ∧
        (n.captures → c.givenId? ≠ some "")) _ :=
      .create (s := s) rfl hpool (rfl : s.create { scope := 0 } "span" = (.ok _, _))
    have hspan := hspan.call (s := s) (c := .state (.ok .null)) rfl nofun ⟨rfl, nofun⟩ rfl
    have hbreak : Child.Grown s.settings (fun n c => n.scope.isSome ∧
        (n.captures → c.givenId? ≠ some "")) _ :=
      .create (s := s) rfl hpool (rfl : s.create { scope := 0 } "br" = (.ok _, _))
    have hbreak := hbreak.call (s := s) (c := .append [_]) rfl
      (List.forall_mem_singleton.2 hspan) ⟨rfl, nofun⟩ rfl
    exact ⟨s, _, hbreak, rfl, rfl, rfl, rfl⟩
  · have hp : Child.Grown s.settings (fun n c => n.scope.isSome ∧
        (Tag.isVoid n.tag → ∀ child ∈ c.added, child.needsHydration = false)) _ :=
      .create (s := s) rfl hpool (rfl : s.create { scope := 0 } "p" = (.ok _, _))
    have hstate := hp.call (s := s) (c := .state (.ok (.string "v"))) rfl nofun
      ⟨rfl, fun _ => nofun⟩ rfl
    have hblank := hstate.call (s := s) (c := .id "") rfl nofun ⟨rfl, fun _ => nofun⟩ rfl
    exact ⟨s, _, hblank, rfl, rfl, rfl, rfl⟩

end Site

end Folio
