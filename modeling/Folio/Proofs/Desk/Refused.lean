import Folio.Desk.Run
import Folio.Proofs.Entries
import Folio.Proofs.Page.Changes

/-! Calls that are refused: a name or a declaration that comes to nothing, a key or an event without
a name, a source that is not accepted. Such a call leaves no trace but what the log takes in. The
exception is a listener that refers to an element without id: the element gets one before the
listener is looked at, and keeps it when the listener is refused. -/
namespace Folio

/-- Why a call comes to nothing. -/
inductive Call.Refused (settings : Settings) : Call → Prop
  | attr {name : String} (value : String) (h : Text.kebab name = "") :
    Refused settings (.attr name value)
  | css {ds : List (String × String)}
    (h : ∀ d ∈ ds, Text.kebab d.1 = "" ∨ Style.clean settings.styleValueLength d.2 = "") :
    Refused settings (.css ds)
  | computed {source : String} (h : Client.accepts .computed settings.limits source = false) :
    Refused settings (.computed source)
  | bindText {key source : String}
    (h : Text.isBlankText key ∨ Client.accepts .computed settings.limits source = false) :
    Refused settings (.bindText key source)
  | listen {event source : String} (targetId : Option String)
    (h : Node.eventName event = "" ∨
      (∃ c ∈ (Node.eventName event).toList, Node.isEventChar c = false) ∨
      Client.accepts .event settings.limits source = false) :
    Refused settings (.listen event targetId source)

/-- Which element a listener refers to is nothing that it could be refused for. -/
theorem Call.Refused.retarget {settings : Settings} {event source : String}
    {targetId : Option String} (h : (Call.listen event targetId source).Refused settings)
    (targetId' : Option String) : (Call.listen event targetId' source).Refused settings := by
  cases h with
  | listen _ h => exact .listen targetId' h

theorem Style.scope_eq_none {limit : Nat} {ds : List (String × String)}
    (h : ∀ d ∈ ds, Text.kebab d.1 = "" ∨ Style.clean limit d.2 = "") :
    Style.scope limit ds = none := by
  have hnothing : ∀ d ∈ ds, Style.declaration limit d = "" := by
    intro d hd
    rcases h d hd with hname | hvalue
    · simp [Style.declaration, hname]
    · simp [Style.declaration, hvalue]
  have hrules : Style.declarations limit ds = "" := by
    rw [Style.declarations, List.map_congr_left hnothing]
    exact String.toList_injective (by simp [String.toList_join])
  simp [Style.scope, hrules]

/-- A scope with more in its log. -/
def Scope.noted (sc : Scope) (more : List Event) : Scope := { sc with log := more ++ sc.log }

/-- A site with more in its log, of which the next run of ids has another number. -/
def Site.noted (s : Site) (more : List Event) (nextRun : Nat) : Site :=
  { s with nextRun, meter := { s.meter with log := more ++ s.meter.log } }

theorem Scope.advise_eq (sc : Scope) (message : String) (fields : List (String × String)) :
    ∃ more, sc.advise message fields = sc.noted more := by
  unfold Scope.advise
  split
  · exact ⟨[], rfl⟩
  · exact ⟨[_], rfl⟩

namespace Node

variable {n : Node} {sc : Scope} {c : Call}

theorem accepts_of_refused {kind : Client.Kind} {source : String}
    (h : Client.accepts kind sc.settings.limits source = false) :
    ∃ more, n.accepts sc kind source = (false, sc.noted more) := by
  cases hcheck : Client.check kind sc.settings.limits source with
  | ok _ =>
    rw [Client.accepts, hcheck] at h
    cases h
  | error e =>
    obtain ⟨more, hadvise⟩ := sc.advise_eq "client script rejected"
      [("tag", n.tag), ("error", e.message)]
    refine ⟨more, ?_⟩
    rw [accepts, hcheck, ← hadvise]

/-- A refused call returns its node, and nothing but the log of the scope has changed. -/
theorem apply_refused (n : Node) (h : c.Refused sc.settings) :
    ∃ more, n.apply sc c = (.ok n, sc.noted more) := by
  cases h with
  | @attr name value hname =>
    obtain ⟨more, hadvise⟩ := sc.advise_eq "attribute name normalized to nothing" [("tag", n.tag)]
    exact ⟨more, by simp [apply, attr, hname, hadvise]⟩
  | css hnothing =>
    refine ⟨[], ?_⟩
    simp only [apply, css, Style.scope_eq_none hnothing]
    rfl
  | computed hsource =>
    obtain ⟨more, haccepts⟩ := accepts_of_refused (n := n) hsource
    exact ⟨more, by simp [apply, setComputed, haccepts]⟩
  | @bindText key source hrefused =>
    by_cases hkey : Text.isBlankText key
    · obtain ⟨more, hadvise⟩ := sc.advise_eq "state binding without a key" [("tag", n.tag)]
      exact ⟨more, by simp [apply, bindText, hkey, hadvise]⟩
    · obtain ⟨more, haccepts⟩ := accepts_of_refused (n := n) (hrefused.resolve_left hkey)
      exact ⟨more, by simp [apply, bindText, hkey, haccepts]⟩
  | @listen event source targetId hrefused =>
    simp only [apply, Node.listen]
    split
    · obtain ⟨more, hadvise⟩ := sc.advise_eq "invalid event name"
        [("tag", n.tag), ("event", eventName event)]
      exact ⟨more, by rw [hadvise]⟩
    · next hname =>
      simp only [Bool.or_eq_true, String.isEmpty_iff, Bool.not_eq_true', List.all_eq_false,
        not_or] at hname
      have hsource : Client.accepts .event sc.settings.limits source = false := by
        rcases hrefused with hempty | ⟨c, hc, hchar⟩ | hsource
        · exact (hname.1 hempty).elim
        · exact (hname.2 ⟨c, hc, by simp [hchar]⟩).elim
        · exact hsource
      obtain ⟨more, haccepts⟩ := accepts_of_refused (n := n) hsource
      exact ⟨more, by rw [haccepts]⟩

end Node

namespace Site

variable {s : Site} {n : Node} {c : Call}

theorem takeAll_events (m : Meter) (es : List Event) :
    m.takeAll (es.map .event) = { m with log := es.reverse ++ m.log } := by
  induction es generalizing m with
  | nil => rfl
  | cons e es ih =>
    change (m.take (.event e)).takeAll (es.map .event) = _
    rw [ih, List.reverse_cons, List.append_assoc]
    rfl

theorem report_events (s : Site) (more : List Event) :
    s.report (more.reverse.map .event) = s.noted more s.nextRun := by
  rw [report, takeAll_events, List.reverse_reverse]
  rfl

/-- States that are handed out and come back as they were. -/
theorem setStore_setStore (s : Site) (k : Nat) :
    (s.setStore k .empty).setStore k (s.store k) = s := by
  have hstores : (s.stores.set k .empty).set k (s.store k) = s.stores := by
    refine List.ext_getElem? fun i => ?_
    rw [List.set_set, List.getElem?_set]
    split
    · next hk =>
      subst hk
      split
      · next hlength => simp [store, hlength]
      · next hlength => exact (List.getElem?_eq_none (Nat.le_of_not_lt hlength)).symm
    · rfl
  unfold setStore
  rw [hstores]

/-- Work that does nothing but add to the log of its scope adds the same to the log of the site.
Without a document it also opens a run of ids. -/
theorem within_noted {α : Type} {scope : Option Nat} {f : Scope → α × Scope} {a : α}
    (h : ∀ sc : Scope, sc.settings = (if scope.isSome then s.settings else {}) →
      ∃ more, f sc = (a, sc.noted more)) :
    ∃ more nextRun, s.within scope f = (a, s.noted more nextRun) ∧
      (scope.isSome → nextRun = s.nextRun) := by
  cases scope with
  | none =>
    obtain ⟨more, hf⟩ := h (.detached s.nextRun) rfl
    refine ⟨more, s.nextRun + 1, ?_, nofun⟩
    change ((f (.detached s.nextRun)).1, ({ s with nextRun := s.nextRun + 1 } : Site).report
      ((f (.detached s.nextRun)).2.log.reverse.map .event)) = _
    rw [hf, Scope.noted, Scope.detached]
    dsimp only
    rw [List.append_nil, report_events]
    rfl
  | some k =>
    obtain ⟨more, hf⟩ := h (s.shared k) rfl
    refine ⟨more, s.nextRun, ?_, fun _ => rfl⟩
    change ((f (s.shared k)).1,
      ({ s.setStore k .empty with ids := (f (s.shared k)).2.ids }.setStore k
        (f (s.shared k)).2.states).report ((f (s.shared k)).2.log.reverse.map .event)) = _
    rw [hf]
    change (a, ((s.setStore k .empty).setStore k (s.store k)).report
      ((more ++ []).reverse.map .event)) = _
    rw [setStore_setStore, List.append_nil, report_events]

theorem build_refused (h : c.Refused (s.settingsOf n)) :
    ∃ more nextRun, s.build n c = (.ok n, s.noted more nextRun) ∧
      (n.scope.isSome → nextRun = s.nextRun) :=
  within_noted fun _ hsettings => n.apply_refused (hsettings ▸ h)

theorem ensureId_of_isSome (s : Site) (h : n.id?.isSome) :
    ∃ more nextRun, s.ensureId n = (n, s.noted more nextRun) ∧
      (n.scope.isSome → nextRun = s.nextRun) :=
  within_noted fun sc _ => ⟨[], n.ensureId_eq_self h sc⟩

theorem noted_noted (s : Site) (first second : List Event) (r r' : Nat) :
    (s.noted first r).noted second r' = s.noted (second ++ first) r' := by
  unfold noted
  rw [List.append_assoc]

end Site

namespace Desk

/-- The call that a step makes on its node, if it takes no other node. -/
def Step.ownCall? : Step → Option Call
  | .attr name value => some (.attr name value)
  | .id value => some (.id value)
  | .autoId => some .autoId
  | .css declarations => some (.css declarations)
  | .state value => some (.state value)
  | .computed source => some (.computed source)
  | .bindText key source => some (.bindText key source)
  | .listen event source => some (.listen event none source)
  | .reset => some .reset
  | .append _ | .listenTo _ _ _ => none

/-- The name of the node that a listener refers to. -/
def Step.target? : Step → Option String
  | .listenTo target _ _ => some target
  | _ => none

/-- Steps on a node that are refused. A listener that refers to a node finds it with an id. -/
inductive Refuses (desk : Desk) (n : Node) : Step → Prop
  | own {step : Step} {c : Call} (hcall : step.ownCall? = some c)
    (h : c.Refused (desk.site.settingsOf n)) : Refuses desk n step
  | listenTo {target event source : String} {t : Node} (htarget : desk.node? target = some t)
    (hid : t.id?.isSome) (h : (Call.listen event none source).Refused (desk.site.settingsOf n)) :
    Refuses desk n (.listenTo target event source)

variable {desk : Desk} {n : Node} {step : Step} {c : Call}

theorem buildStep_of_ownCall? (doc : String) (h : step.ownCall? = some c) :
    buildStep doc step n desk = desk.perform n c := by
  cases step <;> cases h <;> rw [buildStep]

theorem perform_refused (desk : Desk) (h : c.Refused (desk.site.settingsOf n)) :
    ∃ more nextRun, desk.perform n c = (.ok n, { desk with site := desk.site.noted more nextRun }) ∧
      (n.scope.isSome → nextRun = desk.site.nextRun) := by
  obtain ⟨more, nextRun, hbuild, hrun⟩ := Site.build_refused h
  refine ⟨more, nextRun, ?_, hrun⟩
  rw [perform, hbuild]

/-- A step that is refused returns its node, and leaves all nodes, all states, the source of ids and
everything else as it was; the log may take something in. Where a node without document is worked
on, the next run of ids has another number. -/
theorem refused_leaves_all (doc : String) (h : desk.Refuses n step) :
    ∃ more nextRun,
      buildStep doc step n desk = (.ok n, { desk with site := desk.site.noted more nextRun }) ∧
        (n.scope.isSome → (∀ t, step.target?.bind desk.node? = some t → t.scope.isSome) →
          nextRun = desk.site.nextRun) := by
  cases h with
  | own hcall h =>
    obtain ⟨more, nextRun, hperform, hrun⟩ := desk.perform_refused h
    exact ⟨more, nextRun, (buildStep_of_ownCall? doc hcall).trans hperform, fun hn _ => hrun hn⟩
  | @listenTo target event source t htarget hid h =>
    obtain ⟨first, firstRun, hensure, hfirst⟩ := desk.site.ensureId_of_isSome hid
    have hnodes : Entries.put target t desk.nodes = desk.nodes := Entries.put_of_get? htarget
    let named : Desk := { desk with site := desk.site.noted first firstRun }
    obtain ⟨more, nextRun, hperform, hrun⟩ := named.perform_refused (n := n)
      (h.retarget (some t.idText))
    refine ⟨more ++ first, nextRun, ?_, fun hn ht => (hrun hn).trans (hfirst (ht t htarget))⟩
    rw [buildStep, Desk.listenTo, htarget]
    simp only [hensure, setNode, hnodes]
    rw [hperform, Site.noted_noted]

theorem refused_leaves_all_of_target :
    ∃ (desk : Desk) (n t : Node) (more : List Event),
      runAll [.document "d" {}, .create "d" "t" "p", .step "d" "t" .autoId, .create "d" "n" "p"]
        { site := .ofSettings {} .silent 0 } = (none, desk) ∧
      desk.node? "n" = some n ∧ desk.node? "t" = some t ∧
      t.id? = some "w00000000-1" ∧ desk.Refuses n (.listenTo "t" "" "x") ∧
      buildStep "d" (.listenTo "t" "" "x") n desk =
        (.ok n, { desk with site := desk.site.noted more desk.site.nextRun }) := by
  obtain ⟨desk, n, t, hrun, hn, ht, hid, hnscope, htscope⟩ : ∃ (desk : Desk) (n t : Node),
      runAll [.document "d" {}, .create "d" "t" "p", .step "d" "t" .autoId, .create "d" "n" "p"]
        { site := .ofSettings {} .silent 0 } = (none, desk) ∧
      desk.node? "n" = some n ∧ desk.node? "t" = some t ∧ t.id? = some "w00000000-1" ∧
      n.scope = some 0 ∧ t.scope = some 0 :=
    ⟨_, _, _, rfl, rfl, rfl, by decide, rfl, rfl⟩
  have hrefuses : desk.Refuses n (.listenTo "t" "" "x") :=
    .listenTo ht (Option.isSome_of_eq_some hid) (.listen none (.inl (by decide)))
  obtain ⟨more, nextRun, hstep, hnext⟩ := refused_leaves_all "d" hrefuses
  obtain rfl : nextRun = desk.site.nextRun := by
    refine hnext (Option.isSome_of_eq_some hnscope) fun u hu => ?_
    obtain rfl : t = u := Option.some.inj (ht.symm.trans hu)
    exact Option.isSome_of_eq_some htscope
  exact ⟨desk, n, t, more, hrun, hn, ht, hid, hrefuses, hstep⟩

/-- A listener whose event has no name, and that refers to an element without id: it is refused, but
the element keeps the id that was issued for it. -/
theorem refused_listener_names_target :
    ∃ (desk after : Desk) (n t u : Node),
      runAll [.document "d" {}, .create "d" "t" "p", .create "d" "n" "p"]
        { site := .ofSettings {} .silent 0 } = (none, desk) ∧
      desk.node? "n" = some n ∧ desk.node? "t" = some t ∧
      (Call.listen "" none "x").Refused (desk.site.settingsOf n) ∧
      buildStep "d" (.listenTo "t" "" "x") n desk = (.ok n, after) ∧ after.node? "t" = some u ∧
      t.id? = none ∧ u.id? = some "w00000000-1" ∧
      desk.site.ids.issued = 0 ∧ after.site.ids.issued = 1 := by
  refine ⟨_, _, _, _, _, rfl, rfl, rfl, .listen none (.inl ?_), rfl, rfl, rfl, ?_, rfl, rfl⟩
  · decide
  · decide

end Desk

end Folio
