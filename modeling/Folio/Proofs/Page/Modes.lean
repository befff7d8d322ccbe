import Folio.Page.Hydration
import Folio.Proofs.Page.Indistinct
import Folio.Proofs.Page.Rendered

/-! What the mode decides while nodes are built and rendered: whether authors are warned, and nothing
else. Logs are compared without the events that may depend on the mode. -/
namespace Folio

/-- The same settings in another mode. -/
def Settings.withMode (settings : Settings) (mode : Mode) : Settings := { settings with mode }

/-- Holds of the events that may depend on the mode: the warnings, for production leaves those out
that are advice, and the event of a new site, which names its mode. -/
def Event.IsModal (e : Event) : Prop := e.level = .warn ∨ e.message = "page runtime created"

instance : DecidablePred Event.IsModal := fun e =>
  inferInstanceAs (Decidable (e.level = .warn ∨ e.message = "page runtime created"))

/-- Reports of such events. -/
def Report.IsModal : Report → Prop
  | .event e => e.IsModal
  | .count _ _ | .timing _ => False

instance : DecidablePred Report.IsModal
  | .event e => inferInstanceAs (Decidable e.IsModal)
  | .count _ _ | .timing _ => inferInstanceAs (Decidable False)

/-- The events of a log that do not depend on the mode. -/
def Event.settled (log : List Event) : List Event := log.filter (¬ Event.IsModal ·)

theorem Event.settled_cons {e : Event} (he : e.IsModal) (log : List Event) :
    settled (e :: log) = settled log :=
  List.filter_cons_of_neg (by simpa using he)

theorem Event.settled_append (log log' : List Event) :
    settled (log ++ log') = settled log ++ settled log' :=
  List.filter_append log log'

theorem Event.settled_reverse (log : List Event) : settled log.reverse = (settled log).reverse :=
  List.filter_reverse

theorem Report.filter_events (log : List Event) :
    (log.map Report.event).filter (¬ Report.IsModal ·) = (Event.settled log).map .event :=
  List.filter_map

/-! Building -/

/-- The second scope differs from the first in its mode and in modal events only. -/
inductive Scope.SameButMode (mode : Mode) (sc : Scope) : Scope → Prop
  | mk {log : List Event} (h : Event.settled log = Event.settled sc.log) :
    SameButMode mode sc { sc with settings := sc.settings.withMode mode, log }

/-- Advice changes the log alone, and nothing in it that does not depend on the mode. -/
theorem Scope.settled_advise (sc : Scope) (message : String) (fields : List (String × String)) :
    ∃ log, sc.advise message fields = { sc with log } ∧
      Event.settled log = Event.settled sc.log := by
  unfold advise
  split
  · exact ⟨sc.log, rfl, rfl⟩
  · exact ⟨_, rfl, Event.settled_cons (.inl rfl) sc.log⟩

/-- No builder call depends on the mode beyond its advice. -/
theorem Scope.indistinct_mode (mode : Mode) : Scope.Indistinct (SameButMode mode) where
  frame := by
    rintro sc - ⟨h⟩
    exact ⟨_, _, rfl⟩
  limits_eq := by
    rintro sc - ⟨h⟩
    rfl
  styleValueLength_eq := by
    rintro sc - ⟨h⟩
    rfl
  update := by
    rintro sc - ⟨h⟩ ids states
    exact .mk h
  warn := by
    rintro sc - ⟨h⟩ message fields
    refine .mk ?_
    rw [Scope.warn, Event.settled_cons (.inl rfl), Event.settled_cons (.inl rfl), h]
  advise := by
    rintro sc - ⟨h⟩ message fields
    obtain ⟨log, hadvised, hlog⟩ := sc.settled_advise message fields
    obtain ⟨log', hadvised', hlog'⟩ := Scope.settled_advise
      { sc with settings := sc.settings.withMode mode, log := _ } message fields
    rw [hadvised, hadvised']
    exact .mk (hlog'.trans (h.trans hlog.symm))

/-! Rendering -/

/-- The events about a computed script that is not collected from an element. -/
def Element.complaints (settings : Settings) (e : Element) : List Event :=
  match e.id?, e.computed with
  | some id, some script =>
    match Client.check script.kind settings.limits script.source with
    | .ok _ => []
    | .error fault =>
      if settings.isProduction then []
      else [⟨.warn, "computed script dropped at render", [("id", id), ("error", fault.message)]⟩]
  | _, _ => []

theorem Element.isModal_of_mem_complaints {settings : Settings} {e : Element} :
    ∀ event ∈ e.complaints settings, event.IsModal := by
  unfold complaints
  split
  · split
    · exact nofun
    · split
      · exact nofun
      · exact List.forall_mem_singleton.2 (.inl rfl)
  · exact nofun

theorem Harvest.growsOnEnter_log (settings : Settings) :
    GrowsOnEnter settings Harvest.log (Element.complaints settings) := by
  refine ⟨fun h e => ?_, fun _ _ => rfl⟩
  have hstate : ∀ (h : Harvest) (id : String), (h.addState e id).log = h.log := by
    intro h id
    unfold addState
    split <;> rfl
  simp only [enter, Element.complaints]
  cases e.id? with
  | none => rfl
  | some id =>
    simp only [addBindings, addComputed]
    cases e.computed with
    | none => exact hstate _ id
    | some script =>
      dsimp only
      cases Client.check script.kind settings.limits script.source with
      | ok _ => exact hstate _ id
      | error fault =>
        dsimp only
        split
        · exact hstate _ id
        · simp [hstate]

namespace Context

/-- What a rendering reports, element by element. -/
theorem collect_snd (settings : Settings) (nodes : List Node) (c : Context) :
    (collect settings nodes c).2 =
      ((Child.enteredAll (nodes.map Node.toChild)).flatMap
        (Element.complaints settings)).map .event := by
  unfold collect
  simp only [Harvest.GrowsOnEnter.visitAll (Harvest.growsOnEnter_log settings), List.append_nil,
    List.reverse_reverse]

/-- What is collected does not depend on the mode. -/
theorem collect_withMode (settings : Settings) (mode : Mode) (nodes : List Node) (c : Context) :
    (collect (settings.withMode mode) nodes c).1 = (collect settings nodes c).1 := by
  rw [collect_fst, collect_fst]
  rfl

theorem isModal_of_mem_collect {settings : Settings} {nodes : List Node} {c : Context} :
    ∀ r ∈ (collect settings nodes c).2, r.IsModal := by
  rw [collect_snd]
  intro r hr
  obtain ⟨event, hevent, rfl⟩ := List.mem_map.1 hr
  obtain ⟨e, -, hcomplaint⟩ := List.mem_flatMap.1 hevent
  exact Element.isModal_of_mem_complaints event hcomplaint

end Context

namespace Hydration

/-- The script does not depend on the mode. -/
theorem compile_withMode (c : Context) (settings : Settings) (mode : Mode) :
    (compile c (settings.withMode mode)).1 = (compile c settings).1 := by
  unfold compile
  split <;> rfl

theorem isModal_of_mem_compile {c : Context} {settings : Settings} :
    ∀ r ∈ (compile c settings).2, r.IsModal := by
  unfold compile dropped
  split
  · exact nofun
  · split
    · exact nofun
    · exact List.forall_mem_map.2 fun _ _ => .inl rfl

end Hydration

end Folio
