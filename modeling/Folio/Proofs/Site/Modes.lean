import Folio.Proofs.Page.Modes
import Folio.Proofs.Site.Indistinct
import Folio.Proofs.Telemetry.Overlooked

/-! Sites that differ in their mode only. If it is said whether pages are minified, whatever is done at
one of them and at the other comes to the same, and their logs differ in modal events only. -/
namespace Folio

namespace Meter

/-- Meters that differ in modal events only. -/
inductive SameButMode (m : Meter) : Meter → Prop
  | mk {log : List Event} (h : Event.settled log = Event.settled m.log) : SameButMode m { m with log }

variable {m m' m'' : Meter}

theorem SameButMode.symm (h : m.SameButMode m') : m'.SameButMode m := by
  obtain ⟨h⟩ := h
  exact .mk h.symm

theorem SameButMode.trans (h : m.SameButMode m') (h' : m'.SameButMode m'') : m.SameButMode m'' := by
  obtain ⟨h⟩ := h
  obtain ⟨h'⟩ := h'
  exact .mk (h'.trans h)

theorem SameButMode.take (h : m.SameButMode m') (r : Report) :
    (m.take r).SameButMode (m'.take r) := by
  obtain @⟨log, h⟩ := h
  have hcons : ∀ e : Event, Event.settled (e :: log) = Event.settled (e :: m.log) := by
    intro e
    change Event.settled ([e] ++ log) = Event.settled ([e] ++ m.log)
    rw [Event.settled_append, Event.settled_append, h]
  obtain ⟨sink, counters, events⟩ := m
  cases r with
  | event e => exact .mk (hcons e)
  | count metric n =>
    cases sink with
    | silent | counting => exact .mk h
    | traced => exact .mk (hcons _)
  | timing metric =>
    cases sink with
    | silent | counting => exact .mk h
    | traced => exact .mk (hcons _)

/-- The comparison overlooks the reports of modal events. -/
theorem overlooks_isModal : Overlooks SameButMode Report.IsModal where
  equivalence := ⟨fun _ => .mk rfl, SameButMode.symm, SameButMode.trans⟩
  take h r := h.take r
  overlook {r} hr m := by
    cases r with
    | event e => exact .mk (Event.settled_cons hr m.log)
    | count _ _ | timing _ => exact hr.elim

end Meter

namespace Site

/-- Rendering into a context: what is collected, then the script that is compiled from it. -/
theorem renderInto_eq (s : Site) (settings : Settings) (ns : List Node) (c : Context) :
    s.renderInto settings ns c =
      (Node.htmlOf ns, (Context.collect settings ns c).1,
        (Hydration.compile (Context.collect settings ns c).1 settings).1,
        s.report ((Context.collect settings ns c).2 ++
          (Hydration.compile (Context.collect settings ns c).1 settings).2)) :=
  rfl

/-- The second site differs from the first in its mode and in modal events only, and both are told
whether to minify pages. -/
inductive SameButMode (mode : Mode) (s : Site) : Site → Prop
  | mk {meter : Meter} (hminify : s.settings.minify.isSome) (hmeter : s.meter.SameButMode meter) :
    SameButMode mode s { s with settings := s.settings.withMode mode, meter }

namespace SameButMode

variable {mode : Mode} {s s' : Site}

theorem reports (h : SameButMode mode s s') {rs rs' : List Report}
    (hrs : rs'.filter (¬ Report.IsModal ·) = rs.filter (¬ Report.IsModal ·)) :
    SameButMode mode (s.report rs) (s'.report rs') := by
  obtain ⟨hminify, hmeter⟩ := h
  exact .mk hminify (Meter.overlooks_isModal.takeAll_of_filter_eq hmeter hrs)

/-- Modal events may be reported to either site. -/
theorem reports_of_isModal (h : SameButMode mode s s') {rs rs' : List Report}
    (hrs : ∀ r ∈ rs, r.IsModal) (hrs' : ∀ r ∈ rs', r.IsModal) :
    SameButMode mode (s.report rs) (s'.report rs') := by
  obtain ⟨hminify, hmeter⟩ := h
  exact .mk hminify (Meter.overlooks_isModal.takeAll_of_forall hmeter hrs hrs')

/-- The event of a new site is modal. -/
theorem ofSettings (settings : Settings) (minify : Bool) (mode mode' : Mode) (sink : Sink)
    (firstRun : Nat) :
    SameButMode mode' (.ofSettings { settings with mode, minify := some minify } sink firstRun)
      (.ofSettings { settings with mode := mode', minify := some minify } sink firstRun) :=
  .mk rfl (.mk rfl)

theorem advise (h : SameButMode mode s s') (message : String) (fields : List (String × String)) :
    SameButMode mode (s.advise message fields) (s'.advise message fields) := by
  have hadvised : ∀ s : Site, ∃ rs, s.advise message fields = s.report rs ∧ ∀ r ∈ rs, r.IsModal := by
    intro s
    unfold Site.advise
    split
    · exact ⟨[], rfl, nofun⟩
    · exact ⟨_, rfl, List.forall_mem_singleton.2 (.inl rfl)⟩
  obtain ⟨rs, hs, hrs⟩ := hadvised s
  obtain ⟨rs', hs', hrs'⟩ := hadvised s'
  rw [hs, hs']
  exact h.reports_of_isModal hrs hrs'

theorem htmlAlone (h : SameButMode mode s s') (n : Node) :
    Agree (SameButMode mode) (s.htmlAlone (s.settingsOf n) n) (s'.htmlAlone (s'.settingsOf n) n) :=
  .mk _ (h.reports_of_isModal Context.isModal_of_mem_collect Context.isModal_of_mem_collect)

theorem renderInto (h : SameButMode mode s s') (ns : List Node) (c : Context) :
    ∃ html c' script t t', s.renderInto s.settings ns c = (html, c', script, t) ∧
      s'.renderInto s'.settings ns c = (html, c', script, t') ∧ SameButMode mode t t' := by
  have hmodal : ∀ settings : Settings, ∀ r ∈ (Context.collect settings ns c).2 ++
      (Hydration.compile (Context.collect settings ns c).1 settings).2, r.IsModal := fun settings =>
    List.forall_mem_append.2 ⟨Context.isModal_of_mem_collect, Hydration.isModal_of_mem_compile⟩
  have hafter := h.reports_of_isModal (hmodal s.settings) (hmodal s'.settings)
  refine ⟨_, _, _, _, _, s.renderInto_eq s.settings ns c, ?_, hafter⟩
  cases h
  simp only [Site.renderInto, Context.collect_withMode, Hydration.compile_withMode]

end SameButMode

/-- No operation tells apart sites that differ in their mode only. -/
theorem indistinct_mode (mode : Mode) :
    Indistinct (Scope.SameButMode mode) (SameButMode mode) where
  scopes := Scope.indistinct_mode mode
  scopeAt := by
    rintro s - ⟨hminify, hmeter⟩ scope
    exact .mk rfl
  frame := by
    rintro s - ⟨⟩
    exact ⟨_, _, _, _, rfl⟩
  lang_eq := by
    rintro s - ⟨⟩
    rfl
  styleValueLength_eq := by
    rintro s - ⟨⟩
    rfl
  shouldMinify_eq := by
    rintro s - ⟨hminify, hmeter⟩
    obtain ⟨minify, hsome⟩ := Option.isSome_iff_exists.1 hminify
    simp only [Settings.shouldMinify, Settings.withMode, hsome, Option.getD_some]
  update := by
    rintro s - ⟨hminify, hmeter⟩ ids nextRun cache flights stores
    exact .mk hminify hmeter
  report h rs := h.reports rfl
  reportLog := by
    rintro s s' h sc - ⟨hlog⟩
    apply h.reports
    rw [Report.filter_events, Report.filter_events, Event.settled_reverse, Event.settled_reverse,
      hlog]
  advise h message fields := h.advise message fields
  acquireNode := by
    rintro s - ⟨hminify, hmeter⟩
    exact .mk _ (.mk hminify (Meter.overlooks_isModal.takeAll hmeter _))
  recycleAll := by
    rintro s - ⟨hminify, hmeter⟩ ns
    exact .mk hminify (Meter.overlooks_isModal.takeAll hmeter _)
  takeContext := by
    rintro s - ⟨hminify, hmeter⟩
    exact ⟨_, _, _, _, _, rfl, rfl,
      .mk hminify (Meter.overlooks_isModal.takeAll hmeter _)⟩
  giveContext := by
    rintro s - ⟨hminify, hmeter⟩ c
    exact .mk hminify (Meter.overlooks_isModal.takeAll hmeter _)
  reset := by
    rintro s - ⟨hminify, hmeter⟩
    exact .mk hminify (Meter.overlooks_isModal.takeAll hmeter _)
  htmlAlone h n := h.htmlAlone n
  renderInto h ns c := h.renderInto ns c

end Site

end Folio
