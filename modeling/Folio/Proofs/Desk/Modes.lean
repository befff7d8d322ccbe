import Folio.Proofs.Desk.Answers
import Folio.Proofs.Site.Modes

/-! The mode decides what authors are told, and nothing else: two runs of the same operations in two
modes return the same, if the settings say whether to minify pages. -/
namespace Folio.Desk

/-- A reply without the mode that settings report. -/
def Reply.withoutMode : Reply → Reply
  | .settings s => .settings (s.withMode .development)
  | r => r

/-- Beyond the mode a reply shows nothing of a site that may differ. -/
theorem hides_withoutMode (mode : Mode) : Hides (Site.SameButMode mode) Reply.withoutMode where
  settings := by
    rintro s - ⟨⟩
    rfl
  statistics := by
    rintro s - ⟨⟩
    rfl

/-- The mode affects logs only: two runs of the same operations, on sites that were opened with
settings which differ in the mode and say whether to minify pages, are answered alike but for the mode
that the settings report. They leave the same desks at sites with the same ids, states, pools, cache
and metrics, and logs that are the same but for warnings and for the event of the new site. -/
theorem answerAll_inMode (settings : Settings) (minify : Bool) (mode mode' : Mode) (sink : Sink)
    (firstRun : Nat) (ops : List Operation) :
    let run := answerAll ops (opened { settings with mode, minify := some minify } sink firstRun)
    let run' := answerAll ops
      (opened { settings with mode := mode', minify := some minify } sink firstRun)
    run'.1.map (Answer.mask Reply.withoutMode) = run.1.map (Answer.mask Reply.withoutMode) ∧
      ∃ log, Event.settled log = Event.settled run.2.site.meter.log ∧
        run'.2 = { run.2 with site := { run.2.site with
          settings := run.2.site.settings.withMode mode', meter := { run.2.site.meter with log } } } := by
  intro run run'
  have hopened : Over (Site.SameButMode mode')
      (opened { settings with mode, minify := some minify } sink firstRun)
      (opened { settings with mode := mode', minify := some minify } sink firstRun) :=
    .mk (Site.SameButMode.ofSettings settings minify mode mode' sink firstRun)
  obtain ⟨hanswers, hafter⟩ :=
    hopened.answerAll (Site.indistinct_mode mode') (hides_withoutMode mode') ops
  refine ⟨hanswers, ?_⟩
  change Over (Site.SameButMode mode') run.2 run'.2 at hafter
  generalize run'.2 = k' at hafter ⊢
  obtain ⟨hsite⟩ := hafter
  obtain ⟨-, hmeter⟩ := hsite
  obtain ⟨hlog⟩ := hmeter
  exact ⟨_, hlog, rfl⟩

/-- The logs do differ: a document without a usable key is remarked on in development only. -/
example :
    let ops : List Operation := [.command (.document "d" { useCache := true })]
    let warnings (mode : Mode) : Nat :=
      ((answerAll ops (opened { mode, minify := some true } .silent 0)).2.site.meter.log.filter
        (·.level = .warn)).length
    warnings .development = 1 ∧ warnings .production = 0 := by
  decide +kernel

end Folio.Desk
