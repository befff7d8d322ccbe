import Folio.Proofs.Desk.Answers
import Folio.Proofs.Site.Alike

/-! Pooling is invisible: whatever is asked of two sites that were opened with other pool
capacities, the answers are the same but for the figures about the pools, and nothing that was given
back to a pool is ever seen again. -/
namespace Folio.Desk

/-- Desks with the same documents, nodes and contexts, at sites that are alike. -/
inductive Alike (k : Desk) : Desk → Prop
  | mk {site : Site} (h : k.site.Alike site) : Alike k { k with site }

/-- A reply without the figures about pools. -/
def Reply.withoutPools : Reply → Reply
  | .settings s => .settings (s.withCapacities 0 0)
  | .statistics s => .statistics
    { s with nodes := ⟨0, 0, 0, 0, 0, 0⟩, contexts := ⟨0, 0, 0, 0, 0, 0⟩ }
  | r => r

/-- An answer without the figures about pools. -/
def Answer.withoutPools : Answer → Answer
  | .command result => .command (result.map Reply.withoutPools)
  | .pages results => .pages results
  | .warmup reports => .warmup reports

theorem Answer.mask_withoutPools : Answer.mask Reply.withoutPools = Answer.withoutPools := by
  funext a
  cases a <;> rfl

/-- Beyond the figures about pools a reply shows nothing of a site that may differ. -/
theorem hides_withoutPools : Hides Site.Alike Reply.withoutPools where
  settings := by
    rintro s s' h
    obtain ⟨n, c, hsame⟩ := h.settings_eq
    rw [hsame]
    rfl
  statistics := by
    rintro s - ⟨⟩
    rfl

namespace Alike

variable {k k' : Desk}

theorem site (h : Alike k k') : k.site.Alike k'.site := by
  obtain ⟨h⟩ := h
  exact h

theorem answerAll (h : Alike k k') (ops : List Operation) :
    (Desk.answerAll ops k').1.map Answer.withoutPools =
        (Desk.answerAll ops k).1.map Answer.withoutPools ∧
      Alike (Desk.answerAll ops k).2 (Desk.answerAll ops k').2 := by
  have hover : Over Site.Alike k k' := by
    obtain ⟨h⟩ := h
    exact .mk h
  obtain ⟨hanswers, hafter⟩ := hover.answerAll Site.indistinct_alike hides_withoutPools ops
  rw [Answer.mask_withoutPools] at hanswers
  refine ⟨hanswers, ?_⟩
  generalize (Desk.answerAll ops k').2 = t at hafter ⊢
  obtain ⟨hafter⟩ := hafter
  exact .mk hafter

end Alike

/-- Pooling is invisible: two runs of the same operations, on sites that were opened with settings
which differ in the capacities of the pools only, are answered alike. They end with the same cache,
states, ids, documents, nodes and contexts, and whatever is free in a pool is as good as new, so
that no later document finds in it what an earlier one left. The runs of ids are the same, for they
are not drawn anew. -/
theorem answerAll_withCapacities (settings : Settings) (sink : Sink)
    (firstRun nodes contexts nodes' contexts' : Nat) (ops : List Operation) :
    let run := answerAll ops (opened (settings.withCapacities nodes contexts) sink firstRun)
    let run' := answerAll ops (opened (settings.withCapacities nodes' contexts') sink firstRun)
    run'.1.map Answer.withoutPools = run.1.map Answer.withoutPools ∧ run.2.Alike run'.2 ∧
      run.2.site.Spotless ∧ run'.2.site.Spotless := by
  intro run run'
  have hopened : Alike (opened (settings.withCapacities nodes contexts) sink firstRun)
      (opened (settings.withCapacities nodes' contexts') sink firstRun) :=
    .mk (Site.Alike.ofSettings settings sink firstRun nodes contexts nodes' contexts')
  obtain ⟨hanswers, hafter⟩ := hopened.answerAll ops
  exact ⟨hanswers, hafter, hafter.site.spotless⟩

/-- The pools do differ: a node that is given back is kept at one site and dropped at the other. -/
example :
    let ops : List Operation :=
      [.command (.document "d" {}), .command (.add "d" (.mk "p" [])), .command (.clear "d")]
    let kept (capacity : Nat) : Nat :=
      (answerAll ops (opened (Settings.withCapacities {} capacity 0) .silent 0)).2.site.nodes.size
    kept 1 = 1 ∧ kept 0 = 0 := by
  decide +kernel

end Folio.Desk
