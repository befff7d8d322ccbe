import Folio.Page.Builder

/-! Builder calls in scopes that they cannot tell apart. Whatever a call does in one of them it does in
the other, and it cannot tell the scopes apart afterwards either. -/
namespace Folio

/-- The same result, in states that are related. -/
def Agree {α σ : Type} (R : σ → σ → Prop) (r r' : α × σ) : Prop :=
  ∃ a t t', r = (a, t) ∧ r' = (a, t') ∧ R t t'

theorem Agree.mk {α σ : Type} {R : σ → σ → Prop} (a : α) {t t' : σ} (h : R t t') :
    Agree R (a, t) (a, t') :=
  ⟨a, t, t', rfl, rfl, h⟩

/-- Holds of a relation between scopes that differ in nothing that a call acts on, and that calls
preserve because they do no more than replace ids and states, warn and give advice. -/
structure Scope.Indistinct (Q : Scope → Scope → Prop) : Prop where
  frame : ∀ {sc sc'}, Q sc sc' → ∃ settings log, sc' = { sc with settings, log }
  limits_eq : ∀ {sc sc'}, Q sc sc' → sc'.settings.limits = sc.settings.limits
  styleValueLength_eq : ∀ {sc sc'}, Q sc sc' →
    sc'.settings.styleValueLength = sc.settings.styleValueLength
  update : ∀ {sc sc'}, Q sc sc' → ∀ ids states, Q { sc with ids, states } { sc' with ids, states }
  warn : ∀ {sc sc'}, Q sc sc' → ∀ message fields, Q (sc.warn message fields) (sc'.warn message fields)
  advise : ∀ {sc sc'}, Q sc sc' → ∀ message fields,
    Q (sc.advise message fields) (sc'.advise message fields)

namespace Scope.Indistinct

variable {Q : Scope → Scope → Prop} {sc sc' : Scope}

theorem ids_eq (hQ : Indistinct Q) (h : Q sc sc') : sc'.ids = sc.ids := by
  obtain ⟨settings, log, rfl⟩ := hQ.frame h
  rfl

theorem states_eq (hQ : Indistinct Q) (h : Q sc sc') : sc'.states = sc.states := by
  obtain ⟨settings, log, rfl⟩ := hQ.frame h
  rfl

theorem setIds (hQ : Indistinct Q) (h : Q sc sc') (ids : Ids) :
    Q { sc with ids } { sc' with ids } := by
  rw [hQ.states_eq h]
  exact hQ.update h ids sc.states

theorem setStates (hQ : Indistinct Q) (h : Q sc sc') (states : States) :
    Q { sc with states } { sc' with states } := by
  rw [hQ.ids_eq h]
  exact hQ.update h sc.ids states

variable (n : Node)

theorem ensureId (hQ : Indistinct Q) (h : Q sc sc') :
    Agree Q (n.ensureId sc) (n.ensureId sc') := by
  unfold Node.ensureId
  cases n.id? with
  | some id => exact .mk n h
  | none =>
    unfold Scope.nextId
    rw [hQ.ids_eq h]
    exact .mk _ (hQ.setIds h _)

theorem accepts (hQ : Indistinct Q) (h : Q sc sc') (kind : Client.Kind) (source : String) :
    Agree Q (n.accepts sc kind source) (n.accepts sc' kind source) := by
  unfold Node.accepts
  rw [hQ.limits_eq h]
  cases Client.check kind sc.settings.limits source with
  | ok _ => exact .mk _ h
  | error e => exact .mk _ (hQ.advise h _ _)

theorem attr (hQ : Indistinct Q) (h : Q sc sc') (name value : String) :
    Agree Q (n.attr sc name value) (n.attr sc' name value) := by
  simp only [Node.attr]
  split
  · exact .mk _ (hQ.advise h _ _)
  · exact .mk _ h

theorem rename (hQ : Indistinct Q) (h : Q sc sc') (value : String) :
    Agree Q (n.rename sc value) (n.rename sc' value) := by
  simp only [Node.rename]
  split
  · split
    · exact .mk _ h
    · rw [hQ.states_eq h]
      exact .mk _ (hQ.setStates h _)
  · exact .mk _ h

theorem capture (hQ : Indistinct Q) (h : Q sc sc') (value : Json) :
    Agree Q (n.capture sc value) (n.capture sc' value) := by
  obtain ⟨m, t, t', ht, ht', hnamed⟩ := hQ.ensureId n h
  simp only [Node.capture, ht, ht', hQ.states_eq hnamed]
  exact .mk _ (hQ.setStates hnamed _)

theorem captureResult (hQ : Indistinct Q) (h : Q sc sc') (value : Except String Json) :
    Agree Q (n.captureResult sc value) (n.captureResult sc' value) := by
  cases value with
  | ok v => exact hQ.capture n h v
  | error e => exact .mk n (hQ.warn h _ _)

/-- What becomes of a source, whether it is accepted or not. -/
theorem whenAccepted (hQ : Indistinct Q) (h : Q sc sc') (kind : Client.Kind) (source : String)
    (keep : Node → Node) :
    Agree Q
      (match n.accepts sc kind source with
        | (false, sc) => (n, sc)
        | (true, sc) => (keep (n.ensureId sc).1, (n.ensureId sc).2))
      (match n.accepts sc' kind source with
        | (false, sc) => (n, sc)
        | (true, sc) => (keep (n.ensureId sc).1, (n.ensureId sc).2)) := by
  obtain ⟨accepted, t, t', ht, ht', hchecked⟩ := hQ.accepts n h kind source
  rw [ht, ht']
  cases accepted with
  | false => exact .mk n hchecked
  | true =>
    obtain ⟨m, u, u', hu, hu', hnamed⟩ := hQ.ensureId n hchecked
    simp only [hu, hu']
    exact .mk _ hnamed

theorem setComputed (hQ : Indistinct Q) (h : Q sc sc') (source : String) :
    Agree Q (n.setComputed sc source) (n.setComputed sc' source) :=
  hQ.whenAccepted n h .computed source fun m => { m with computed := some ⟨.computed, source⟩ }

theorem bindText (hQ : Indistinct Q) (h : Q sc sc') (key source : String) :
    Agree Q (n.bindText sc key source) (n.bindText sc' key source) := by
  simp only [Node.bindText]
  split
  · exact .mk _ (hQ.advise h _ _)
  · exact hQ.whenAccepted n h .computed source
      fun m => { m with bindings := m.bindings ++ [⟨key, ⟨.computed, source⟩⟩] }

theorem listen (hQ : Indistinct Q) (h : Q sc sc') (event : String) (targetId : Option String)
    (source : String) :
    Agree Q (n.listen sc event targetId source) (n.listen sc' event targetId source) := by
  simp only [Node.listen]
  split
  · exact .mk _ (hQ.advise h _ _)
  · exact hQ.whenAccepted n h .event source fun m => { m with
      listeners := m.listeners ++ [⟨Node.eventName event, m.idText, targetId, ⟨.event, source⟩⟩] }

theorem css_eq (hQ : Indistinct Q) (h : Q sc sc') (ds : List (String × String)) :
    n.css sc' ds = n.css sc ds := by
  rw [Node.css, Node.css, hQ.styleValueLength_eq h]

/-- Every builder call comes to the same in both scopes. -/
theorem apply (hQ : Indistinct Q) (h : Q sc sc') (call : Call) :
    Agree Q (n.apply sc call) (n.apply sc' call) := by
  cases call with
  | attr name value =>
    obtain ⟨m, t, t', ht, ht', hset⟩ := hQ.attr n h name value
    simp only [Node.apply, ht, ht']
    exact .mk _ hset
  | id value => exact hQ.rename n h value
  | autoId =>
    obtain ⟨m, t, t', ht, ht', hnamed⟩ := hQ.ensureId n h
    simp only [Node.apply, ht, ht']
    exact .mk _ hnamed
  | append children => exact .mk _ h
  | css declarations =>
    simp only [Node.apply, hQ.css_eq n h]
    exact .mk _ h
  | state value =>
    obtain ⟨m, t, t', ht, ht', hcaptured⟩ := hQ.captureResult n h value
    simp only [Node.apply, ht, ht']
    exact .mk _ hcaptured
  | computed source =>
    obtain ⟨m, t, t', ht, ht', hcaptured⟩ := hQ.setComputed n h source
    simp only [Node.apply, ht, ht']
    exact .mk _ hcaptured
  | bindText key source =>
    obtain ⟨m, t, t', ht, ht', hbound⟩ := hQ.bindText n h key source
    simp only [Node.apply, ht, ht']
    exact .mk _ hbound
  | listen event targetId source =>
    obtain ⟨m, t, t', ht, ht', hlistens⟩ := hQ.listen n h event targetId source
    simp only [Node.apply, ht, ht']
    exact .mk _ hlistens
  | reset => exact .mk _ h

end Scope.Indistinct

end Folio
