import Folio.Proofs.Flight.Protocol
import Mathlib.Data.List.Nodup

/-!
The way of a load. It passes its first lookup and, if that finds nothing, its critical section. What
it has passed is settled, up to a choice of one among few, by where it stands.
-/
namespace Folio.Flight.Protocol

universe u v

variable {ν : Type u} {ε : Type v} {s t : State ν ε} {a : Act ν ε} {c d : Nat} {key : String}
  {p q : Position ν ε} {ps : List Passage} {ts : List (Transition ν ε)} {τ : Transition ν ε}

/-- What becomes of a load at one of its two lookups, or between them. -/
inductive Passage where
  | hit
  /-- The first lookup found nothing. -/
  | missed
  /-- The second lookup found a value. -/
  | answered
  | joined
  | started
  /-- The load was given up between its lookups. -/
  | left
  deriving DecidableEq

namespace Passage

/-- Whether it is the first lookup. -/
def isFirst : Passage → Bool
  | .hit | .missed => true
  | .answered | .joined | .started | .left => false

end Passage

namespace Position

/-- Whether the load is past both lookups, or was abandoned. -/
def isPast : Position ν ε → Bool
  | .arrived | .missed => false
  | .waiting _ | .returned _ | .abandoned => true

/-- Whether the load is between its lookups. -/
def isBetween : Position ν ε → Bool
  | .missed => true
  | .arrived | .waiting _ | .returned _ | .abandoned => false

theorem isBetween_of_isPast (h : p.isPast = true) : p.isBetween = false := by
  cases p with
  | arrived | missed => cases h
  | waiting | returned | abandoned => rfl

end Position

namespace State

variable (s : State ν ε)

def position? (c : Nat) : Option (Position ν ε) := s.loads[c]?.map Load.position

def isBetween (c : Nat) : Bool := (s.position? c).any Position.isBetween

/-- What the first lookup of a key comes to. -/
def first (key : String) : Passage := if s.cache.contains key then .hit else .missed

/-- What the critical section of a key comes to. -/
def second (key : String) : Passage :=
  if s.cache.contains key then .answered
  else if s.registry.contains key then .joined
  else .started

end State

/-- The load that takes a passage in a step, and the passage. -/
def Transition.passage? (τ : Transition ν ε) : Option (Nat × Passage) :=
  match τ.act with
  | .look c => τ.source.loads[c]?.map fun load => (c, τ.source.first load.key)
  | .enter c => τ.source.loads[c]?.map fun load => (c, τ.source.second load.key)
  | .abandon c =>
    match τ.source.position? c with
    | some .missed => some (c, .left)
    | _ => none
  | _ => none

/-- All passages, in the order in which they were taken. -/
def passages (ts : List (Transition ν ε)) : List (Nat × Passage) :=
  ts.filterMap Transition.passage?

/-- The passages of one load. -/
def course (ts : List (Transition ν ε)) (c : Nat) : List Passage :=
  ((passages ts).filter (·.1 = c)).map Prod.snd

/-- The loads that took a passage. -/
def through (p : Passage) (ts : List (Transition ν ε)) : List Nat :=
  ((passages ts).filter (·.2 = p)).map Prod.fst

/-- The load that makes its first lookup in a step. -/
def Act.looks? : Act ν ε → Option Nat
  | .look c => some c
  | _ => none

/-- Who took the steps of a kind. -/
def acted (who? : Act ν ε → Option Nat) (ts : List (Transition ν ε)) : List Nat :=
  ts.filterMap fun τ => who? τ.act

/-- The loads past their first lookup. -/
def lookedUp (ts : List (Transition ν ε)) : List Nat := acted Act.looks? ts

/-- The loads between their two lookups, and those that were given up there. -/
def between (ts : List (Transition ν ε)) (s : State ν ε) : List Nat :=
  (List.range s.loads.length).filter s.isBetween ++ through .left ts

/-- The ways that lead a load to where it stands. -/
inductive Course : Option (Position ν ε) → List Passage → Prop
  | absent : Course none []
  | arrived : Course (some .arrived) []
  | hit (v : ν) : Course (some (.returned (.ok v))) [.hit]
  | missed : Course (some .missed) [.missed]
  | answered (v : ν) : Course (some (.returned (.ok v))) [.missed, .answered]
  | joined {p : Position ν ε} (h : p.isPast = true) : Course (some p) [.missed, .joined]
  | started {p : Position ν ε} (h : p.isPast = true) : Course (some p) [.missed, .started]
  | left : Course (some .abandoned) [.missed, .left]
  | gone : Course (some .abandoned) []

namespace Course

theorem eq_nil (h : Course (some (.arrived : Position ν ε)) ps) : ps = [] := by
  cases h with
  | arrived => rfl
  | joined h | started h => cases h

theorem eq_missed (h : Course (some (.missed : Position ν ε)) ps) : ps = [.missed] := by
  cases h with
  | missed => rfl
  | joined h | started h => cases h

/-- Who waits can go anywhere past the lookups. -/
theorem of_waiting {n : Nat} (h : Course (some (.waiting n : Position ν ε)) ps)
    (hp : p.isPast = true) : Course (some p) ps := by
  cases h with
  | joined => exact .joined hp
  | started => exact .started hp

variable {o : Option (Position ν ε)}

/-- A load past its first lookup has one exit, or is between its lookups. -/
theorem balance (h : Course o ps) : ps.countP Passage.isFirst =
    ps.count .hit + ps.count .answered + ps.count .joined + ps.count .started +
      ((if o.any Position.isBetween then 1 else 0) + ps.count .left) := by
  cases h with
  | joined hp | started hp =>
    rw [Option.any_some, Position.isBetween_of_isPast hp]
    rfl
  | absent | arrived | hit | missed | answered | left | gone => rfl

theorem countP_isFirst_le (h : Course o ps) : ps.countP Passage.isFirst ≤ 1 := by
  cases h <;> decide

/-- No one but an abandoned load can have two pasts. -/
theorem countP_isFirst_pos_iff (h : Course (some p) ps) (hp : p ≠ .abandoned) :
    0 < ps.countP Passage.isFirst ↔ p ≠ .arrived := by
  cases h with
  | arrived => simp
  | hit v | answered v => simp [Passage.isFirst]
  | missed => simp [Passage.isFirst]
  | joined hpast | started hpast =>
    have hne : p ≠ .arrived := by
      rintro rfl
      cases hpast
    simp [Passage.isFirst, hne]
  | left | gone => exact (hp rfl).elim

end Course

/-- What a critical section can come to, with the passage that it is. -/
theorem State.entered_passages (s : State ν ε) (c : Nat) (key : String) :
    (∃ v, s.second key = .answered ∧
      s.entered c key = s.setLoad c key (.returned (.ok v))) ∨
    (∃ m, s.second key = .joined ∧ s.entered c key = { s with
      loads := s.loads.set c ⟨key, .waiting m⟩
      reports := s.reports ++ [.tick Metric.flightJoined,
        .log .debug "joined in-flight computation" [("key", key)]] }) ∨
    (s.second key = .started ∧ s.registry.find? key = none ∧ s.entered c key = { s with
      registry := (s.registry.start key).2
      loads := s.loads.set c ⟨key, .waiting s.registry.started⟩
      tasks := s.tasks ++ [⟨key, .spawned⟩]
      reports := s.reports ++ [.log .debug "started computation" [("key", key)]] }) := by
  rcases s.entered_cases c key with ⟨v, hv, ht⟩ | ⟨m, hv, hm, ht⟩ | ⟨hv, hm, ht⟩
  · exact .inl ⟨v, by simp [second, Cache.contains, hv], ht⟩
  · exact .inr (.inl ⟨m, by simp [second, Cache.contains, Registry.contains, hv, hm], ht⟩)
  · exact .inr (.inr ⟨by simp [second, Cache.contains, Registry.contains, hv, hm], hm, ht⟩)

theorem isFirst_first (s : State ν ε) (key : String) : (s.first key).isFirst = true := by
  unfold State.first
  split <;> rfl

theorem isFirst_second (s : State ν ε) (key : String) : (s.second key).isFirst = false := by
  unfold State.second
  split
  · rfl
  · split <;> rfl

theorem passage?_look (hd : s.loads[d]? = some ⟨key, p⟩) (t : State ν ε) :
    (⟨s, .look d, t⟩ : Transition ν ε).passage? = some (d, s.first key) := by
  simp [Transition.passage?, hd]

theorem passage?_enter (hd : s.loads[d]? = some ⟨key, p⟩) (t : State ν ε) :
    (⟨s, .enter d, t⟩ : Transition ν ε).passage? = some (d, s.second key) := by
  simp [Transition.passage?, hd]

theorem acted_append (who? : Act ν ε → Option Nat) (ts : List (Transition ν ε))
    (τ : Transition ν ε) : acted who? (ts ++ [τ]) = acted who? ts ++ (who? τ.act).toList := by
  rw [acted, List.filterMap_append, acted]
  cases h : who? τ.act <;> simp [h]

theorem passages_append (ts : List (Transition ν ε)) (τ : Transition ν ε) :
    passages (ts ++ [τ]) = passages ts ++ τ.passage?.toList := by
  rw [passages, List.filterMap_append, passages]
  cases h : τ.passage? <;> simp [h]

theorem course_append_of_none (h : τ.passage? = none) (c : Nat) :
    course (ts ++ [τ]) c = course ts c := by
  rw [course, passages_append, h, Option.toList_none, List.append_nil, course]

theorem course_append_of_some {P : Passage} (h : τ.passage? = some (d, P)) (c : Nat) :
    course (ts ++ [τ]) c = course ts c ++ if d = c then [P] else [] := by
  rw [course, passages_append, h, Option.toList_some, List.filter_append, List.map_append, course]
  by_cases hd : d = c <;> simp [hd]

/-- Whether a step takes a passage, as a number. -/
def Transition.took (τ : Transition ν ε) (P : Passage) : Nat :=
  if τ.passage?.any (·.2 = P) then 1 else 0

theorem length_through_append (P : Passage) (ts : List (Transition ν ε)) (τ : Transition ν ε) :
    (through P (ts ++ [τ])).length = (through P ts).length + τ.took P := by
  rw [through, passages_append, List.filter_append, List.map_append, List.length_append, through,
    Transition.took]
  congr 1
  cases τ.passage? with
  | none => rfl
  | some e => by_cases he : e.2 = P <;> simp [he]

theorem took_enter (hd : s.loads[d]? = some ⟨key, p⟩) (t : State ν ε) (P : Passage) :
    (⟨s, .enter d, t⟩ : Transition ν ε).took P = if s.second key = P then 1 else 0 := by
  simp [Transition.took, passage?_enter hd]

/-- The passages of a critical section are taken in no other step. -/
theorem took_of_ne (h : Step s a t) (ha : ∀ d, a ≠ .enter d) {P : Passage}
    (hP : P.isFirst = false) (hleft : P ≠ .left) : (⟨s, a, t⟩ : Transition ν ε).took P = 0 := by
  cases h with
  | enter hd => exact (ha _ rfl).elim
  | @look d key hd =>
    have hne : s.first key ≠ P := by
      rintro rfl
      rw [isFirst_first] at hP
      cases hP
    simp [Transition.took, passage?_look hd, hne]
  | @abandon d key p hd hp =>
    have hpos : s.position? d = some p := by rw [State.position?, hd, Option.map_some]
    cases p <;> simp [Transition.took, Transition.passage?, hpos, Ne.symm hleft]
  | arrive | receive | call | finish | store | unregister | publish | client => rfl

/-- Every load is where its course leads. -/
def Coursed (ts : List (Transition ν ε)) (s : State ν ε) : Prop :=
  ∀ c, Course (s.position? c) (course ts c)

namespace Coursed

theorem of_loads_eq (hs : Coursed ts s) (ht : t.loads = s.loads) (hτ : τ.passage? = none) :
    Coursed (ts ++ [τ]) t := by
  intro c
  rw [course_append_of_none hτ, State.position?, ht]
  exact hs c

/-- One load goes on, on a passage or on none, and the others stay. -/
theorem of_loads_set {own : List Passage} (hs : Coursed ts s)
    (hd : s.loads[d]? = some ⟨key, p⟩) (ht : t.loads = s.loads.set d ⟨key, q⟩)
    (hτ : ∀ c, course (ts ++ [τ]) c = course ts c ++ if d = c then own else [])
    (hown : ∀ ps, Course (some p) ps → Course (some q) (ps ++ own)) :
    Coursed (ts ++ [τ]) t := by
  intro c
  rw [hτ, State.position?, ht]
  by_cases hdc : d = c
  · subst hdc
    obtain ⟨hlt, -⟩ := List.getElem?_eq_some_iff.1 hd
    have hp : s.position? d = some p := by rw [State.position?, hd, Option.map_some]
    rw [if_pos rfl, List.getElem?_set_self hlt]
    exact hown _ (hp ▸ hs d)
  · rw [if_neg hdc, List.append_nil, List.getElem?_set_ne hdc]
    exact hs c

/-- A load goes on without a passage. -/
theorem of_none (hs : Coursed ts s) (hd : s.loads[d]? = some ⟨key, p⟩)
    (ht : t.loads = s.loads.set d ⟨key, q⟩) (hτ : τ.passage? = none)
    (hown : ∀ ps, Course (some p) ps → Course (some q) ps) : Coursed (ts ++ [τ]) t := by
  have hnone : ∀ c, course (ts ++ [τ]) c = course ts c ++ if d = c then [] else [] := by
    intro c
    rw [course_append_of_none hτ, ite_self, List.append_nil]
  exact hs.of_loads_set hd ht hnone (by simpa only [List.append_nil] using hown)

theorem of_arrive (hs : Coursed ts s) : Coursed (ts ++ [⟨s, .arrive key, t⟩])
    { s with loads := s.loads ++ [⟨key, .arrived⟩] } := by
  intro c
  have hc := hs c
  rw [course_append_of_none rfl, State.position?]
  rw [State.position?] at hc
  rcases Nat.lt_trichotomy c s.loads.length with hlt | rfl | hlt
  · rwa [List.getElem?_append_left hlt]
  · rw [List.getElem?_eq_none (Nat.le_refl _)] at hc
    rw [List.getElem?_concat_length]
    cases hc' : course ts s.loads.length with
    | nil => exact .arrived
    | cons P ps =>
      rw [hc'] at hc
      cases hc
  · have hle : (s.loads ++ [(⟨key, .arrived⟩ : Load ν ε)]).length ≤ c := by
      rwa [List.length_append, List.length_singleton]
    rw [List.getElem?_eq_none (Nat.le_of_lt hlt)] at hc
    rwa [List.getElem?_eq_none hle]

theorem of_look (hs : Coursed ts s) (hd : s.loads[d]? = some ⟨key, .arrived⟩) :
    Coursed (ts ++ [⟨s, .look d, t⟩]) (s.looked d key) := by
  have hτ : ∀ c, course (ts ++ [⟨s, .look d, t⟩]) c = _ :=
    course_append_of_some (passage?_look hd t)
  refine hs.of_loads_set hd State.looked_loads hτ fun ps hps => ?_
  rw [hps.eq_nil, List.nil_append]
  cases hv : s.cache.peek key with
  | none => simpa [State.first, Cache.contains, hv] using Course.missed
  | some v => simpa [State.first, Cache.contains, hv] using Course.hit v

theorem of_enter (hs : Coursed ts s) (hd : s.loads[d]? = some ⟨key, .missed⟩) :
    Coursed (ts ++ [⟨s, .enter d, t⟩]) (s.entered d key) := by
  have hτ : ∀ c, course (ts ++ [⟨s, .enter d, t⟩]) c = _ :=
    course_append_of_some (passage?_enter hd t)
  rcases s.entered_passages d key with ⟨v, hP, ht⟩ | ⟨m, hP, ht⟩ | ⟨hP, -, ht⟩ <;> rw [ht]
  · refine hs.of_loads_set hd rfl hτ fun ps hps => ?_
    rw [hps.eq_missed, hP]
    exact .answered v
  · refine hs.of_loads_set hd rfl hτ fun ps hps => ?_
    rw [hps.eq_missed, hP]
    exact .joined rfl
  · refine hs.of_loads_set hd rfl hτ fun ps hps => ?_
    rw [hps.eq_missed, hP]
    exact .started rfl

theorem of_abandon (hs : Coursed ts s) (hd : s.loads[d]? = some ⟨key, p⟩)
    (hp : p.isPending = true) :
    Coursed (ts ++ [⟨s, .abandon d, t⟩]) (s.setLoad d key .abandoned) := by
  have hpos : s.position? d = some p := by rw [State.position?, hd, Option.map_some]
  cases p with
  | returned | abandoned => cases hp
  | arrived =>
    refine hs.of_none hd rfl (by simp [Transition.passage?, hpos]) fun ps hps => ?_
    rw [hps.eq_nil]
    exact .gone
  | missed =>
    have hτ : (⟨s, .abandon d, t⟩ : Transition ν ε).passage? = some (d, .left) := by
      simp [Transition.passage?, hpos]
    refine hs.of_loads_set hd rfl (course_append_of_some hτ) fun ps hps => ?_
    rw [hps.eq_missed]
    exact .left
  | waiting n =>
    exact hs.of_none hd rfl (by simp [Transition.passage?, hpos]) fun ps hps => hps.of_waiting rfl

theorem step (hs : Coursed ts s) (h : Step s a t) : Coursed (ts ++ [⟨s, a, t⟩]) t := by
  cases h with
  | arrive key => exact hs.of_arrive
  | look hd => exact hs.of_look hd
  | enter hd => exact hs.of_enter hd
  | receive hd hn => exact hs.of_none hd rfl rfl fun ps hps => hps.of_waiting rfl
  | abandon hd hp => exact hs.of_abandon hd hp
  | call hn | finish hn o | store hn | unregister hn hp | publish hn | client op =>
    exact hs.of_loads_eq rfl rfl

end Coursed

theorem coursed_run {capacity : Nat} (h : Run (.ofCapacity capacity) ts s) : Coursed ts s := by
  induction h with
  | start => exact fun c => .absent
  | step _ hstep ih => exact ih.step hstep

/-! Loads counted by their courses -/

/-- Among pairs, the loads of some passages are as many as the passages of that kind of a load. -/
theorem count_map_fst (f : Passage → Bool) (es : List (Nat × Passage)) (c : Nat) :
    ((es.filter fun e => f e.2).map Prod.fst).count c =
      ((es.filter fun e => e.1 = c).map Prod.snd).countP f := by
  induction es with
  | nil => rfl
  | cons e es ih =>
    obtain ⟨d, P⟩ := e
    by_cases hd : d = c <;> by_cases hP : f P <;> simp_all

theorem count_through (P : Passage) (ts : List (Transition ν ε)) (c : Nat) :
    (through P ts).count c = (course ts c).count P := by
  exact count_map_fst (· = P) (passages ts) c

/-- The passages at a first lookup are the first lookups. -/
theorem looks?_eq (h : Step s a t) :
    a.looks? = ((⟨s, a, t⟩ : Transition ν ε).passage?.filter (·.2.isFirst)).map Prod.fst := by
  cases h with
  | look hd => simp [Act.looks?, passage?_look hd, Option.filter, isFirst_first]
  | enter hd => simp [Act.looks?, passage?_enter hd, Option.filter, isFirst_second]
  | @abandon d key p hd hp =>
    have hpos : s.position? d = some p := by rw [State.position?, hd, Option.map_some]
    cases p <;> simp [Act.looks?, Transition.passage?, hpos, Option.filter, Passage.isFirst]
  | arrive | receive | call | finish | store | unregister | publish | client => rfl

theorem lookedUp_eq {s₀ : State ν ε} (h : Run s₀ ts s) :
    lookedUp ts = ((passages ts).filter fun e => e.2.isFirst).map Prod.fst := by
  induction h with
  | start => rfl
  | @step ts t u a hrun hstep ih =>
    rw [passages_append, List.filter_append, List.map_append, ← ih, lookedUp, acted_append,
      looks?_eq hstep, lookedUp]
    congr 1
    cases (⟨t, a, u⟩ : Transition ν ε).passage? with
    | none => rfl
    | some e => cases he : e.2.isFirst <;> simp [Option.filter, he]

theorem count_lookedUp {s₀ : State ν ε} (h : Run s₀ ts s) (c : Nat) :
    (lookedUp ts).count c = (course ts c).countP Passage.isFirst := by
  rw [lookedUp_eq h, count_map_fst, course]

theorem count_between (ts : List (Transition ν ε)) (s : State ν ε) (c : Nat) :
    (between ts s).count c = (if s.isBetween c then 1 else 0) + (course ts c).count .left := by
  rw [between, List.count_append, count_through]
  congr 1
  by_cases hc : s.isBetween c = true
  · have hlt : c < s.loads.length := by
      refine Nat.lt_of_not_le fun hle => ?_
      simp [State.isBetween, State.position?, hle] at hc
    have hmem : c ∈ List.range s.loads.length := List.mem_range.2 hlt
    rw [List.count_filter hc, if_pos hc, List.count_eq_one_of_mem List.nodup_range hmem]
  · rw [if_neg hc]
    exact List.count_eq_zero_of_not_mem fun hmem => hc (List.mem_filter.1 hmem).2

/-- Whoever is past the first lookup has one exit, or is between the lookups. -/
theorem lookedUp_perm {capacity : Nat} (h : Run (.ofCapacity capacity) ts s) :
    (lookedUp ts).Perm (through .hit ts ++ through .answered ts ++ through .joined ts ++
      through .started ts ++ between ts s) := by
  refine List.perm_iff_count.2 fun c => ?_
  simp only [List.count_append, count_through, count_lookedUp h, count_between, State.isBetween]
  exact (coursed_run h c).balance

theorem nodup_lookedUp {capacity : Nat} (h : Run (.ofCapacity capacity) ts s) :
    (lookedUp ts).Nodup := by
  refine List.nodup_iff_count_le_one.2 fun c => ?_
  rw [count_lookedUp h]
  exact (coursed_run h c).countP_isFirst_le

theorem mem_lookedUp_iff {capacity : Nat} (h : Run (.ofCapacity capacity) ts s)
    (hp : s.position? c = some p) (hne : p ≠ .abandoned) : c ∈ lookedUp ts ↔ p ≠ .arrived := by
  have hc := coursed_run h c
  rw [hp] at hc
  rw [← List.count_pos_iff, count_lookedUp h]
  exact hc.countP_isFirst_pos_iff hne

end Folio.Flight.Protocol
