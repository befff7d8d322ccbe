import Folio.Proofs.Pool.Dismantled
import Folio.Proofs.Pool.Hidden

/-!
The books of a pool. What is free was given back and not taken again, every instance that was handed
out was made or taken from the free ones, and every instance that was given back was kept or dropped.
-/
namespace Folio.Pool

universe u

/-- The counters of a pool against the instances that were handed out and given back. -/
structure Statistics.Balanced (s : Statistics) (handed given : Nat) : Prop where
  free_le : s.free ≤ s.capacity
  kept : s.free + s.reused = s.released
  handed_eq : s.created + s.reused = handed
  given_eq : s.released + s.discarded = given

/-- What the counters say of a metric, if the pool reports under these names. -/
def Statistics.told (s : Statistics) (names : Names) (metric : String) : Nat :=
  (if names.created = metric then s.created else 0) +
    (if names.reused = metric then s.reused else 0) +
    (if names.released = metric then s.released else 0) +
    (if names.discarded = metric then s.discarded else 0)

section Changes

variable {α : Type u} [Reusable α] {p : Pool α} {handed given : Nat} {rs : List Report}

/-- An acquisition takes the newest free instance, or makes one where none is free. -/
theorem acquire_cases (p : Pool α) :
    (∃ a rest, p.free = a :: rest ∧ p.acquire.1 = a ∧ p.acquire.2.1.free = rest ∧
      p.acquire.2.1.statistics = { p.statistics with
        free := p.statistics.free - 1, reused := p.statistics.reused + 1 } ∧
      p.acquire.2.2 = [.tick p.names.reused]) ∨
    (p.free = [] ∧ p.acquire.1 = Reusable.fresh ∧ p.acquire.2.1.free = [] ∧
      p.acquire.2.1.statistics = { p.statistics with created := p.statistics.created + 1 } ∧
      p.acquire.2.2 = [.tick p.names.created]) := by
  unfold acquire
  split
  · next a rest hfree => exact .inl ⟨a, rest, hfree, rfl, rfl, rfl, rfl⟩
  · next hfree => exact .inr ⟨hfree, rfl, hfree, rfl, rfl⟩

/-- A release keeps the instance, cleared, where there is room for it, and drops it elsewhere. -/
theorem release_cases (p : Pool α) (a : α) :
    (p.statistics.free < p.statistics.capacity ∧ (p.release a).1 = true ∧
      (p.release a).2.1.free = Reusable.reset a :: p.free ∧
      (p.release a).2.1.statistics = { p.statistics with
        free := p.statistics.free + 1, released := p.statistics.released + 1 } ∧
      (p.release a).2.2 = [.tick p.names.released]) ∨
    (p.statistics.capacity ≤ p.statistics.free ∧ (p.release a).1 = false ∧
      (p.release a).2.1.free = p.free ∧
      (p.release a).2.1.statistics = { p.statistics with
        discarded := p.statistics.discarded + 1 } ∧
      (p.release a).2.2 = [.tick p.names.discarded]) := by
  unfold release
  split
  · next hfull => exact .inr ⟨hfull, rfl, rfl, rfl, rfl⟩
  · next hroom => exact .inl ⟨Nat.lt_of_not_le hroom, rfl, rfl, rfl, rfl⟩

/-- A release returns whether the instance was kept. -/
theorem free_release (p : Pool α) (a : α) : (p.release a).2.1.free =
    if (p.release a).1 then Reusable.reset a :: p.free else p.free := by
  rcases p.release_cases a with ⟨-, hkept, hfree, -, -⟩ | ⟨-, hkept, hfree, -, -⟩ <;>
    rw [hkept, hfree] <;> rfl

theorem balanced_acquire (h : p.statistics.Balanced handed given) :
    p.acquire.2.1.statistics.Balanced (handed + 1) given := by
  obtain ⟨hle, hkept, hhanded, hgiven⟩ := h
  rcases p.acquire_cases with ⟨a, rest, hfree, -, -, hs, -⟩ | ⟨-, -, -, hs, -⟩ <;> rw [hs]
  · have hpos : 0 < p.statistics.free := by simp [statistics, p.size_eq, hfree]
    constructor <;> dsimp only <;> omega
  · constructor <;> dsimp only <;> omega

theorem balanced_release (h : p.statistics.Balanced handed given) (a : α) :
    (p.release a).2.1.statistics.Balanced handed (given + 1) := by
  obtain ⟨hle, hkept, hhanded, hgiven⟩ := h
  rcases p.release_cases a with ⟨hroom, -, -, hs, -⟩ | ⟨-, -, -, hs, -⟩ <;> rw [hs] <;>
    constructor <;> dsimp only <;> omega

theorem balanced_releaseAll (h : p.statistics.Balanced handed given) (as : List α) :
    (p.releaseAll as).1.statistics.Balanced handed (given + as.length) := by
  induction as generalizing p given with
  | nil => exact h
  | cons a as ih =>
    rw [List.length_cons, Nat.add_comm as.length, ← Nat.add_assoc]
    exact ih (balanced_release h a)

/-- All instances that are given back are counted. -/
theorem given_releaseAll (p : Pool α) (as : List α) :
    (p.releaseAll as).1.statistics.released + (p.releaseAll as).1.statistics.discarded =
      p.statistics.released + p.statistics.discarded + as.length := by
  induction as generalizing p with
  | nil => rfl
  | cons a as ih =>
    refine (ih (p.release a).2.1).trans ?_
    rcases p.release_cases a with ⟨-, -, -, hs, -⟩ | ⟨-, -, -, hs, -⟩ <;>
      rw [hs, List.length_cons] <;> dsimp only <;> omega

theorem capacity_acquire (p : Pool α) :
    p.acquire.2.1.statistics.capacity = p.statistics.capacity := by
  rcases p.acquire_cases with ⟨_, _, -, -, -, hs, -⟩ | ⟨-, -, -, hs, -⟩ <;> rw [hs]

theorem capacity_release (p : Pool α) (a : α) :
    (p.release a).2.1.statistics.capacity = p.statistics.capacity := by
  rcases p.release_cases a with ⟨-, -, -, hs, -⟩ | ⟨-, -, -, hs, -⟩ <;> rw [hs]

theorem capacity_releaseAll (p : Pool α) (as : List α) :
    (p.releaseAll as).1.statistics.capacity = p.statistics.capacity := by
  induction as generalizing p with
  | nil => rfl
  | cons a as ih => exact (ih (p.release a).2.1).trans (capacity_release p a)

theorem names_releaseAll (p : Pool α) (as : List α) : (p.releaseAll as).1.names = p.names := by
  induction as generalizing p with
  | nil => rfl
  | cons a as ih => exact (ih (p.release a).2.1).trans (names_release p a)

/-- What is given back fills a pool up to its capacity. -/
theorem free_releaseAll (h : p.statistics.free ≤ p.statistics.capacity) (as : List α) :
    (p.releaseAll as).1.statistics.free =
      min p.statistics.capacity (p.statistics.free + as.length) := by
  induction as generalizing p with
  | nil => exact (Nat.min_eq_right h).symm
  | cons a as ih =>
    have hfree : (p.release a).2.1.statistics.free =
        min p.statistics.capacity (p.statistics.free + 1) := by
      rcases p.release_cases a with ⟨hroom, -, -, hs, -⟩ | ⟨hfull, -, -, hs, -⟩ <;> rw [hs] <;>
        dsimp only <;> omega
    have hcapacity := capacity_release p a
    refine (ih (p := (p.release a).2.1) (by omega)).trans ?_
    rw [hfree, hcapacity, List.length_cons]
    omega

theorem created_release (p : Pool α) (a : α) :
    (p.release a).2.1.statistics.created = p.statistics.created := by
  rcases p.release_cases a with ⟨-, -, -, hs, -⟩ | ⟨-, -, -, hs, -⟩ <;> rw [hs]

theorem created_releaseAll (p : Pool α) (as : List α) :
    (p.releaseAll as).1.statistics.created = p.statistics.created := by
  induction as generalizing p with
  | nil => rfl
  | cons a as ih => exact (ih (p.release a).2.1).trans (created_release p a)

theorem reused_release (p : Pool α) (a : α) :
    (p.release a).2.1.statistics.reused = p.statistics.reused := by
  rcases p.release_cases a with ⟨-, -, -, hs, -⟩ | ⟨-, -, -, hs, -⟩ <;> rw [hs]

theorem reused_releaseAll (p : Pool α) (as : List α) :
    (p.releaseAll as).1.statistics.reused = p.statistics.reused := by
  induction as generalizing p with
  | nil => rfl
  | cons a as ih => exact (ih (p.release a).2.1).trans (reused_release p a)

/-- What was reported is what the counters say. -/
def Told (rs : List Report) (p : Pool α) : Prop :=
  ∀ metric, Report.total metric rs = p.statistics.told p.names metric

/-- A counter that goes up under a name, seen from any metric. -/
theorem ite_succ (c : Prop) [Decidable c] (n : Nat) :
    (if c then n + 1 else 0) = (if c then n else 0) + if c then 1 else 0 := by
  split <;> rfl

theorem told_acquire (h : Told rs p) : Told (rs ++ p.acquire.2.2) p.acquire.2.1 := by
  intro metric
  rw [Report.total_append, h metric, names_acquire]
  rcases p.acquire_cases with ⟨a, rest, -, -, -, hs, hrs⟩ | ⟨-, -, -, hs, hrs⟩ <;>
    rw [hs, hrs, Report.total_tick, Report.total_nil, Statistics.told, Statistics.told] <;>
    dsimp only
  · rw [ite_succ (p.names.reused = metric) p.statistics.reused]
    omega
  · rw [ite_succ (p.names.created = metric) p.statistics.created]
    omega

theorem told_release (h : Told rs p) (a : α) :
    Told (rs ++ (p.release a).2.2) (p.release a).2.1 := by
  intro metric
  rw [Report.total_append, h metric, names_release]
  rcases p.release_cases a with ⟨-, -, -, hs, hrs⟩ | ⟨-, -, -, hs, hrs⟩ <;>
    rw [hs, hrs, Report.total_tick, Report.total_nil, Statistics.told, Statistics.told] <;>
    dsimp only
  · rw [ite_succ (p.names.released = metric) p.statistics.released]
    omega
  · rw [ite_succ (p.names.discarded = metric) p.statistics.discarded]
    omega

theorem told_releaseAll (h : Told rs p) (as : List α) :
    Told (rs ++ (p.releaseAll as).2) (p.releaseAll as).1 := by
  induction as generalizing p rs with
  | nil => rwa [releaseAll, List.append_nil]
  | cons a as ih =>
    have hall := ih (told_release h a)
    rwa [List.append_assoc] at hall

/-- What a pool says of one of its own metrics. -/
theorem told_named {s : Statistics} {names : Names} (h : names.all.Nodup) :
    s.told names names.created = s.created ∧ s.told names names.reused = s.reused ∧
      s.told names names.released = s.released ∧ s.told names names.discarded = s.discarded := by
  obtain ⟨created, reused, released, discarded⟩ := names
  simp only [Names.all, List.nodup_cons, List.mem_cons, List.not_mem_nil, or_false, not_or] at h
  obtain ⟨⟨h1, h2, h3⟩, ⟨h4, h5⟩, h6, -⟩ := h
  simp [Statistics.told, h1, h2, h3, h4, h5, h6, Ne.symm h1, Ne.symm h2, Ne.symm h3, Ne.symm h4,
    Ne.symm h5, Ne.symm h6]

end Changes

/-- What is done with a pool. Trees are given back to a pool of nodes only. -/
inductive Use : Type → Type 1
  | acquire {α : Type} : Use α
  | acquireWith {α : Type} (init : α → α) : Use α
  | release {α : Type} (a : α) : Use α
  | recycle (n : Node) : Use Node
  | clear {α : Type} : Use α

variable {α : Type} [Reusable α]

namespace Use

def acquires : Use α → Bool
  | .acquire | .acquireWith _ => true
  | .release _ | .recycle _ | .clear => false

def isClear : Use α → Bool
  | .clear => true
  | .acquire | .acquireWith _ | .release _ | .recycle _ => false

/-- The instances that are given back: for a tree all elements in it. -/
def given : Use α → Nat
  | .release _ => 1
  | .recycle n => n.toChild.count
  | .acquire | .acquireWith _ | .clear => 0

end Use

/-- Takes an instance and initializes it. -/
def acquireWith (p : Pool α) (init : α → α) : α × Pool α × List Report :=
  let (a, p, rs) := p.acquire
  (init a, p, rs)

def perform : {α : Type} → [Reusable α] → Pool α → Use α → Pool α × List Report
  | _, _, p, .acquire => p.acquire.2
  | _, _, p, .acquireWith init => (p.acquireWith init).2
  | _, _, p, .release a => (p.release a).2
  | _, _, p, .recycle n => p.recycle n
  | _, _, p, .clear => (p.clear, [])

/-- A pool with what was done with it, the newest first, and what was reported, the oldest first. -/
structure Worked (α : Type) where
  pool : Pool α
  past : List (Use α) := []
  reports : List Report := []

namespace Worked

def use (w : Worked α) (u : Use α) : Worked α :=
  let (pool, rs) := w.pool.perform u
  ⟨pool, u :: w.past, w.reports ++ rs⟩

/-- A new pool after some uses. -/
def run (capacity : Nat) (names : Names) (uses : List (Use α)) : Worked α :=
  uses.foldl use { pool := { capacity, names } }

/-- What was done since the pool was made or cleared. -/
def sinceClear (w : Worked α) : List (Use α) := w.past.takeWhile fun u => !u.isClear

/-- Whether the pool was never cleared. -/
def uncleared (w : Worked α) : Bool := w.past.all fun u => !u.isClear

end Worked

section Trees

variable {p : Pool Node} {handed given : Nat} {rs : List Report}

theorem balanced_recycle (h : p.statistics.Balanced handed given) (n : Node) :
    (p.recycle n).1.statistics.Balanced handed (given + n.toChild.count) := by
  have hall := balanced_releaseAll h (n.toChild.dismantled.map bare)
  rwa [List.length_map, Child.length_dismantled, ← recycle_eq] at hall

/-- Of trees that are given back every element is counted. -/
theorem given_recycleAll (p : Pool Node) (cs : List Child) :
    (p.recycleAll cs).1.statistics.released + (p.recycleAll cs).1.statistics.discarded =
      p.statistics.released + p.statistics.discarded + Child.countAll cs := by
  rw [recycleAll_eq, given_releaseAll, List.length_map, Child.length_dismantledAll]

theorem told_recycle (h : Told rs p) (n : Node) :
    Told (rs ++ (p.recycle n).2) (p.recycle n).1 := by
  rw [recycle_eq]
  exact told_releaseAll h _

theorem capacity_recycle (p : Pool Node) (n : Node) :
    (p.recycle n).1.statistics.capacity = p.statistics.capacity := by
  rw [recycle_eq]
  exact capacity_releaseAll p _

theorem created_recycle (p : Pool Node) (n : Node) :
    (p.recycle n).1.statistics.created = p.statistics.created := by
  rw [recycle_eq]
  exact created_releaseAll p _

theorem names_recycle (p : Pool Node) (n : Node) : (p.recycle n).1.names = p.names := by
  rw [recycle_eq]
  exact names_releaseAll p _

theorem free_recycle (h : p.statistics.free ≤ p.statistics.capacity) (n : Node) :
    (p.recycle n).1.statistics.free =
      min p.statistics.capacity (p.statistics.free + n.toChild.count) := by
  rw [recycle_eq, free_releaseAll h, List.length_map, Child.length_dismantled]

end Trees

section Uses

variable {p : Pool α} {handed given : Nat} {rs : List Report}

theorem balanced_perform (h : p.statistics.Balanced handed given) {u : Use α}
    (hu : u.isClear = false) : (p.perform u).1.statistics.Balanced
      (handed + if u.acquires then 1 else 0) (given + u.given) := by
  cases u with
  | acquire | acquireWith init => exact balanced_acquire h
  | release a => exact balanced_release h a
  | recycle n => exact balanced_recycle h n
  | clear => cases hu

theorem told_perform (h : Told rs p) {u : Use α} (hu : u.isClear = false) :
    Told (rs ++ (p.perform u).2) (p.perform u).1 := by
  cases u with
  | acquire | acquireWith init => exact told_acquire h
  | release a => exact told_release h a
  | recycle n => exact told_recycle h n
  | clear => cases hu

theorem capacity_perform (p : Pool α) (u : Use α) :
    (p.perform u).1.statistics.capacity = p.statistics.capacity := by
  cases u with
  | acquire | acquireWith init => exact capacity_acquire p
  | release a => exact capacity_release p a
  | recycle n => exact capacity_recycle p n
  | clear => rfl

/-- An instance is made only by an acquisition, and only where none is free. -/
theorem acquires_of_created_lt (p : Pool α) (u : Use α)
    (h : p.statistics.created < (p.perform u).1.statistics.created) :
    u.acquires = true ∧ p.free = [] := by
  cases u with
  | acquire | acquireWith init =>
    refine ⟨rfl, ?_⟩
    rcases p.acquire_cases with ⟨a, rest, -, -, -, hs, -⟩ | ⟨hfree, -, -, -, -⟩
    · have hcreated : p.acquire.2.1.statistics.created = p.statistics.created := by rw [hs]
      exact (Nat.ne_of_gt h hcreated).elim
    · exact hfree
  | release a => exact (Nat.ne_of_gt h (created_release p a)).elim
  | recycle n => exact (Nat.ne_of_gt h (created_recycle p n)).elim
  | clear => exact (Nat.not_lt_zero _ h).elim

theorem names_perform (p : Pool α) (u : Use α) : (p.perform u).1.names = p.names := by
  cases u with
  | acquire | acquireWith init => exact names_acquire p
  | release a => exact names_release p a
  | recycle n => exact names_recycle p n
  | clear => rfl

/-- The pool agrees with what was done with it. -/
structure Worked.Kept (capacity : Nat) (names : Names) (w : Worked α) : Prop where
  balanced : w.pool.statistics.Balanced (w.sinceClear.countP Use.acquires)
    (w.sinceClear.map Use.given).sum
  told : w.uncleared = true → Told w.reports w.pool
  capacity_eq : w.pool.statistics.capacity = capacity
  names_eq : w.pool.names = names

theorem Worked.Kept.use {capacity : Nat} {names : Names} {w : Worked α}
    (h : w.Kept capacity names) (u : Use α) : (w.use u).Kept capacity names where
  balanced := by
    rw [Worked.sinceClear, Worked.use, List.takeWhile_cons]
    cases hu : u.isClear with
    | false =>
      have hnext := balanced_perform h.balanced hu
      rw [Nat.add_comm _ u.given] at hnext
      simpa [Worked.sinceClear, List.countP_cons, List.sum_cons] using hnext
    | true =>
      cases u with
      | clear => exact ⟨Nat.zero_le _, rfl, rfl, rfl⟩
      | acquire | acquireWith | release | recycle => cases hu
  told hun := by
    rw [Worked.uncleared, Worked.use, List.all_cons, Bool.and_eq_true, Bool.not_eq_true'] at hun
    exact told_perform (h.told hun.2) hun.1
  capacity_eq := (capacity_perform w.pool u).trans h.capacity_eq
  names_eq := (names_perform w.pool u).trans h.names_eq

theorem Worked.kept_run (capacity : Nat) (names : Names) (uses : List (Use α)) :
    (Worked.run capacity names uses).Kept capacity names := by
  refine List.foldlRecOn uses Worked.use ?_ fun w hw u _ => hw.use u
  refine ⟨⟨Nat.zero_le _, rfl, rfl, rfl⟩, fun _ metric => ?_, rfl, rfl⟩
  simp [Report.total, Statistics.told, statistics]

end Uses

/-- The books of a pool agree with what was done with it since it was made or cleared, and until it
is cleared its metrics say what its counters say, if they have names of their own. A tree is given
back as the elements that stand in it, each once and after those below it. -/
theorem pool_balanced :
    (∀ {α : Type} [Reusable α] (capacity : Nat) (names : Names) (uses : List (Use α)),
      let w := Worked.run capacity names uses
      let us := w.sinceClear
      let now := w.pool.statistics
      (now.free = w.pool.free.length ∧ now.free ≤ now.capacity ∧ now.capacity = capacity) ∧
      now.free + now.reused = now.released ∧
      now.created + now.reused = us.countP Use.acquires ∧
      now.released + now.discarded = (us.map Use.given).sum ∧
      (∀ a, (w.pool.release a).2.1.free =
        if (w.pool.release a).1 then Reusable.reset a :: w.pool.free else w.pool.free) ∧
      (∀ u, now.created < (w.use u).pool.statistics.created →
        u.acquires = true ∧ w.pool.free = []) ∧
      (w.uncleared = true → names.all.Nodup → ∀ metric n,
        (metric, n) ∈ [(names.created, now.created), (names.reused, now.reused),
          (names.released, now.released), (names.discarded, now.discarded)] →
        Report.total metric w.reports = n ∧
          (({ sink := .counting } : Meter).takeAll w.reports).counters.count metric =
            n % UInt64.size)) ∧
    ∀ (capacity : Nat) (names : Names) (uses : List (Use Node)) (n : Node),
      let p := (Worked.run capacity names uses).pool
      let before := p.statistics
      let after := (p.recycle n).1.statistics
      let order := n.toChild.dismantled
      p.recycle n = p.releaseAll (order.map bare) ∧
      (∀ path e, (path, e) ∈ order ↔
        ∃ children, n.toChild.at? path = some (.element e children)) ∧
      ((order.map Prod.fst).Nodup ∧ (order.map Prod.fst).Pairwise fun x y => ¬ x <+: y) ∧
      order.length = n.toChild.count ∧
      after.released + after.discarded =
        before.released + before.discarded + n.toChild.count ∧
      after.free = min capacity (before.free + n.toChild.count) := by
  constructor
  · intro α _ capacity names uses w us now
    have h := Worked.kept_run capacity names uses
    refine ⟨⟨w.pool.size_eq, h.balanced.free_le, h.capacity_eq⟩, h.balanced.kept,
      h.balanced.handed_eq, h.balanced.given_eq, w.pool.free_release,
      w.pool.acquires_of_created_lt, fun hun hnames metric n hn => ?_⟩
    have htotal : Report.total metric w.reports = n := by
      obtain ⟨hcreated, hreused, hreleased, hdiscarded⟩ := told_named (s := now) hnames
      rw [h.told hun, h.names_eq]
      simp only [List.mem_cons, Prod.mk.injEq, List.not_mem_nil, or_false] at hn
      rcases hn with ⟨rfl, rfl⟩ | ⟨rfl, rfl⟩ | ⟨rfl, rfl⟩ | ⟨rfl, rfl⟩
      · exact hcreated
      · exact hreused
      · exact hreleased
      · exact hdiscarded
    exact ⟨htotal, by rw [Meter.count_new, htotal]⟩
  · intro capacity names uses n p before after order
    have h := Worked.kept_run capacity names uses
    have hpairwise := Child.pairwise_dismantled n.toChild
    refine ⟨p.recycle_eq n, Child.mem_dismantled n.toChild, ⟨?_, hpairwise⟩,
      n.toChild.length_dismantled, ?_, ?_⟩
    · refine hpairwise.imp fun {x y} hxy (heq : x = y) => hxy ?_
      exact heq ▸ List.prefix_rfl
    · have hgiven := (balanced_recycle h.balanced n).given_eq
      rw [h.balanced.given_eq]
      exact hgiven
    · have hfree := free_recycle h.balanced.free_le n
      rwa [h.capacity_eq] at hfree

/-- A pool of two is full before all three elements of a tree have gone back. -/
theorem pool_balanced_of_overflow :
    let tree : Node := { children := [.element {} [.text "a"], .element {} []] }
    let w := Worked.run 2 nodeNames [.acquire, .recycle tree]
    w.pool.statistics = ⟨2, 2, 1, 0, 2, 1⟩ ∧ tree.toChild.dismantled.map Prod.fst = [[0], [1], []] ∧
      nodeNames.all.Nodup ∧
      Report.total nodeNames.discarded w.reports = w.pool.statistics.discarded := by
  refine ⟨rfl, rfl, by decide, ?_⟩
  exact ((pool_balanced.1 2 nodeNames _).2.2.2.2.2.2 rfl (by decide) _ _ (by simp)).1

end Folio.Pool
