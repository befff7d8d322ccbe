import Folio.Pool.Recycling
import Folio.Proofs.Pool.Reached

/-!
The order in which a tree goes back to a pool. Elements are told apart by their addresses, the ways
down from the root. Each is given back once, and after all that are below it.
-/
namespace Folio

namespace Child

mutual

/-- The elements of a tree with their addresses, in the order in which they are given back. -/
def dismantled : Child → List (List Nat × Element)
  | .text _ | .markup _ => []
  | .element e children => dismantledAll 0 children ++ [([], e)]

/-- The same for children, of which the first has the given number. -/
def dismantledAll (i : Nat) : List Child → List (List Nat × Element)
  | [] => []
  | c :: cs => c.dismantled.map (fun x => (i :: x.1, x.2)) ++ dismantledAll (i + 1) cs

end

mutual

/-- The number of elements in a tree, those below void elements included. -/
def count : Child → Nat
  | .text _ | .markup _ => 0
  | .element _ children => countAll children + 1

def countAll : List Child → Nat
  | [] => 0
  | c :: cs => c.count + countAll cs

end

mutual

/-- What stands at an address. -/
def at? : Child → List Nat → Option Child
  | c, [] => some c
  | .element _ children, i :: path => atAll? children i path
  | .text _, _ :: _ | .markup _, _ :: _ => none

/-- What stands at an address below one of several children. -/
def atAll? : List Child → Nat → List Nat → Option Child
  | [], _, _ => none
  | c :: _, 0, path => c.at? path
  | _ :: cs, i + 1, path => atAll? cs i path

end

mutual

/-- What is given back is what stands anywhere in the tree. -/
theorem mem_dismantled (c : Child) (path : List Nat) (e : Element) :
    (path, e) ∈ c.dismantled ↔ ∃ children, c.at? path = some (.element e children) := by
  match c, path with
  | .text _, [] | .markup _, [] | .text _, _ :: _ | .markup _, _ :: _ => simp [dismantled, at?]
  | .element root children, [] =>
    rw [dismantled, List.mem_append, mem_dismantledAll 0 children, List.mem_singleton, at?]
    constructor
    · rintro (⟨_, _, hpath, -⟩ | heq)
      · cases hpath
      · obtain ⟨-, rfl⟩ := Prod.mk.inj heq
        exact ⟨children, rfl⟩
    · rintro ⟨_, heq⟩
      obtain ⟨rfl, -⟩ := Child.element.inj (Option.some.inj heq)
      exact .inr rfl
  | .element root children, i :: path =>
    rw [dismantled, List.mem_append, mem_dismantledAll 0 children, List.mem_singleton, at?]
    constructor
    · rintro (⟨j, rest, hpath, h⟩ | heq)
      · obtain ⟨rfl, rfl⟩ := List.cons.inj hpath
        rwa [Nat.zero_add]
      · cases (Prod.mk.inj heq).1
    · intro h
      exact .inl ⟨i, path, by rw [Nat.zero_add], h⟩

theorem mem_dismantledAll (i : Nat) (cs : List Child) (path : List Nat) (e : Element) :
    (path, e) ∈ dismantledAll i cs ↔ ∃ j rest, path = (i + j) :: rest ∧
      ∃ children, atAll? cs j rest = some (.element e children) := by
  match cs with
  | [] => simp [dismantledAll, atAll?]
  | c :: cs =>
    rw [dismantledAll, List.mem_append, mem_dismantledAll (i + 1) cs, List.mem_map]
    constructor
    · rintro (⟨⟨rest, _⟩, hmem, heq⟩ | ⟨j, rest, rfl, h⟩)
      · obtain ⟨rfl, rfl⟩ := Prod.mk.inj heq
        exact ⟨0, rest, rfl, (mem_dismantled c rest _).1 hmem⟩
      · exact ⟨j + 1, rest, by rw [Nat.add_right_comm, Nat.add_assoc], h⟩
    · rintro ⟨j, rest, rfl, h⟩
      cases j with
      | zero => exact .inl ⟨(rest, e), (mem_dismantled c rest e).2 h, rfl⟩
      | succ j => exact .inr ⟨j, rest, by rw [Nat.add_right_comm, Nat.add_assoc], h⟩

end

mutual

theorem length_dismantled (c : Child) : c.dismantled.length = c.count := by
  match c with
  | .text _ | .markup _ => rfl
  | .element e children =>
    rw [dismantled, List.length_append, length_dismantledAll 0 children]
    rfl

theorem length_dismantledAll (i : Nat) (cs : List Child) :
    (dismantledAll i cs).length = countAll cs := by
  match cs with
  | [] => rfl
  | c :: cs =>
    rw [dismantledAll, List.length_append, List.length_map, length_dismantled c,
      length_dismantledAll (i + 1) cs, countAll]

end

/-- The addresses below later children are no prefixes of those below an earlier one. -/
theorem not_prefix_dismantledAll {i j : Nat} {cs : List Child} {x y : List Nat} (hij : i < j)
    (hy : y ∈ (dismantledAll j cs).map Prod.fst) : ¬ (i :: x) <+: y := by
  obtain ⟨⟨path, e⟩, hmem, rfl⟩ := List.mem_map.1 hy
  obtain ⟨k, rest, rfl, -⟩ := (mem_dismantledAll j cs path e).1 hmem
  intro hprefix
  have heq : i = j + k := (List.cons_prefix_cons.1 hprefix).1
  omega

mutual

/-- Nothing is given back before what is below it. -/
theorem pairwise_dismantled (c : Child) :
    (c.dismantled.map Prod.fst).Pairwise fun x y => ¬ x <+: y := by
  match c with
  | .text _ | .markup _ => exact .nil
  | .element root children =>
    rw [dismantled, List.map_append, List.pairwise_append]
    refine ⟨pairwise_dismantledAll 0 children, List.pairwise_singleton .., ?_⟩
    intro x hx y hy hprefix
    obtain ⟨⟨path, e⟩, hmem, rfl⟩ := List.mem_map.1 hx
    obtain ⟨j, rest, rfl, -⟩ := (mem_dismantledAll 0 children path e).1 hmem
    rw [List.map_singleton, List.mem_singleton] at hy
    rw [hy, List.prefix_nil] at hprefix
    cases hprefix

theorem pairwise_dismantledAll (i : Nat) (cs : List Child) :
    ((dismantledAll i cs).map Prod.fst).Pairwise fun x y => ¬ x <+: y := by
  match cs with
  | [] => exact .nil
  | c :: cs =>
    have hmap : (c.dismantled.map fun x => (i :: x.1, x.2)).map Prod.fst =
        (c.dismantled.map Prod.fst).map (i :: ·) := by simp only [List.map_map, Function.comp_def]
    rw [dismantledAll, List.map_append, List.pairwise_append, hmap, List.pairwise_map]
    refine ⟨?_, pairwise_dismantledAll (i + 1) cs, ?_⟩
    · refine (pairwise_dismantled c).imp fun hxy hprefix => hxy ?_
      exact (List.cons_prefix_cons.1 hprefix).2
    · intro x hx y hy
      obtain ⟨x, -, rfl⟩ := List.mem_map.1 hx
      exact not_prefix_dismantledAll (Nat.lt_succ_self i) hy

end

end Child

namespace Pool

universe u

variable {α : Type u} [Reusable α]

/-- Takes instances back one after another. -/
def releaseAll (p : Pool α) : List α → Pool α × List Report
  | [] => (p, [])
  | a :: as =>
    let (_, p, rs) := p.release a
    let (p, more) := releaseAll p as
    (p, rs ++ more)

theorem releaseAll_append (p : Pool α) (as bs : List α) : p.releaseAll (as ++ bs) =
    (((p.releaseAll as).1.releaseAll bs).1,
      (p.releaseAll as).2 ++ ((p.releaseAll as).1.releaseAll bs).2) := by
  induction as generalizing p with
  | nil => rfl
  | cons a as ih => simp only [List.cons_append, releaseAll, ih, List.append_assoc]

theorem Reached.releaseAll {p : Pool α} (h : p.Reached) (as : List α) :
    (p.releaseAll as).1.Reached := by
  induction as generalizing p with
  | nil => exact h
  | cons a as ih => exact ih (h.release a)

/-- An element as it is given back, without what was below it. -/
def bare (x : List Nat × Element) : Node := { toElement := x.2 }

/-- A pool after some instances were given back, on top of what was reported before. -/
def Return.after (r : Return) (ns : List Node) : Return :=
  ⟨(r.pool.releaseAll ns).1, (r.pool.releaseAll ns).2.reverseAux r.reports⟩

theorem Return.after_append (r : Return) (ns ms : List Node) :
    r.after (ns ++ ms) = (r.after ns).after ms := by
  simp only [Return.after, releaseAll_append, List.reverseAux_eq, List.reverse_append,
    List.append_assoc]

mutual

theorem recycleChild_eq (r : Return) (c : Child) :
    recycleChild r c = r.after (c.dismantled.map bare) := by
  match c with
  | .text _ | .markup _ => rfl
  | .element e children =>
    rw [recycleChild, recycleChildren_eq r 0 children, Child.dismantled, List.map_append,
      Return.after_append]
    simp only [Return.take, List.map_singleton, Return.after, releaseAll, List.append_nil, bare]

theorem recycleChildren_eq (r : Return) (i : Nat) (cs : List Child) :
    recycleChildren r cs = r.after ((Child.dismantledAll i cs).map bare) := by
  match cs with
  | [] => rfl
  | c :: cs =>
    rw [recycleChildren, recycleChild_eq r c, recycleChildren_eq _ (i + 1) cs, Child.dismantledAll,
      List.map_append, Return.after_append, List.map_map]
    rfl

end

/-- To recycle trees is to release their elements in order. -/
theorem recycleAll_eq (p : Pool Node) (cs : List Child) :
    p.recycleAll cs = p.releaseAll ((Child.dismantledAll 0 cs).map bare) := by
  rw [recycleAll, recycleChildren_eq _ 0]
  simp only [Return.after, List.reverseAux_eq, List.append_nil, List.reverse_reverse]

theorem Reached.recycleAll {p : Pool Node} (h : p.Reached) (cs : List Child) :
    (p.recycleAll cs).1.Reached := by
  rw [recycleAll_eq]
  exact h.releaseAll _

theorem recycle_eq (p : Pool Node) (n : Node) :
    p.recycle n = p.releaseAll (n.toChild.dismantled.map bare) := by
  rw [recycle, recycleAll_eq, Child.dismantledAll, Child.dismantledAll, List.append_nil,
    List.map_map]
  rfl

end Pool

end Folio
