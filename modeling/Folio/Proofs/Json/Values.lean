import Folio.Json.Decode
import Folio.Proofs.Json.Parsing

/-! Values that come back as they were from the trees they are written as: those that are no deeper
than what is read, whose numbers read back, and whose objects list their members by key. -/
namespace Folio.Json

mutual

/-- How deep arrays and objects are nested. -/
def depth : Json → Nat
  | .null | .bool _ | .number _ | .string _ => 0
  | .array items => itemsDepth items + 1
  | .object members => membersDepth members + 1

def itemsDepth : List Json → Nat
  | [] => 0
  | v :: vs => max v.depth (itemsDepth vs)

def membersDepth : List (String × Json) → Nat
  | [] => 0
  | (_, v) :: ms => max v.depth (membersDepth ms)

end

theorem itemsDepth_le_iff {vs : List Json} {n : Nat} :
    itemsDepth vs ≤ n ↔ ∀ v ∈ vs, v.depth ≤ n := by
  induction vs with
  | nil => simp [itemsDepth]
  | cons v vs ih => rw [itemsDepth, Nat.max_le, ih, List.forall_mem_cons]

theorem membersDepth_le_iff {ms : List (String × Json)} {n : Nat} :
    membersDepth ms ≤ n ↔ ∀ m ∈ ms, m.2.depth ≤ n := by
  induction ms with
  | nil => simp [membersDepth]
  | cons m ms ih => rw [membersDepth, Nat.max_le, ih, List.forall_mem_cons]

/-- Members in the order of their keys, no key twice. -/
def InOrder (ms : List (String × Json)) : Prop := (ms.map Prod.fst).Pairwise (· < ·)

mutual

/-- Holds of values all of whose objects list their members in the order of their keys. -/
def Canonical : Json → Prop
  | .null | .bool _ | .number _ | .string _ => True
  | .array items => ItemsCanonical items
  | .object members => InOrder members ∧ MembersCanonical members

def ItemsCanonical : List Json → Prop
  | [] => True
  | v :: vs => v.Canonical ∧ ItemsCanonical vs

def MembersCanonical : List (String × Json) → Prop
  | [] => True
  | (_, v) :: ms => v.Canonical ∧ MembersCanonical ms

end

theorem insertMember_of_lt {k : String} {ms : List (String × Json)}
    (h : ∀ m ∈ ms, m.1 < k) (v : Json) : insertMember k v ms = ms ++ [(k, v)] := by
  induction ms with
  | nil => rfl
  | cons m ms ih =>
    rw [List.forall_mem_cons] at h
    have hne : k ≠ m.1 := by
      intro heq
      exact String.lt_irrefl k (by simpa [← heq] using h.1)
    rw [insertMember, if_neg hne, if_neg (String.lt_asymm h.1), ih h.2]
    rfl

/-- Members that are in order stay as they are. -/
theorem sorted_of_inOrder {ms : List (String × Json)} (h : InOrder ms) :
    sorted ms = .object ms := by
  have hfold : ∀ done : List (String × Json), InOrder (done ++ ms) →
      ms.foldl (fun ms m => insertMember m.1 m.2 ms) done = done ++ ms := by
    clear h
    induction ms with
    | nil => simp
    | cons m ms ih =>
      intro done h
      have hlast : ∀ e ∈ done, e.1 < m.1 := by
        intro e he
        rw [InOrder, List.map_append, List.pairwise_append] at h
        exact h.2.2 e.1 (List.mem_map_of_mem he) m.1 (by simp)
      rw [List.foldl_cons, insertMember_of_lt hlast, ih _ (by simpa using h)]
      simp
  rw [sorted, hfold [] (by simpa using h), List.nil_append]

mutual

/-- A value with the members of all its objects sorted. -/
def normal : Json → Json
  | .null => .null
  | .bool b => .bool b
  | .number n => .number n
  | .string s => .string s
  | .array items => .array (normalItems items)
  | .object members => sorted (normalMembers members)

def normalItems : List Json → List Json
  | [] => []
  | v :: vs => v.normal :: normalItems vs

def normalMembers : List (String × Json) → List (String × Json)
  | [] => []
  | (k, v) :: ms => (k, v.normal) :: normalMembers ms

end

mutual

/-- A canonical value is sorted as it is. -/
theorem normal_of_canonical {v : Json} (h : v.Canonical) : v.normal = v := by
  match v with
  | .null | .bool _ | .number _ | .string _ => rfl
  | .array items => rw [normal, normalItems_of_canonical h]
  | .object members => rw [normal, normalMembers_of_canonical h.2, sorted_of_inOrder h.1]

theorem normalItems_of_canonical {vs : List Json} (h : ItemsCanonical vs) :
    normalItems vs = vs := by
  match vs with
  | [] => rfl
  | v :: vs => rw [normalItems, normal_of_canonical h.1, normalItems_of_canonical h.2]

theorem normalMembers_of_canonical {ms : List (String × Json)} (h : MembersCanonical ms) :
    normalMembers ms = ms := by
  match ms with
  | [] => rfl
  | (k, v) :: ms => rw [normalMembers, normal_of_canonical h.1, normalMembers_of_canonical h.2]

end

namespace Tree

mutual

/-- The value of a tree that is not too deep, with the members sorted. -/
theorem value?_tree {v : Json} {d : Nat} (hv : v.ReadsBack) (hd : v.depth ≤ d) :
    v.tree.value? d = some v.normal := by
  match v with
  | .null | .bool _ | .string _ => cases d <;> rfl
  | .number n =>
    have hn : n.ReadsBack := hv
    cases d <;> simp [tree, value?, hn.value?, normal]
  | .array items =>
    cases d with
    | zero => cases hd
    | succ d =>
      have hitems := itemValues?_itemTrees hv (Nat.le_of_succ_le_succ hd)
      rw [tree, value?, hitems]
      rfl
  | .object members =>
    cases d with
    | zero => cases hd
    | succ d =>
      have hmembers := memberValues?_memberTrees hv (Nat.le_of_succ_le_succ hd)
      rw [tree, value?, hmembers]
      rfl

theorem itemValues?_itemTrees {vs : List Json} {d : Nat} (hvs : ItemsReadBack vs)
    (hd : itemsDepth vs ≤ d) : itemValues? d (itemTrees vs) = some (normalItems vs) := by
  match vs with
  | [] => rfl
  | v :: vs =>
    have hw := value?_tree hvs.1 (Nat.max_le.1 hd).1
    have hws := itemValues?_itemTrees hvs.2 (Nat.max_le.1 hd).2
    simp [itemTrees, itemValues?, normalItems, hw, hws]

theorem memberValues?_memberTrees {ms : List (String × Json)} {d : Nat}
    (hms : MembersReadBack ms) (hd : membersDepth ms ≤ d) :
    memberValues? d (memberTrees ms) = some (normalMembers ms) := by
  match ms with
  | [] => rfl
  | (k, v) :: ms =>
    have hw := value?_tree hms.1 (Nat.max_le.1 hd).1
    have hws := memberValues?_memberTrees hms.2 (Nat.max_le.1 hd).2
    simp [memberTrees, memberValues?, normalMembers, hw, hws]

end

variable {v : Json} {d : Nat}

theorem sound_tree (hv : v.ReadsBack) (hd : v.depth ≤ d) : v.tree.sound d = true := by
  rw [sound, value?_tree hv hd]
  rfl

/-- A canonical value comes back from its tree. -/
theorem value?_tree_of_canonical (hv : v.ReadsBack) (hc : v.Canonical) (hd : v.depth ≤ d) :
    v.tree.value? d = some v := by
  rw [value?_tree hv hd, normal_of_canonical hc]

end Tree

end Folio.Json
