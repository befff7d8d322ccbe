/-!
Maps that remember the order in which their keys first came. Main statements: which value a key has
after each operation, and that no key is ever listed twice.
-/
namespace Folio

universe u v

variable {α : Type u} {β : Type v} [DecidableEq α]

namespace Entries

/-- The value listed under a key. -/
def get? (k : α) : List (α × β) → Option β
  | [] => none
  | (k', v) :: es => if k' = k then some v else get? k es

/-- Puts a value under a key: in place if the key is listed, else at the end. -/
def put (k : α) (v : β) : List (α × β) → List (α × β)
  | [] => [(k, v)]
  | (k', v') :: es => if k' = k then (k, v) :: es else (k', v') :: put k v es

/-- Drops the entry of a key and keeps the order of the others. -/
def erase (k : α) : List (α × β) → List (α × β)
  | [] => []
  | (k', v) :: es => if k' = k then es else (k', v) :: erase k es

/-- The position of a key. -/
def index? (k : α) : List (α × β) → Option Nat
  | [] => none
  | (k', _) :: es => if k' = k then some 0 else (index? k es).map (· + 1)

theorem mem_keys_put (k k' : α) (v : β) (es : List (α × β)) :
    k' ∈ (put k v es).map Prod.fst ↔ k' = k ∨ k' ∈ es.map Prod.fst := by
  induction es with
  | nil => simp [put]
  | cons e es ih =>
    obtain ⟨k₁, v₁⟩ := e
    simp only [put]
    split
    · next h => subst h; simp
    · simp only [List.map_cons, List.mem_cons, ih]
      constructor
      · rintro (h | h | h) <;> simp [h]
      · rintro (h | h | h) <;> simp [h]

theorem nodup_put (k : α) (v : β) {es : List (α × β)} (h : (es.map Prod.fst).Nodup) :
    ((put k v es).map Prod.fst).Nodup := by
  induction es with
  | nil => simp [put]
  | cons e es ih =>
    obtain ⟨k₁, v₁⟩ := e
    simp only [List.map_cons, List.nodup_cons] at h
    simp only [put]
    split
    · next hk => subst hk; simpa using h
    · next hk =>
      simp only [List.map_cons, List.nodup_cons, mem_keys_put]
      exact ⟨by rintro (h' | h') <;> simp_all, ih h.2⟩

theorem put_of_not_mem {k : α} {es : List (α × β)} (h : k ∉ es.map Prod.fst) (v : β) :
    put k v es = es ++ [(k, v)] := by
  induction es with
  | nil => rfl
  | cons e es ih =>
    obtain ⟨k₁, v₁⟩ := e
    simp only [List.map_cons, List.mem_cons, not_or] at h
    simp [put, Ne.symm h.1, ih h.2]

theorem put_eq_set {k : α} {i : Nat} {es : List (α × β)} (hi : (es.map Prod.fst)[i]? = some k)
    (h : (es.map Prod.fst).Nodup) (v : β) : put k v es = es.set i (k, v) := by
  induction es generalizing i with
  | nil => simp at hi
  | cons e es ih =>
    obtain ⟨k₁, v₁⟩ := e
    cases i with
    | zero =>
      obtain rfl : k₁ = k := by simpa using hi
      simp [put]
    | succ i =>
      simp only [List.map_cons, List.getElem?_cons_succ, List.nodup_cons] at hi h
      have hk : k₁ ≠ k := fun he => h.1 (he ▸ List.mem_of_getElem? hi)
      simp [put, hk, ih hi h.2]

theorem mem_keys_erase {k k' : α} {es : List (α × β)} (h : k' ∈ (erase k es).map Prod.fst) :
    k' ∈ es.map Prod.fst := by
  induction es with
  | nil => simp [erase] at h
  | cons e es ih =>
    obtain ⟨k₁, v₁⟩ := e
    simp only [erase] at h
    split at h
    · exact List.mem_cons_of_mem _ h
    · simp only [List.map_cons, List.mem_cons] at h ⊢
      exact h.imp id ih

theorem nodup_erase (k : α) {es : List (α × β)} (h : (es.map Prod.fst).Nodup) :
    ((erase k es).map Prod.fst).Nodup := by
  induction es with
  | nil => simp [erase]
  | cons e es ih =>
    obtain ⟨k₁, v₁⟩ := e
    simp only [List.map_cons, List.nodup_cons] at h
    simp only [erase]
    split
    · exact h.2
    · simp only [List.map_cons, List.nodup_cons]
      exact ⟨fun h' => h.1 (mem_keys_erase h'), ih h.2⟩

theorem not_mem_keys_erase (k : α) {es : List (α × β)} (h : (es.map Prod.fst).Nodup) :
    k ∉ (erase k es).map Prod.fst := by
  induction es with
  | nil => simp [erase]
  | cons e es ih =>
    obtain ⟨k₁, v₁⟩ := e
    simp only [List.map_cons, List.nodup_cons] at h
    simp only [erase]
    split
    · next hk => subst hk; exact h.1
    · next hk =>
      simp only [List.map_cons, List.mem_cons, not_or]
      exact ⟨fun he => hk he.symm, ih h.2⟩

/-- Puts an entry at a position, or at the end if the list is shorter. -/
def insertAt (position : Nat) (e : α × β) (es : List (α × β)) : List (α × β) :=
  es.take position ++ e :: es.drop position

omit [DecidableEq α] in
theorem nodup_insertAt (position : Nat) {k : α} (v : β) {es : List (α × β)}
    (hk : k ∉ es.map Prod.fst) (h : (es.map Prod.fst).Nodup) :
    ((insertAt position (k, v) es).map Prod.fst).Nodup := by
  have hp : (insertAt position (k, v) es).Perm ((k, v) :: es) := by
    unfold insertAt
    exact List.perm_middle.trans (by rw [List.take_append_drop])
  exact (hp.map Prod.fst).symm.nodup (by simpa using ⟨by simpa using hk, h⟩)

end Entries

/-- A map as the list of its entries, in the order in which the keys came. -/
structure Ordered (α : Type u) (β : Type v) [DecidableEq α] where
  entries : List (α × β)
  nodup_keys : (entries.map Prod.fst).Nodup

namespace Ordered

def empty : Ordered α β := ⟨[], List.nodup_nil⟩

instance : Inhabited (Ordered α β) := ⟨empty⟩

instance [DecidableEq β] : DecidableEq (Ordered α β) := fun m n =>
  decidable_of_iff (m.entries = n.entries)
    ⟨fun h => by cases m; cases n; simp_all, fun h => h ▸ rfl⟩

variable (m : Ordered α β)

def isEmpty : Bool := m.entries.isEmpty

def size : Nat := m.entries.length

def keys : List α := m.entries.map Prod.fst

def values : List β := m.entries.map Prod.snd

def get? (k : α) : Option β := Entries.get? k m.entries

def contains (k : α) : Bool := (m.get? k).isSome

/-- The place of a key in the order. -/
def index? (k : α) : Option Nat := Entries.index? k m.entries

/-- Puts a value under a key. A key that is listed keeps its place. -/
def insert (k : α) (v : β) : Ordered α β :=
  ⟨Entries.put k v m.entries, Entries.nodup_put k v m.nodup_keys⟩

/-- Drops a key. -/
def erase (k : α) : Ordered α β :=
  ⟨Entries.erase k m.entries, Entries.nodup_erase k m.nodup_keys⟩

/-- The map of a list of entries, of which a later one overwrites an earlier one in place. -/
def ofList (es : List (α × β)) : Ordered α β :=
  es.foldl (fun m e => m.insert e.1 e.2) empty

theorem foldl_insert_entries (es : List (α × β)) (m : Ordered α β)
    (h : ((m.entries ++ es).map Prod.fst).Nodup) :
    (es.foldl (fun m e => m.insert e.1 e.2) m).entries = m.entries ++ es := by
  induction es generalizing m with
  | nil => simp
  | cons e es ih =>
    have hm : (m.insert e.1 e.2).entries = m.entries ++ [e] := by
      refine Entries.put_of_not_mem (fun hk => ?_) e.2
      rw [List.map_append, List.nodup_append] at h
      exact h.2.2 e.1 hk e.1 (by simp) rfl
    rw [List.foldl_cons, ih _ (by rwa [hm, List.append_assoc]), hm, List.append_assoc]
    rfl

theorem ofList_entries : ofList m.entries = m := by
  obtain ⟨es, h⟩ := m
  have he : (ofList es).entries = es := foldl_insert_entries es empty h
  generalize ofList es = n at he
  subst he
  rfl

/-- Moves a key and its value to a position; a key that is not listed is added there. -/
def place (position : Nat) (k : α) (v : β) : Ordered α β :=
  ⟨Entries.insertAt position (k, v) (m.erase k).entries,
    Entries.nodup_insertAt position v (Entries.not_mem_keys_erase k m.nodup_keys)
      (m.erase k).nodup_keys⟩

/-- Whether two maps have the same keys with values that `same` relates, in whatever order. -/
def agrees (same : β → β → Bool) (n : Ordered α β) : Bool :=
  m.size == n.size && m.entries.all fun (k, v) =>
    match n.get? k with
    | some w => same v w
    | none => false

end Ordered

end Folio
