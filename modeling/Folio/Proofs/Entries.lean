import Folio.Ordered

/-! Lookups in lists of entries after an entry was put or dropped, and keys of ordered maps. -/
namespace Folio.Entries

universe u v

variable {α : Type u} {β : Type v} [DecidableEq α] {k k' : α} {v : β} {es : List (α × β)}

theorem get?_eq_none_iff : get? k es = none ↔ k ∉ es.map Prod.fst := by
  induction es with
  | nil => simp [get?]
  | cons e es ih =>
    obtain ⟨k₁, v₁⟩ := e
    by_cases h : k₁ = k
    · simp [get?, h]
    · simp [get?, h, ih, Ne.symm h]

/-- A key has a place if and only if it has a value. -/
theorem isSome_index? (k : α) (es : List (α × β)) :
    (index? k es).isSome = (get? k es).isSome := by
  induction es with
  | nil => rfl
  | cons e es ih =>
    obtain ⟨k₁, v₁⟩ := e
    by_cases h : k₁ = k
    · simp [index?, get?, h]
    · simp [index?, get?, h, ih]

theorem mem_of_get? (h : get? k es = some v) : (k, v) ∈ es := by
  induction es with
  | nil => cases h
  | cons e es ih =>
    obtain ⟨k₁, v₁⟩ := e
    simp only [get?] at h
    split at h
    · next hk =>
      obtain rfl := Option.some.inj h
      exact hk ▸ List.mem_cons_self
    · exact List.mem_cons_of_mem _ (ih h)

/-- Distinct keys are needed: a lookup stops at the first entry of a key. -/
theorem get?_of_mem (h : (es.map Prod.fst).Nodup) (hmem : (k, v) ∈ es) : get? k es = some v := by
  induction es with
  | nil => cases hmem
  | cons e es ih =>
    rw [List.map_cons, List.nodup_cons] at h
    rcases List.mem_cons.1 hmem with rfl | hmem
    · simp [get?]
    · have hne : e.1 ≠ k := fun he => h.1 (he ▸ List.mem_map_of_mem hmem)
      rw [get?, if_neg hne, ih h.2 hmem]

theorem erase_eq_eraseP (k : α) (es : List (α × β)) :
    erase k es = es.eraseP fun e => e.1 = k := by
  induction es with
  | nil => rfl
  | cons e es ih =>
    obtain ⟨k₁, v₁⟩ := e
    by_cases h : k₁ = k
    · simp [erase, h]
    · simp [erase, h, ih]

theorem keys_erase (k : α) (es : List (α × β)) :
    (erase k es).map Prod.fst = (es.map Prod.fst).erase k := by
  induction es with
  | nil => rfl
  | cons e es ih =>
    obtain ⟨k₁, v₁⟩ := e
    by_cases h : k₁ = k
    · simp [erase, h]
    · simp [erase, h, ih]

theorem erase_of_not_mem (h : k ∉ es.map Prod.fst) : erase k es = es := by
  rw [erase_eq_eraseP]
  refine List.eraseP_of_forall_not fun e he heq => h ?_
  rw [← of_decide_eq_true heq]
  exact List.mem_map_of_mem he

theorem erase_sublist (k : α) (es : List (α × β)) : (erase k es).Sublist es := by
  rw [erase_eq_eraseP]
  exact List.eraseP_sublist

theorem erase_sublist_erase (k : α) {fs : List (α × β)} (h : es.Sublist fs) :
    (erase k es).Sublist (erase k fs) := by
  rw [erase_eq_eraseP, erase_eq_eraseP]
  exact h.eraseP

theorem erase_subset (k : α) (es : List (α × β)) : erase k es ⊆ es := (erase_sublist k es).subset

theorem get?_put_self (k : α) (v : β) (es : List (α × β)) : get? k (put k v es) = some v := by
  induction es with
  | nil => simp [put, get?]
  | cons e es ih =>
    obtain ⟨k₁, v₁⟩ := e
    by_cases h : k₁ = k
    · simp [put, get?, h]
    · simp [put, get?, h, ih]

/-- An entry that is listed already changes nothing. -/
theorem put_of_get? (h : get? k es = some v) : put k v es = es := by
  induction es with
  | nil => cases h
  | cons e es ih =>
    obtain ⟨k₁, v₁⟩ := e
    by_cases hk : k₁ = k
    · subst hk
      obtain rfl : v₁ = v := by simpa [get?] using h
      simp [put]
    · simp only [get?, hk, if_false] at h
      simp [put, hk, ih h]

theorem get?_put_of_ne (h : k' ≠ k) (v : β) (es : List (α × β)) :
    get? k' (put k v es) = get? k' es := by
  induction es with
  | nil => simp [put, get?, h.symm]
  | cons e es ih =>
    obtain ⟨k₁, v₁⟩ := e
    by_cases hk : k₁ = k
    · subst hk
      simp [put, get?, h.symm]
    · by_cases hk' : k₁ = k'
      · subst hk'
        simp [put, get?, h]
      · simp [put, get?, hk, hk', ih]

theorem forall_mem_put {P : α × β → Prop} (hes : ∀ e ∈ es, P e) (hnew : P (k, v)) :
    ∀ e ∈ put k v es, P e := by
  induction es with
  | nil => simpa [put] using hnew
  | cons e es ih =>
    obtain ⟨k₁, v₁⟩ := e
    rw [List.forall_mem_cons] at hes
    by_cases h : k₁ = k
    · simpa [put, h] using And.intro hnew hes.2
    · simpa only [put, if_neg h, List.forall_mem_cons] using And.intro hes.1 (ih hes.2)

/-- Distinct keys are needed: only the first entry of a key is dropped. -/
theorem get?_erase_self (h : (es.map Prod.fst).Nodup) : get? k (erase k es) = none :=
  get?_eq_none_iff.2 (not_mem_keys_erase k h)

theorem get?_erase_of_ne (h : k' ≠ k) (es : List (α × β)) :
    get? k' (erase k es) = get? k' es := by
  induction es with
  | nil => rfl
  | cons e es ih =>
    obtain ⟨k₁, v₁⟩ := e
    by_cases hk : k₁ = k
    · subst hk
      simp [erase, get?, h.symm]
    · by_cases hk' : k₁ = k'
      · subst hk'
        simp [erase, get?, h]
      · simp [erase, get?, hk, hk', ih]

theorem get?_append (es more : List (α × β)) :
    get? k (es ++ more) = (get? k es).or (get? k more) := by
  induction es with
  | nil => rfl
  | cons e es ih =>
    obtain ⟨k₁, v₁⟩ := e
    by_cases h : k₁ = k
    · simp [get?, h]
    · simp [get?, h, ih]

theorem get?_insertAt_self (position : Nat) (h : k ∉ es.map Prod.fst) (v : β) :
    get? k (insertAt position (k, v) es) = some v := by
  have htake : get? k (es.take position) = none :=
    get?_eq_none_iff.2 fun hk => h (List.map_subset Prod.fst (List.take_subset position es) hk)
  rw [insertAt, get?_append, htake, Option.none_or, get?, if_pos rfl]

theorem get?_insertAt_of_ne (position : Nat) (h : k' ≠ k) (v : β) (es : List (α × β)) :
    get? k' (insertAt position (k, v) es) = get? k' es := by
  rw [insertAt, get?_append, get?, if_neg h.symm, ← get?_append, List.take_append_drop]

end Folio.Entries

namespace Folio.Ordered

universe u v

variable {α : Type u} {β : Type v} [DecidableEq α] {m : Ordered α β} {k k' : α}

theorem get?_insert_self (m : Ordered α β) (k : α) (v : β) : (m.insert k v).get? k = some v :=
  Entries.get?_put_self k v m.entries

theorem get?_insert_of_ne (h : k' ≠ k) (v : β) : (m.insert k v).get? k' = m.get? k' :=
  Entries.get?_put_of_ne h v m.entries

theorem get?_erase_of_ne (h : k' ≠ k) : (m.erase k).get? k' = m.get? k' :=
  Entries.get?_erase_of_ne h m.entries

theorem get?_place_self (m : Ordered α β) (position : Nat) (k : α) (v : β) :
    (m.place position k v).get? k = some v :=
  Entries.get?_insertAt_self position (Entries.not_mem_keys_erase k m.nodup_keys) v

theorem get?_place_of_ne (h : k' ≠ k) (position : Nat) (v : β) :
    (m.place position k v).get? k' = m.get? k' :=
  (Entries.get?_insertAt_of_ne position h v _).trans (get?_erase_of_ne h)

theorem mem_keys_insert {v : β} : k' ∈ (m.insert k v).keys ↔ k' = k ∨ k' ∈ m.keys :=
  Entries.mem_keys_put k k' v m.entries

theorem forall_mem_keys_insert (v : β) {P : α → Prop} (hk : P k) (hm : ∀ k' ∈ m.keys, P k') :
    ∀ k' ∈ (m.insert k v).keys, P k' := by
  intro k' hmem
  rcases mem_keys_insert.1 hmem with rfl | hmem
  · exact hk
  · exact hm k' hmem

/-- Lists of entries give no entries but their own. -/
theorem forall_mem_ofList {es : List (α × β)} {P : α × β → Prop} (h : ∀ e ∈ es, P e) :
    ∀ e ∈ (ofList es).entries, P e := by
  refine List.foldlRecOn (motive := fun m : Ordered α β => ∀ e ∈ m.entries, P e) es _ nofun ?_
  intro m hm e he
  exact Entries.forall_mem_put hm (h e he)

theorem mem_keys_ofList {es : List (α × β)} (h : k ∈ (ofList es).keys) : k ∈ es.map Prod.fst := by
  obtain ⟨e, he, rfl⟩ := List.mem_map.1 h
  exact forall_mem_ofList (fun _ => List.mem_map_of_mem) e he

theorem mem_of_get?_ofList {es : List (α × β)} {v : β} (h : (ofList es).get? k = some v) :
    (k, v) ∈ es := forall_mem_ofList (fun _ => id) _ (Entries.mem_of_get? h)

end Folio.Ordered
