import Folio.Proofs.Json.Values
import Folio.Snapshot.Writing

/-! Records that are written field by field, some of them left out, and how they are read: each
field is found under its name, and a field that was left out is missing. -/
namespace Folio.Json

/-- The members of a record, which are its fields that are there. -/
def present (fields : List (String × Option Json)) : List (String × Json) :=
  fields.filterMap fun f => f.2.map fun v => (f.1, v)

variable {fields : List (String × Option Json)} {name : String}

@[simp] theorem present_nil : present [] = [] := rfl

@[simp] theorem present_some (name : String) (v : Json) (fields : List (String × Option Json)) :
    present ((name, some v) :: fields) = (name, v) :: present fields := rfl

@[simp] theorem present_none (name : String) (fields : List (String × Option Json)) :
    present ((name, none) :: fields) = present fields := rfl

theorem present_append (fields more : List (String × Option Json)) :
    present (fields ++ more) = present fields ++ present more := List.filterMap_append

theorem optionalField_eq_present {α : Type} (name : String) (f : α → Json) (o : Option α) :
    optionalField name f o = present [(name, o.map f)] := by
  cases o <;> rfl

theorem listField_eq_present (name : String) (items : List Json) :
    listField name items =
      present [(name, if items.isEmpty then none else some (.array items))] := by
  unfold listField
  split <;> rfl

theorem mem_present {v : Json} : (name, v) ∈ present fields ↔ (name, some v) ∈ fields := by
  constructor
  · intro h
    obtain ⟨⟨n, o⟩, hmem, hsome⟩ := List.mem_filterMap.1 h
    obtain ⟨w, rfl, heq⟩ := Option.map_eq_some_iff.1 hsome
    obtain ⟨rfl, rfl⟩ := Prod.mk.inj heq
    exact hmem
  · intro h
    exact List.mem_filterMap.2 ⟨(name, some v), h, rfl⟩

/-- A record has no member of another name. -/
theorem filter_present_of_not_mem (h : name ∉ fields.map Prod.fst) :
    (present fields).filter (·.1 == name) = [] := by
  refine List.filter_eq_nil_iff.2 fun m hm hname => h ?_
  have hmem : m.1 ∈ fields.map Prod.fst := List.mem_map_of_mem (mem_present.1 hm)
  rwa [beq_iff_eq.1 hname] at hmem

/-- A record has at most one member of a name, the field of that name. -/
theorem filter_present (h : (fields.map Prod.fst).Nodup) {o : Option Json}
    (hmem : (name, o) ∈ fields) :
    (present fields).filter (·.1 == name) = (o.map fun v => (name, v)).toList := by
  induction fields with
  | nil => cases hmem
  | cons f fields ih =>
    obtain ⟨n, o'⟩ := f
    rw [List.map_cons, List.nodup_cons] at h
    rcases List.mem_cons.1 hmem with heq | hlater
    · obtain ⟨rfl, rfl⟩ := Prod.mk.inj heq
      have hrest := filter_present_of_not_mem h.1
      cases o with
      | none => exact hrest
      | some v => simp [hrest]
    · have hne : n ≠ name := by
        rintro rfl
        exact h.1 (List.mem_map.2 ⟨(n, o), hlater, rfl⟩)
      cases o' with
      | none => exact ih h.2 hlater
      | some v => simpa [hne] using ih h.2 hlater

theorem allSome_map {α β γ : Type} {f : β → Option γ} {g : α → β} {k : α → γ} {as : List α}
    (h : ∀ a ∈ as, f (g a) = some (k a)) : allSome f (as.map g) = some (as.map k) := by
  induction as with
  | nil => rfl
  | cons a as ih =>
    rw [List.forall_mem_cons] at h
    simp [allSome, h.1, ih h.2]

namespace Tree

/-- An object that was written from members has them. -/
theorem members?_tree (ms : List (String × Json)) :
    (Json.object ms).tree.members? = some (ms.map fun m => (m.1, m.2.tree)) := by
  rw [tree, members?, memberTrees_eq_map]
  exact allSome_map fun _ _ => rfl

/-- Each field of a record is found, and those that were left out are missing. -/
theorem record?_present (fields : List (String × Option Json))
    (h : (fields.map Prod.fst).Nodup) :
    (Json.object (present fields)).tree.record? (fields.map Prod.fst) =
      some (fields.map fun f => f.2.map tree) := by
  have hpick : ∀ sub : List (String × Option Json), sub ⊆ fields →
      pickFields ((present fields).map fun m => (m.1, m.2.tree)) (sub.map Prod.fst) =
        some (sub.map fun f => f.2.map tree) := by
    intro sub hsub
    induction sub with
    | nil => rfl
    | cons f sub ih =>
      obtain ⟨name, o⟩ := f
      obtain ⟨hmem, hsub⟩ := List.cons_subset.1 hsub
      have hfound : ((present fields).map fun m => (m.1, m.2.tree)).filter (·.1 == name) =
          (o.map fun v => (name, v.tree)).toList := by
        have hfilter := filter_present h hmem
        rw [List.filter_map]
        change ((present fields).filter (·.1 == name)).map _ = _
        rw [hfilter]
        cases o <;> rfl
      rw [List.map_cons, pickFields, hfound, ih hsub]
      cases o <;> rfl
  have hmembers := members?_tree (present fields)
  have hall := hpick fields (List.Subset.refl _)
  rw [← hall, ← Option.bind_some (f := fun ms => pickFields ms (fields.map Prod.fst)), ← hmembers]
  rfl

/-- The tag of a record that is written with one, and the rest of the record. -/
theorem tagged?_present {tag : String} {tags : List String} (fields : List (String × Option Json))
    (htag : tag ∈ tags) (hname : name ∉ fields.map Prod.fst) (numbered : Bool) :
    tagged? name tags numbered (Json.object ((name, .string tag) :: present fields)).tree =
      some (tag, (Json.object (present fields)).tree) := by
  have hother : ∀ m ∈ memberTrees (present fields), m.1 ≠ some name := by
    rw [memberTrees_eq_map]
    intro m hm heq
    obtain ⟨e, he, rfl⟩ := List.mem_map.1 hm
    obtain rfl := Option.some.inj heq
    exact hname (List.mem_map_of_mem (mem_present.1 he))
  have hnone : (memberTrees (present fields)).filter (·.1 == some name) = [] :=
    List.filter_eq_nil_iff.2 fun m hm hbeq => hother m hm (beq_iff_eq.1 hbeq)
  have hall : (memberTrees (present fields)).filter (·.1 != some name) =
      memberTrees (present fields) :=
    List.filter_eq_self.2 fun m hm => bne_iff_ne.2 (hother m hm)
  simp [tagged?, tree, memberTrees, hnone, hall, htag]

/-- A map comes back from the object it is written as, in its order. -/
theorem map?_entries {α : Type} {read : Tree → Option α} {f : α → Json} {m : Ordered String α}
    (h : ∀ e ∈ m.entries, read (f e.2).tree = some e.2) :
    map? read (Json.object (m.entries.map fun e => (e.1, f e.2))).tree = some m := by
  have hread : allSome (fun e : String × Tree => (read e.2).map fun v => (e.1, v))
      (m.entries.map fun e => (e.1, (f e.2).tree)) = some m.entries := by
    have hall := allSome_map (f := fun e : String × Tree => (read e.2).map fun v => (e.1, v))
      (g := fun e : String × α => (e.1, (f e.2).tree)) (k := id) fun e (he : e ∈ m.entries) => by
        simp [h e he]
    simpa using hall
  rw [map?, members?_tree, Option.bind_some, List.map_map]
  change (allSome _ (m.entries.map fun e => (e.1, (f e.2).tree))).map _ = _
  rw [hread, Option.map_some, Indexed.toOrdered_ofList, Ordered.ofList_entries]

end Tree

end Folio.Json
