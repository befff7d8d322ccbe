import Folio.Proofs.Cache.Watched

/-! What a bounded store holds, read off its past alone: which keys, with which values, in which
order, and which entry has to leave. Times are numbers of earlier events. -/
namespace Folio.Lru

universe u

variable {ν : Type u} {s t : Lru ν} {key k : String} {v : ν} {e : Event ν}
  {past : List (Event ν)} {es fs : List (String × ν)}

namespace Event

/-- A use of a key: a value is stored under it, or it is looked up and found. -/
def uses (key : String) (e : Event ν) : Bool :=
  match e.operation, e.reply with
  | .insert k _, _ => k == key
  | .get k, .value (some _) => k == key
  | _, _ => false

/-- What is stored under a key. -/
def stored? (key : String) (e : Event ν) : Option ν :=
  match e.operation with
  | .insert k v => if k = key then some v else none
  | _ => none

/-- A key leaves: it is removed, everything is, or it is evicted for another one. -/
def drops (key : String) (e : Event ν) : Bool :=
  match e.operation, e.reply with
  | .remove k, _ => k == key
  | .clear, _ => true
  | .insert _ _, .evicted (some k) => k == key
  | _, _ => false

end Event

/-- The time of the last use of a key. -/
def lastUse? (key : String) : List (Event ν) → Option Nat
  | [] => none
  | e :: past => if e.uses key then some past.length else lastUse? key past

/-- The value stored last under a key. -/
def lastStored? (key : String) : List (Event ν) → Option ν
  | [] => none
  | e :: past => (e.stored? key).or (lastStored? key past)

/-- Whether a key was stored and did not leave since. -/
def isKept (key : String) : List (Event ν) → Bool
  | [] => false
  | e :: past => (e.stored? key).isSome || (!e.drops key && isKept key past)

/-- Entries as the past ranks them: each key has been used, one that is listed before another was
used last before it, and each has the value that was stored last under it. -/
structure Ranked (past : List (Event ν)) (es : List (String × ν)) : Prop where
  used : ∀ e ∈ es, (lastUse? e.1 past).isSome
  inOrder : es.Pairwise fun e f => lastUse? e.1 past < lastUse? f.1 past
  stored : ∀ e ∈ es, lastStored? e.1 past = some e.2

theorem lastUse?_lt {time : Nat} (h : lastUse? key past = some time) : time < past.length := by
  induction past with
  | nil => cases h
  | cons e past ih =>
    unfold lastUse? at h
    split at h
    · obtain rfl := Option.some.inj h
      exact Nat.lt_succ_self _
    · exact Nat.lt_succ_of_lt (ih h)

namespace Ranked

theorem nil : Ranked past ([] : List (String × ν)) := ⟨nofun, .nil, nofun⟩

theorem sublist (h : Ranked past fs) (hsub : es.Sublist fs) : Ranked past es :=
  ⟨fun e he => h.used e (hsub.subset he), h.inOrder.sublist hsub,
    fun e he => h.stored e (hsub.subset he)⟩

/-- An event that has to do with none of the keys changes no rank. -/
theorem idle (h : Ranked past es)
    (he : ∀ f ∈ es, e.uses f.1 = false ∧ e.stored? f.1 = none) : Ranked (e :: past) es := by
  have huse : ∀ f ∈ es, lastUse? f.1 (e :: past) = lastUse? f.1 past := by
    intro f hf
    rw [lastUse?, (he f hf).1, if_neg Bool.false_ne_true]
  refine ⟨?_, ?_, ?_⟩
  · intro f hf
    rw [huse f hf]
    exact h.used f hf
  · refine h.inOrder.imp_of_mem ?_
    intro f g hf hg hlt
    rwa [huse f hf, huse g hg]
  · intro f hf
    rw [lastStored?, (he f hf).2, Option.none_or]
    exact h.stored f hf

/-- A key that is used comes last. -/
theorem use (h : Ranked past es) (huses : e.uses key = true)
    (hothers : ∀ f ∈ es, e.uses f.1 = false ∧ e.stored? f.1 = none)
    (hstored : lastStored? key (e :: past) = some v) : Ranked (e :: past) (es ++ [(key, v)]) := by
  have hes := h.idle hothers
  have hlast : lastUse? key (e :: past) = some past.length := by rw [lastUse?, if_pos huses]
  refine ⟨?_, ?_, ?_⟩
  · intro f hf
    rcases List.mem_append.1 hf with hf | hf
    · exact hes.used f hf
    · rw [List.mem_singleton.1 hf, hlast]
      rfl
  · rw [List.pairwise_append]
    refine ⟨hes.inOrder, List.pairwise_singleton .., ?_⟩
    intro f hf g hg
    rw [List.mem_singleton.1 hg, hlast]
    obtain ⟨time, htime⟩ := Option.isSome_iff_exists.1 (h.used f hf)
    rw [lastUse?, (hothers f hf).1, if_neg Bool.false_ne_true, htime, Option.some_lt_some]
    exact lastUse?_lt htime
  · intro f hf
    rcases List.mem_append.1 hf with hf | hf
    · exact hes.stored f hf
    · rw [List.mem_singleton.1 hf]
      exact hstored

/-- The key of an event comes last, wherever it was before. -/
theorem touch (h : Ranked past es) (hnodup : (es.map Prod.fst).Nodup) (huses : e.uses key = true)
    (hothers : ∀ k, k ≠ key → e.uses k = false ∧ e.stored? k = none)
    (hstored : lastStored? key (e :: past) = some v) :
    Ranked (e :: past) (Entries.erase key es ++ [(key, v)]) := by
  refine (h.sublist (Entries.erase_sublist key es)).use huses ?_ hstored
  intro f hf
  apply hothers
  rintro rfl
  exact Entries.not_mem_keys_erase f.1 hnodup (List.mem_map_of_mem hf)

end Ranked

/-- A step puts in what it stores and takes out what it drops. -/
theorem mem_keys_step (hs : s.Sound) (h : s.Step e t) (k : String) :
    k ∈ t.keys ↔ (0 < s.capacity ∧ (e.stored? k).isSome) ∨ (e.drops k = false ∧ k ∈ s.keys) := by
  cases h with
  | @hit key v hpeek =>
    have hkey : key ∈ s.keys := mem_keys_of_peek hpeek
    rw [mem_keys_touch, or_iff_right_of_imp fun h => h ▸ hkey]
    simp [Event.stored?, Event.drops]
  | miss | peek => simp [Event.stored?, Event.drops]
  | ignore key v hzero => simp [hzero, Event.drops]
  | @store key v hcapacity _ =>
    rw [mem_keys_touch]
    by_cases hk : k = key
    · simp [Event.stored?, hk, hcapacity]
    · simp [Event.stored?, Event.drops, hk, Ne.symm hk]
  | @evict key v oldest rest hcapacity hkey _ hentries =>
    have hkeys := keys_eq_cons hentries
    have hgone : oldest.1 ∉ rest.map Prod.fst := (List.nodup_cons.1 (hkeys ▸ hs.nodup_keys)).1
    rw [mem_keys_touch, hkeys, List.mem_cons, keys]
    by_cases hk : k = key
    · simp [Event.stored?, hk, hcapacity]
    · by_cases hold : k = oldest.1
      · subst hold
        simp [Event.stored?, Event.drops, hk, Ne.symm hk, hgone]
      · simp [Event.stored?, Event.drops, Ne.symm hk, hk, hold, Ne.symm hold]
  | remove key =>
    have hkeys : k ∈ (Entries.erase key s.entries).map Prod.fst ↔ k ≠ key ∧ k ∈ s.keys := by
      rw [Entries.keys_erase]
      exact hs.nodup_keys.mem_erase_iff
    rw [keys, hkeys]
    simp [Event.stored?, Event.drops, @eq_comm _ k]
  | clear => simp [keys, Lru.clear, Event.stored?, Event.drops]

/-- A store that is as its past tells. -/
structure Told (past : List (Event ν)) (s : Lru ν) : Prop where
  ranked : Ranked past s.entries
  kept : ∀ key, key ∈ s.keys ↔ 0 < s.capacity ∧ isKept key past

namespace Told

theorem new (capacity : Nat) : Told [] ({ capacity } : Lru ν) := by
  refine ⟨.nil, ?_⟩
  intro key
  simp [keys, isKept]

theorem ranked_step (h : Ranked past s.entries) (hs : s.Sound) (hstep : s.Step e t) :
    Ranked (e :: past) t.entries := by
  cases hstep with
  | @hit key v hpeek =>
    refine h.touch hs.nodup_keys BEq.rfl ?_ ?_
    · intro k hk
      exact ⟨beq_false_of_ne hk.symm, rfl⟩
    · exact h.stored (key, v) (Entries.mem_of_get? hpeek)
  | miss | peek => exact h.idle fun f hf => ⟨rfl, rfl⟩
  | ignore key v hzero => exact entries_eq_nil hs.size_le hzero ▸ .nil
  | @store key v _ _ =>
    refine h.touch hs.nodup_keys BEq.rfl ?_ ?_
    · intro k hk
      exact ⟨beq_false_of_ne hk.symm, if_neg hk.symm⟩
    · simp [lastStored?, Event.stored?]
  | @evict key v oldest rest _ _ _ hentries =>
    have hnodup := hs.nodup_keys
    rw [keys_eq_cons hentries] at hnodup
    have hrest : Ranked past rest := by
      refine h.sublist ?_
      rw [hentries]
      exact List.sublist_cons_self ..
    refine hrest.touch (List.nodup_cons.1 hnodup).2 BEq.rfl ?_ ?_
    · intro k hk
      exact ⟨beq_false_of_ne hk.symm, if_neg hk.symm⟩
    · simp [lastStored?, Event.stored?]
  | remove key =>
    exact (h.sublist (Entries.erase_sublist key s.entries)).idle fun f hf => ⟨rfl, rfl⟩
  | clear => exact .nil

/-- One step, whichever it is, leaves a store as its past tells. -/
theorem step (h : Told past s) (hs : s.Sound) (hstep : s.Step e t) : Told (e :: past) t := by
  refine ⟨ranked_step h.ranked hs hstep, ?_⟩
  intro k
  rw [mem_keys_step hs hstep, h.kept, hstep.capacity_eq, isKept]
  cases (e.stored? k).isSome with
  | false => simp [and_left_comm]
  | true =>
    simp only [Bool.true_or, and_true, or_iff_left_iff_imp]
    exact fun h => h.2.1

theorem run (capacity : Nat) (ops : List (Operation ν)) :
    Told ((watched capacity).run ops).past ((watched capacity).run ops).store := by
  refine (Watched.run_keeps (P := fun s past => s.Sound ∧ Told past s) ?_ ops (watched capacity)
    ⟨⟨List.nodup_nil, Nat.zero_le _⟩, .new capacity⟩).2
  intro s e t past hstep hs
  exact ⟨hs.1.step hstep, hs.2.step hs.1 hstep⟩

end Told

/-- Who has to leave for a new entry: nobody, unless the store is full and the key is new, and then
the one that was used longest ago. -/
theorem insert_evicts (hs : s.Sound) (h : Ranked past s.entries) (key : String) (v : ν) :
    ((s.insert key v).1.isSome ↔ key ∉ s.keys ∧ 0 < s.capacity ∧ s.size = s.capacity) ∧
      ∀ oldest, (s.insert key v).1 = some oldest →
        oldest ∈ s.keys ∧
          (∀ k ∈ s.keys, k ≠ oldest → lastUse? oldest past < lastUse? k past) ∧
          (s.insert key v).2.entries = Entries.erase oldest s.entries ++ [(key, v)] := by
  have hstep := s.step_insert key v
  generalize s.insert key v = result at hstep
  obtain ⟨evicted, t⟩ := result
  dsimp only at hstep ⊢
  cases hstep with
  | ignore _ _ hzero => simp [hzero]
  | store _ hcapacity hroom =>
    refine ⟨?_, nofun⟩
    constructor
    · nofun
    · rintro ⟨hkey, -, hfull⟩
      have hroom := hroom.resolve_left hkey
      omega
  | @evict _ _ oldest rest hcapacity hkey hfull hentries =>
    have hkeys := keys_eq_cons hentries
    have hrest : key ∉ rest.map Prod.fst := fun h => hkey (hkeys ▸ List.mem_cons_of_mem _ h)
    refine ⟨?_, ?_⟩
    · have hsize := hs.size_le
      simp only [Option.isSome_some, true_iff]
      exact ⟨hkey, hcapacity, by omega⟩
    · intro _ hold
      obtain rfl := Option.some.inj hold
      refine ⟨hkeys ▸ List.mem_cons_self, ?_, ?_⟩
      · intro k hk hne
        rw [hkeys, List.mem_cons] at hk
        obtain ⟨f, hf, rfl⟩ := List.mem_map.1 (hk.resolve_left hne)
        have horder := h.inOrder
        rw [hentries, List.pairwise_cons] at horder
        exact horder.1 f hf
      · rw [hentries, touch_of_not_mem hrest, Entries.erase, if_pos rfl]

/-- A lookup finds the keys that are there, with the value that was stored last. -/
theorem get_finds (hs : s.Sound) (h : Ranked past s.entries) (key : String) :
    (s.get key).1 = s.peek key ∧
      s.peek key = if key ∈ s.keys then lastStored? key past else none := by
  refine ⟨s.fst_get key, ?_⟩
  split
  · next hkey =>
    obtain ⟨f, hf, rfl⟩ := List.mem_map.1 hkey
    rw [h.stored f hf]
    exact Entries.get?_of_mem hs.nodup_keys hf
  · next hkey => exact Entries.get?_eq_none_iff.2 hkey

/-- Whether a reply says that there was nothing. -/
def Reply.isNothing : Reply ν → Bool
  | .value v => v.isNone
  | .evicted key => key.isNone
  | .found b => !b
  | .done => true

/-- Without capacity there is nothing, before a step as after it. -/
theorem Step.isNothing (h : s.Step e t) (hzero : s.capacity = 0) (hnil : s.entries = []) :
    e.reply.isNothing = true ∧ t.entries = [] := by
  have hpeek : ∀ key, s.peek key = none := by
    intro key
    rw [Lru.peek, hnil]
    rfl
  cases h with
  | @hit key v h => simp [hpeek key] at h
  | miss | ignore => exact ⟨rfl, hnil⟩
  | peek key => exact ⟨by rw [hpeek]; rfl, hnil⟩
  | store _ hcapacity => exact (Nat.ne_of_gt hcapacity hzero).elim
  | evict _ hcapacity => exact (Nat.ne_of_gt hcapacity hzero).elim
  | remove key => exact ⟨by rw [hpeek]; rfl, by rw [hnil]; rfl⟩
  | clear => exact ⟨rfl, rfl⟩

theorem Watched.isNothing_run (ops : List (Operation ν)) :
    ((watched 0).run ops).store.entries = [] ∧
      ∀ e ∈ ((watched 0).run ops).past, e.reply.isNothing := by
  refine (run_keeps
    (P := fun s past => s.capacity = 0 ∧ s.entries = [] ∧ ∀ e ∈ past, e.reply.isNothing) ?_ ops
    (watched 0) ⟨rfl, rfl, nofun⟩).2
  intro s e t past hstep hs
  obtain ⟨hzero, hnil, hpast⟩ := hs
  obtain ⟨hreply, hempty⟩ := hstep.isNothing hzero hnil
  exact ⟨hstep.capacity_eq.trans hzero, hempty, List.forall_mem_cons.2 ⟨hreply, hpast⟩⟩

/-- Whatever was done to a store of any capacity: its keys are distinct and no more than the
capacity; they are those that were stored and did not leave since, listed by the time of their last
use, each with the value stored last, which lookups find; an insertion evicts an entry if and only
if its key is new and the store is full, and then the one whose last use is oldest; and without
capacity there is nothing to hold or to return. -/
theorem recency_of_history (capacity : Nat) (ops : List (Operation ν)) :
    let w := (watched capacity).run ops
    w.store.keys.Nodup ∧ w.store.size ≤ capacity ∧ Told w.past w.store ∧
      (∀ key, (w.store.get key).1 = w.store.peek key ∧
        w.store.peek key = if key ∈ w.store.keys then lastStored? key w.past else none) ∧
      (∀ key v,
        ((w.store.insert key v).1.isSome ↔
          key ∉ w.store.keys ∧ 0 < capacity ∧ w.store.size = capacity) ∧
        ∀ oldest, (w.store.insert key v).1 = some oldest →
          oldest ∈ w.store.keys ∧
            (∀ k ∈ w.store.keys, k ≠ oldest → lastUse? oldest w.past < lastUse? k w.past) ∧
            (w.store.insert key v).2.entries =
              Entries.erase oldest w.store.entries ++ [(key, v)]) ∧
      (capacity = 0 → w.store.entries = [] ∧ ∀ e ∈ w.past, e.reply.isNothing) := by
  have hsound := Watched.sound_run capacity ops
  have htold := Told.run capacity ops
  have hcapacity := Watched.capacity_run capacity ops
  refine ⟨hsound.nodup_keys, ?_, htold, get_finds hsound htold.ranked, ?_, ?_⟩
  · exact le_of_le_of_eq hsound.size_le hcapacity
  · intro key v
    have hevicts := insert_evicts hsound htold.ranked key v
    rwa [hcapacity] at hevicts
  · rintro rfl
    exact Watched.isNothing_run ops

example :
    ((watched 2).run [.insert "a" 1, .insert "b" 2, .get "a", .insert "c" 3]).store.keys =
      ["a", "c"] := by decide

end Folio.Lru
