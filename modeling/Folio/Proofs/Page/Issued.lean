import Folio.Proofs.Page.Changes
import Mathlib.Data.List.Basic

/-! The ids of a run: no two numbers and no two runs have an id in common, and a call takes the next
number from its run only for a node that has no id. -/
namespace Folio

namespace Ids

variable {ids : Ids} {run run' m n : Nat}

theorem dash_notMem_toDigits {base : Nat} (hbase : 1 < base) (n : Nat) :
    '-' ∉ Nat.toDigits base n := by
  induction n using Nat.strongRecOn with
  | ind n ih =>
    rcases Nat.lt_or_ge n base with h | h
    · rw [Nat.toDigits_of_lt_base h, List.mem_singleton]
      exact (Nat.digitChar_ne '-' rfl).symm
    · rw [Nat.toDigits_of_base_le hbase h, List.mem_append, not_or, List.mem_singleton]
      exact ⟨ih _ (Nat.div_lt_self (by omega) hbase), (Nat.digitChar_ne '-' rfl).symm⟩

/-! Runs and their names -/

theorem hexValue?_concat (s : List Char) {d : Nat} (hd : d < 16) :
    hexValue? (s ++ [Nat.digitChar d]) = (hexValue? s).map fun n => n * 16 + d := by
  have hdigit : ∀ d : Fin 16,
      (d.val.digitChar.isDigit ∧ d.val.digitChar.toNat - '0'.toNat = d.val) ∨
        (d.val.digitChar.isDigit = false ∧ 'a' ≤ d.val.digitChar ∧ d.val.digitChar ≤ 'f' ∧
          d.val.digitChar.toNat - 'a'.toNat + 10 = d.val) := by decide
  rw [hexValue?, List.foldlM_append, ← hexValue?]
  cases hexValue? s with
  | none => rfl
  | some n =>
    rcases hdigit ⟨d, hd⟩ with ⟨hdecimal, hvalue⟩ | ⟨hdecimal, hlow, hhigh, hvalue⟩
    · simp only [List.foldlM_cons, List.foldlM_nil, hdecimal, if_true, hvalue]
      rfl
    · simp only [List.foldlM_cons, List.foldlM_nil, hdecimal, hlow, hhigh, and_self, if_true,
        hvalue]
      rfl

theorem hexValue?_toDigits (n : Nat) : hexValue? (Nat.toDigits 16 n) = some n := by
  induction n using Nat.strongRecOn with
  | ind n ih =>
    rcases Nat.lt_or_ge n 16 with h | h
    · have hone := hexValue?_concat [] h
      rw [Nat.toDigits_of_lt_base h]
      rw [List.nil_append] at hone
      rw [hone]
      simp [hexValue?]
    · rw [Nat.toDigits_of_base_le (by decide) h, hexValue?_concat _ (Nat.mod_lt n (by decide)),
        ih _ (Nat.div_lt_self (by omega) (by decide)), Option.map_some, Nat.div_add_mod']

theorem hexValue?_zeros_append (count : Nat) (s : List Char) :
    hexValue? (List.replicate count '0' ++ s) = hexValue? s := by
  induction count with
  | zero => rfl
  | succ count ih => exact ih

/-- No two runs have one name. -/
theorem runName_injective (h : runName run = runName run') : run = run' := by
  have hdigits := congrArg (fun s : String => hexValue? s.toList.tail) h
  simp only [runName, String.toList_ofList, List.tail_cons, hexValue?_zeros_append,
    hexValue?_toDigits] at hdigits
  exact Option.some.inj hdigits

theorem dash_notMem_runName (run : Nat) : '-' ∉ (runName run).toList := by
  rw [runName, String.toList_ofList, List.mem_cons, List.mem_append, not_or, not_or]
  refine ⟨by decide, fun hzero => ?_, dash_notMem_toDigits (by decide) run⟩
  have heq := List.eq_of_mem_replicate hzero
  cases heq

/-! Numbers and their ids -/

theorem toList_nth (ids : Ids) (n : Nat) :
    (ids.nth n).toList = ids.run.toList ++ '-' :: Nat.toDigits 10 n := by
  simp [nth, Nat.toString_eq_repr, Nat.toList_repr]

/-- An id tells its number. -/
theorem nth_injective (h : ids.nth m = ids.nth n) : m = n := by
  have hlist := congrArg String.toList h
  rw [toList_nth, toList_nth] at hlist
  have hdigits := (List.cons.inj (List.append_cancel_left hlist)).2
  have hvalue := congrArg (fun s => Nat.ofDigitChars 10 s 0) hdigits
  simpa only [Nat.ofDigitChars_ten_toDigits] using hvalue

/-- An id tells its run. -/
theorem run_eq_of_nth_eq (h : (ofRun run).nth m = (ofRun run').nth n) : run = run' := by
  have hlist := congrArg String.toList h
  rw [toList_nth, toList_nth] at hlist
  have hparts := (List.append_cons_inj_of_notMem (dash_notMem_runName run)
    (dash_notMem_toDigits (by decide) m)).1 hlist
  exact runName_injective (String.toList_inj.1 hparts.1)

theorem nth_congr {ids' : Ids} (h : ids'.run = ids.run) (n : Nat) : ids'.nth n = ids.nth n := by
  rw [nth, h, nth]

/-- Texts of the form that ids of a run have, whether they were issued or not. -/
def Own (ids : Ids) (i : String) : Prop := ∃ n, i = ids.nth n

/-- The ids that were issued, in order: those that come first in the run. -/
def past (ids : Ids) : List String := (take ids.issued { ids with issued := 0 }).1

theorem fst_take (count : Nat) (ids : Ids) :
    (take count ids).1 = (List.range' (ids.issued + 1) count).map ids.nth := by
  induction count generalizing ids with
  | zero => rfl
  | succ count ih =>
    rw [List.range'_succ, List.map_cons, take]
    exact congrArg (ids.nth (ids.issued + 1) :: ·) (ih ids.next.2)

theorem past_eq (ids : Ids) : ids.past = (List.range' 1 ids.issued).map ids.nth := fst_take _ _

theorem nodup_past (ids : Ids) : ids.past.Nodup := by
  rw [past_eq]
  exact List.Pairwise.map ids.nth (fun _ _ hne heq => hne (nth_injective heq))
    (List.nodup_range' ..)

theorem nth_mem_past : ids.nth n ∈ ids.past ↔ 0 < n ∧ n ≤ ids.issued := by
  rw [past_eq, List.mem_map]
  constructor
  · rintro ⟨m, hm, heq⟩
    obtain rfl := nth_injective heq
    rw [List.mem_range'_1] at hm
    omega
  · intro hn
    exact ⟨n, List.mem_range'_1.2 (by omega), rfl⟩

/-- What is issued later comes after what was issued. -/
theorem past_append {ids' : Ids} (hrun : ids'.run = ids.run) (hissued : ids.issued ≤ ids'.issued) :
    ids'.past = ids.past ++ (take (ids'.issued - ids.issued) ids).1 := by
  have hnth : ids'.nth = ids.nth := funext (nth_congr hrun)
  have hrange : List.range' 1 ids'.issued =
      List.range' 1 ids.issued ++ List.range' (1 + ids.issued) (ids'.issued - ids.issued) := by
    rw [List.range'_append_1, Nat.add_sub_cancel' hissued]
  rw [past_eq, past_eq, fst_take, hnth, hrange, List.map_append, Nat.add_comm 1]

end Ids

namespace Node

variable {n m : Node} {sc sc' : Scope} {c : Call}

/-- What can become of the id of a node, and of the source of ids: the node keeps its id, or having
none, as it did, takes the next one. -/
inductive Labelled (n : Node) (ids : Ids) : Node → Ids → Prop
  | kept {m : Node} (h : m.id? = n.id?) : Labelled n ids m ids
  | issued {m : Node} (h : n.id? = none) (hm : m.id? = some ids.next.1) :
    Labelled n ids m ids.next.2

theorem ids_advise (sc : Scope) (message : String) (fields : List (String × String)) :
    (sc.advise message fields).ids = sc.ids := by
  unfold Scope.advise
  split <;> rfl

theorem ids_attr (n : Node) (sc : Scope) (name value : String) :
    (n.attr sc name value).2.ids = sc.ids := by
  simp only [attr]
  split
  · exact ids_advise ..
  · rfl

theorem ids_of_accepts_eq_false {kind : Client.Kind} {source : String}
    (h : n.accepts sc kind source = (false, sc')) : sc'.ids = sc.ids := by
  unfold accepts at h
  split at h
  · cases h
  · obtain ⟨-, rfl⟩ := Prod.mk.inj h
    exact ids_advise ..

theorem labelled_ensureId (n : Node) (sc : Scope) :
    n.Labelled sc.ids (n.ensureId sc).1 (n.ensureId sc).2.ids := by
  unfold ensureId
  cases h : n.id? with
  | some id => exact .kept rfl
  | none => exact .issued h (n.id?_setAttribute (sc.ids.nth_ne_empty _))

/-- What is captured besides leaves the id alone. -/
theorem Labelled.of_attributes_eq {ids ids' : Ids} {k : Node} (h : n.Labelled ids k ids')
    (hattributes : m.attributes = k.attributes) : n.Labelled ids m ids' := by
  have hid : m.id? = k.id? := Element.id?_congr (by rw [hattributes])
  cases h with
  | kept h => exact .kept (hid.trans h)
  | issued h hk => exact .issued h (hid.trans hk)

theorem labelled_attr {name : String} (hname : Text.kebab name ≠ "id") (n : Node) (sc : Scope)
    (value : String) : n.Labelled sc.ids (n.attr sc name value).1 (n.attr sc name value).2.ids := by
  rw [ids_attr, attr_fst]
  split
  · exact .kept rfl
  · exact .kept (Element.id?_congr (Ordered.get?_insert_of_ne hname.symm value))

theorem labelled_css (n : Node) (sc : Scope) (ds : List (String × String)) :
    n.Labelled sc.ids (n.css sc ds) sc.ids := by
  refine .kept (Element.id?_congr ?_)
  unfold css
  split
  · rfl
  · simp only [applyStyle]
    split <;> exact get?_id_addClass n _

theorem labelled_captureResult (n : Node) (sc : Scope) (value : Except String Json) :
    n.Labelled sc.ids (n.captureResult sc value).1 (n.captureResult sc value).2.ids := by
  cases value with
  | error e => exact .kept rfl
  | ok v => exact (labelled_ensureId n sc).of_attributes_eq rfl

theorem labelled_setComputed (n : Node) (sc : Scope) (source : String) :
    n.Labelled sc.ids (n.setComputed sc source).1 (n.setComputed sc source).2.ids := by
  unfold setComputed
  split
  · next hrefused =>
    rw [ids_of_accepts_eq_false hrefused]
    exact .kept rfl
  · next haccepts =>
    obtain ⟨-, rfl⟩ := accepts_eq_true haccepts
    exact (labelled_ensureId n sc).of_attributes_eq rfl

theorem labelled_bindText (n : Node) (sc : Scope) (key source : String) :
    n.Labelled sc.ids (n.bindText sc key source).1 (n.bindText sc key source).2.ids := by
  unfold bindText
  split
  · rw [ids_advise]
    exact .kept rfl
  · split
    · next hrefused =>
      rw [ids_of_accepts_eq_false hrefused]
      exact .kept rfl
    · next haccepts =>
      obtain ⟨-, rfl⟩ := accepts_eq_true haccepts
      exact (labelled_ensureId n sc).of_attributes_eq rfl

theorem labelled_listen (n : Node) (sc : Scope) (event : String) (targetId : Option String)
    (source : String) :
    n.Labelled sc.ids (n.listen sc event targetId source).1
      (n.listen sc event targetId source).2.ids := by
  simp only [listen]
  split
  · rw [ids_advise]
    exact .kept rfl
  · split
    · next hrefused =>
      rw [ids_of_accepts_eq_false hrefused]
      exact .kept rfl
    · next haccepts =>
      obtain ⟨-, rfl⟩ := accepts_eq_true haccepts
      exact (labelled_ensureId n sc).of_attributes_eq rfl

/-- A call that neither gives an id nor clears its node. -/
theorem labelled_apply (hgiven : c.givenId? = none) (hclear : c ≠ .reset)
    (h : n.apply sc c = (.ok m, sc')) : n.Labelled sc.ids m sc'.ids := by
  cases c <;> simp only [apply, Prod.mk.injEq, Except.ok.injEq] at h
  case attr name value =>
    obtain ⟨rfl, rfl⟩ := h
    have hname : Text.kebab name ≠ "id" := fun heq => by simp [Call.givenId?, heq] at hgiven
    exact labelled_attr hname n sc value
  case id value => cases hgiven
  case autoId => obtain ⟨rfl, rfl⟩ := h; exact labelled_ensureId n sc
  case append children => obtain ⟨rfl, rfl⟩ := h; exact .kept rfl
  case css declarations => obtain ⟨rfl, rfl⟩ := h; exact labelled_css n sc declarations
  case state value => obtain ⟨rfl, rfl⟩ := h; exact labelled_captureResult n sc value
  case computed source => obtain ⟨rfl, rfl⟩ := h; exact labelled_setComputed n sc source
  case bindText key source => obtain ⟨rfl, rfl⟩ := h; exact labelled_bindText n sc key source
  case listen event targetId source =>
    obtain ⟨rfl, rfl⟩ := h
    exact labelled_listen n sc event targetId source
  case reset => exact (hclear rfl).elim

/-- A call that gives an id takes none. -/
theorem ids_of_givenId {value : String} (hgiven : c.givenId? = some value) :
    (n.apply sc c).2.ids = sc.ids := by
  cases c with
  | attr name given =>
    simp only [apply]
    exact ids_attr n sc name given
  | id given =>
    rcases n.rename_cases sc given with ⟨heq, -⟩ | ⟨previous, moved, states, -, -, -, -, heq⟩ <;>
      rw [apply, heq]
  | autoId | append | css | state | computed | bindText | listen | reset => cases hgiven

/-- Only a call that sets the id as such breaks off. -/
theorem eq_id_of_crash {e : Crash} (h : (n.apply sc c).1 = .error e) : ∃ value, c = .id value := by
  cases c with
  | id value => exact ⟨value, rfl⟩
  | attr | autoId | append | css | state | computed | bindText | listen | reset =>
    simp only [apply] at h
    cases h

end Node

end Folio
