import Folio.Page.Context
import Folio.Proofs.Text.Kebab
import Folio.Style.Fragment

/-! Style that is written into a page without escapes: whatever declarations and fragments it comes
from, it holds no angle bracket and no backslash. -/
namespace Folio.Style

open Text

variable {s t : List Char}

/-- Holds of texts without angle brackets and backslashes. -/
def IsBare (s : List Char) : Prop := ∀ c ∈ s, c ≠ '<' ∧ c ≠ '>' ∧ c ≠ '\\'

instance (s : List Char) : Decidable (IsBare s) :=
  decidable_of_iff (s.all fun c => decide (c ≠ '<' ∧ c ≠ '>' ∧ c ≠ '\\')) <| by
    simp only [List.all_eq_true, decide_eq_true_eq, IsBare]

theorem isBare_append : IsBare (s ++ t) ↔ IsBare s ∧ IsBare t := List.forall_mem_append

theorem IsBare.mono (ht : IsBare t) (h : s ⊆ t) : IsBare s := fun c hc => ht c (h hc)

theorem isBare_join {parts : List String} (h : ∀ part ∈ parts, IsBare part.toList) :
    IsBare (String.join parts).toList := by
  rw [String.toList_join]
  intro c hc
  obtain ⟨part, hpart, hc⟩ := List.mem_flatMap.1 hc
  exact h part hpart c hc

/-! Values -/

theorem push_sublist (done : List Char) (c : Char) : (push done c).Sublist (c :: done) := by
  unfold push
  split
  · exact List.Sublist.refl _
  · split
    · exact ((List.Sublist.refl _).cons _).cons _
    · exact List.Sublist.refl _

theorem foldl_push_sublist (s done : List Char) :
    (s.foldl push done).Sublist (s.reverse ++ done) := by
  induction s generalizing done with
  | nil => exact List.Sublist.refl _
  | cons c s ih =>
    rw [List.reverse_cons, List.append_assoc]
    exact (ih (push done c)).trans ((push_sublist done c).append_left s.reverse)

/-- What is left when the marks are taken out stood there before, in this order. -/
theorem cancelMarks_sublist (s : List Char) : (cancelMarks s).Sublist s := by
  have hfold := foldl_push_sublist s []
  rwa [List.append_nil, ← List.reverse_sublist, List.reverse_reverse] at hfold

theorem trim_subset (s : List Char) : trim s ⊆ s := by
  intro c hc
  have hdropped : c ∈ (s.dropWhile isBlank).reverse :=
    (List.dropWhile_sublist isBlank).subset (List.mem_reverse.1 hc)
  exact (List.dropWhile_sublist isBlank).subset (List.mem_reverse.1 hdropped)

theorem not_isForbidden_of_mem_cleanChars {limit : Nat} {c : Char} (h : c ∈ cleanChars limit s) :
    isForbidden c = false := by
  have hfiltered := (cancelMarks_sublist _).subset (trim_subset _ (List.take_subset _ _ h))
  simpa using (List.mem_filter.1 hfiltered).2

theorem isBare_clean (limit : Nat) (value : String) : IsBare (clean limit value).toList := by
  intro c hc
  rw [clean, toList_via] at hc
  have hforbidden := not_isForbidden_of_mem_cleanChars hc
  refine ⟨?_, ?_, ?_⟩ <;> rintro rfl <;> cases hforbidden

/-! Declarations and rules -/

theorem isBare_kebab (name : String) : IsBare (kebab name).toList := by
  intro c hc
  have hkebab := isKebab_kebab name c hc
  refine ⟨?_, ?_, ?_⟩ <;> rintro rfl <;> cases hkebab

theorem isBare_declaration (limit : Nat) (d : String × String) :
    IsBare (declaration limit d).toList := by
  simp only [declaration]
  split
  · exact nofun
  · simp only [String.toList_append, isBare_append]
    exact ⟨⟨⟨isBare_kebab d.1, by decide⟩, isBare_clean limit d.2⟩, by decide⟩

theorem isBare_declarations (limit : Nat) (ds : List (String × String)) :
    IsBare (declarations limit ds).toList := by
  refine isBare_join fun part hpart => ?_
  obtain ⟨d, -, rfl⟩ := List.mem_map.1 hpart
  exact isBare_declaration limit d

theorem isBare_ruleText {className rules : String} (hclass : IsBare className.toList)
    (hrules : IsBare rules.toList) : IsBare (ruleText className rules).toList := by
  simp only [ruleText, String.toList_append, isBare_append]
  exact ⟨⟨⟨⟨by decide, hclass⟩, by decide⟩, hrules⟩, by decide⟩

/-! Classes -/

theorem isClassChar_digit36 {n : Nat} (h : n < 36) : isClassChar (digit36 n) = true := by
  have hall : ∀ m : Fin 36, isClassChar (digit36 m) = true := by decide
  exact hall ⟨n, h⟩

theorem isClassChar_of_mem_base36From {done : List Char} (n : Nat)
    (h : ∀ c ∈ done, isClassChar c = true) : ∀ c ∈ base36From done n, isClassChar c = true := by
  fun_induction base36From done n with
  | case1 => exact h
  | case2 done n _ ih =>
    have hdigit := isClassChar_digit36 (Nat.mod_lt n (by decide))
    exact ih (List.forall_mem_cons.2 ⟨hdigit, h⟩)

theorem isClassChar_of_mem_base36 (n : Nat) : ∀ c ∈ base36 n, isClassChar c = true := by
  unfold base36
  split
  · exact List.forall_mem_singleton.2 rfl
  · exact isClassChar_of_mem_base36From _ (List.forall_mem_nil _)

theorem isClassChar_of_mem_scopedClass (rules : String) :
    ∀ c ∈ (scopedClass rules).toList, isClassChar c = true := by
  rw [scopedClass, String.toList_append, List.forall_mem_append]
  refine ⟨List.all_eq_true.1 rfl, ?_⟩
  rw [String.toList_ofList]
  exact isClassChar_of_mem_base36 _

theorem isBare_of_isClassChar (h : ∀ c ∈ s, isClassChar c = true) : IsBare s := by
  intro c hc
  have hclass := h c hc
  refine ⟨?_, ?_, ?_⟩ <;> rintro rfl <;> cases hclass

theorem isClassChar_of_classOf? {selector name : List Char} (h : classOf? selector = some name) :
    name ≠ [] ∧ ∀ c ∈ name, isClassChar c = true := by
  unfold classOf? at h
  split at h
  · split at h
    · next hall =>
      obtain rfl := Option.some.inj h
      simpa using hall
    · cases h
  · cases h

/-- A scoped style is what is left of its declarations, under the class of that. -/
theorem eq_of_scope {limit : Nat} {ds : List (String × String)} {style : Scoped}
    (h : scope limit ds = some style) :
    declarations limit ds ≠ "" ∧
      style = ⟨scopedClass (declarations limit ds), declarations limit ds⟩ := by
  simp only [scope] at h
  split at h
  · cases h
  · next hsome => exact ⟨by simpa using hsome, (Option.some.inj h).symm⟩

/-- A scoped style can stand in a style element as it is. -/
theorem isBare_fragment_of_scope {limit : Nat} {ds : List (String × String)} {style : Scoped}
    (h : scope limit ds = some style) : IsBare style.fragment.toList := by
  obtain ⟨-, rfl⟩ := eq_of_scope h
  exact isBare_ruleText (isBare_of_isClassChar (isClassChar_of_mem_scopedClass _))
    (isBare_declarations limit ds)

theorem isBare_rebuildRule (limit : Nat) (selector body : List Char) :
    IsBare (rebuildRule limit selector body).toList := by
  unfold rebuildRule
  split
  · exact nofun
  · next name hname =>
    dsimp only
    split
    · exact nofun
    · refine isBare_ruleText (isBare_of_isClassChar ?_) (isBare_declarations limit _)
      rw [String.toList_ofList]
      exact (isClassChar_of_classOf? hname).2

/-- Whatever fragment comes from elsewhere, what is made of it is bare. -/
theorem isBare_cleanFragment (limit : Nat) (fragment : String) :
    IsBare (cleanFragment limit fragment).toList := by
  refine isBare_join fun part hpart => ?_
  obtain ⟨⟨selector, body⟩, -, rfl⟩ := List.mem_map.1 hpart
  exact isBare_rebuildRule limit selector body

end Folio.Style

namespace Folio

open Style (IsBare)

/-! Collected rules -/

theorem Text.subset_of_mem_splitAfter {c : Char} {s piece : List Char}
    (h : piece ∈ splitAfter c s) : piece ⊆ s := by
  induction s generalizing piece with
  | nil => cases h
  | cons d s ih =>
    unfold splitAfter at h ih
    rw [List.foldr_cons] at h
    split at h
    · rcases List.mem_cons.1 h with rfl | h
      · simp
      · exact fun e he => List.mem_cons_of_mem _ (ih h he)
    · split at h
      · obtain rfl := List.mem_singleton.1 h
        simp
      · next first rest hrest =>
        rw [hrest] at ih
        rcases List.mem_cons.1 h with rfl | h
        · intro e he
          rcases List.mem_cons.1 he with rfl | he
          · exact List.mem_cons_self
          · exact List.mem_cons_of_mem _ (ih List.mem_cons_self he)
        · exact fun e he => List.mem_cons_of_mem _ (ih (List.mem_cons_of_mem _ h) he)

namespace RuleList

variable {l : RuleList} {r : String}

theorem mem_styles_add {rule : List Char} (h : r ∈ (l.add rule).styles) :
    r ∈ l.styles ∨ r = String.ofList (Text.trim rule) := by
  simp only [add] at h
  split at h
  · exact .inl h
  · simpa using h

theorem isBare_foldl_add {rules : List (List Char)} (hrules : ∀ rule ∈ rules, IsBare rule)
    (h : ∀ r ∈ l.styles, IsBare r.toList) : ∀ r ∈ (rules.foldl add l).styles, IsBare r.toList := by
  induction rules generalizing l with
  | nil => exact h
  | cons rule rules ih =>
    rw [List.forall_mem_cons] at hrules
    refine ih hrules.2 fun r hr => ?_
    rcases mem_styles_add hr with hr | rfl
    · exact h r hr
    · rw [String.toList_ofList]
      exact hrules.1.mono (Style.trim_subset rule)

theorem isBare_addFragment {fragment : String} (hfragment : IsBare fragment.toList)
    (h : ∀ r ∈ l.styles, IsBare r.toList) :
    ∀ r ∈ (l.addFragment fragment).styles, IsBare r.toList :=
  isBare_foldl_add (fun _ hrule => hfragment.mono (Text.subset_of_mem_splitAfter hrule)) h

end RuleList

end Folio
