import Folio.Proofs.Style.Sheet

/-! Values that are cleaned once more. A value is trimmed first and cut to its limit last, so white
space can be left at its end. That is all that cleaning takes away from a clean value, and from the
values of a style that was put together of clean ones. -/
namespace Folio.Style

open Text

variable {limit : Nat}

theorem toList_clean_clean (limit : Nat) (value : String) :
    (clean limit (clean limit value)).toList = trimEnd (clean limit value).toList := by
  simp only [clean, toList_via, cleanChars_cleanChars]

theorem clean_eq_self_iff (limit : Nat) (value : String) :
    clean limit (clean limit value) = clean limit value ↔
      ∀ c ∈ (clean limit value).toList.getLast?, isBlank c = false := by
  rw [← String.toList_inj, toList_clean_clean, trimEnd_eq_self_iff]

/-- The styles of several calls, one after another, are the sheet of their rules. -/
theorem join_fragments (limit : Nat) (dss : List (List (String × String))) :
    String.join ((dss.filterMap (scope limit)).map Scoped.fragment) =
      sheetText (dss.filterMap (scopedRule? limit)) := by
  induction dss with
  | nil => rfl
  | cons ds dss ih =>
    rw [List.filterMap_cons, List.filterMap_cons]
    cases hstyle : scope limit ds with
    | none => simpa [scopedRule?, hstyle] using ih
    | some style =>
      obtain ⟨hrule, htext⟩ := scopedRule?_of_scope hstyle
      rw [hrule]
      simpa [sheetText, htext] using ih

/-- A clean value that is cleaned again loses the white space that the cut left at its end, and
nothing else: it stays as it is exactly if it does not end in white space, as it never does where
nothing was cut, and after the second time it stays for good. A style loses just that when it is
cleaned, if no name of a property has a colon in it. -/
theorem recleaned_loses_ends (limit : Nat) :
    (∀ value, clean limit (clean limit value) = via trimEnd (clean limit value) ∧
      (clean limit (clean limit value) = clean limit value ↔
        ∀ c ∈ (clean limit value).toList.getLast?, isBlank c = false) ∧
      ((cleanedChars value.toList).length ≤ limit →
        clean limit (clean limit value) = clean limit value) ∧
      clean limit (clean limit (clean limit value)) = clean limit (clean limit value)) ∧
    ∀ dss : List (List (String × String)), (∀ ds ∈ dss, ∀ d ∈ ds, ':' ∉ (kebab d.1).toList) →
      cleanFragment limit (String.join ((dss.filterMap (scope limit)).map Scoped.fragment)) =
        sheetText ((dss.filterMap (scopedRule? limit)).map Rule.trimEnds) := by
  refine ⟨fun value => ⟨?_, clean_eq_self_iff limit value, fun hwhole => ?_, ?_⟩, fun dss h => ?_⟩
  · rw [← String.toList_inj, toList_clean_clean, toList_via]
  · refine (clean_eq_self_iff limit value).2 fun c hc => ?_
    rw [clean, toList_via] at hc
    exact (isTrimmed_cleanChars hwhole).last c hc
  · rw [← String.toList_inj, toList_clean_clean, toList_clean_clean, trimEnd_trimEnd]
  · have hrules : ∀ r ∈ dss.filterMap (scopedRule? limit), r.WellFormed limit ∧ r.Led := by
      intro r hr
      obtain ⟨ds, hds, hrule⟩ := List.mem_filterMap.1 hr
      exact wellFormed_of_scopedRule? (h ds hds) hrule
    rw [join_fragments]
    exact cleanFragment_sheetText (fun r hr => (hrules r hr).1) (fun r hr => (hrules r hr).2)

/-- Two styles under a limit of three characters. The cut of the first value comes after a blank,
the second value is cut inside a word, and the third is not cut. -/
theorem recleaned_loses_ends_of_three :
    clean 3 "ab cd" = "ab " ∧ clean 3 (clean 3 "ab cd") = "ab" ∧
      (cleanedChars " 0 ".toList).length ≤ 3 ∧ clean 3 (clean 3 " 0 ") = clean 3 " 0 " ∧
      (∀ ds ∈ [[("color", "ab cd"), ("top", "abcd")], [("margin", " 0 ")]],
        ∀ d ∈ ds, ':' ∉ (kebab d.1).toList) ∧
      cleanFragment 3 ".w-5rs1ke\x7bcolor:ab ;top:abc;\x7d.w-15awnuu\x7bmargin:0;\x7d" =
        ".w-5rs1ke\x7bcolor:ab;top:abc;\x7d.w-15awnuu\x7bmargin:0;\x7d" := by
  obtain ⟨hvalues, hstyles⟩ := recleaned_loses_ends 3
  obtain ⟨hcut, -⟩ := hvalues "ab cd"
  obtain ⟨-, -, hwhole, -⟩ := hvalues " 0 "
  let dss : List (List (String × String)) :=
    [[("color", "ab cd"), ("top", "abcd")], [("margin", " 0 ")]]
  have hcolon : ∀ ds ∈ dss, ∀ d ∈ ds, ':' ∉ (kebab d.1).toList := by decide
  have hshort : (cleanedChars " 0 ".toList).length ≤ 3 := by decide
  have hfragment : String.join ((dss.filterMap (scope 3)).map Scoped.fragment) =
      ".w-5rs1ke\x7bcolor:ab ;top:abc;\x7d.w-15awnuu\x7bmargin:0;\x7d" := by decide +kernel
  have hsheet := hstyles dss hcolon
  rw [hfragment] at hsheet
  refine ⟨by decide, ?_, hshort, hwhole hshort, hcolon, ?_⟩
  · rw [hcut]
    decide
  · rw [hsheet]
    decide +kernel

/-- A value that is cut after a blank does not stay as it is, by itself or in a style. -/
theorem cut_value_loses_blank :
    clean 2 "a b" = "a " ∧ clean 2 (clean 2 "a b") = "a" ∧
      clean 2 (clean 2 "a b") ≠ clean 2 "a b" ∧
      (scope 2 [("content", "a b")]).map Scoped.fragment =
        some ".w-1gvu9y6\x7bcontent:a ;\x7d" ∧
      cleanFragment 2 ".w-1gvu9y6\x7bcontent:a ;\x7d" = ".w-1gvu9y6\x7bcontent:a;\x7d" := by
  refine ⟨by decide, by decide, by decide, by decide +kernel, by decide +kernel⟩

end Folio.Style
