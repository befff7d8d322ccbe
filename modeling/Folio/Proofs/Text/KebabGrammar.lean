import Folio.Proofs.Text.KebabForm
import Mathlib.Data.List.Basic

/-! The grammar of names: nothing, two dashes, or words joined by single dashes, perhaps after two
leading ones. Taking the kebab form is a retraction onto it: every kebab form is a name of the
grammar, and the names of the grammar are the texts that are their own kebab form. -/
namespace Folio.Text

variable {start out s w : List Char} {ws : List (List Char)} {c : Char}

/-- The words of names: small letters, digits and colons, one or more of them. -/
structure IsWord (w : List Char) : Prop where
  filled : w ≠ []
  spelled : ∀ c ∈ w, isWordChar c = true

/-- The grammar of names. -/
inductive InGrammar : List Char → Prop
  | empty : InGrammar []
  | dashes : InGrammar ['-', '-']
  | words {start : List Char} {ws : List (List Char)} (hstart : IsStart start) (hsome : ws ≠ [])
    (hwords : ∀ w ∈ ws, IsWord w) : InGrammar (start ++ ['-'].intercalate ws)

/-! What is joined is words -/

theorem intercalate_concat {sep : List Char} (hsome : ws ≠ []) (w : List Char) :
    sep.intercalate (ws ++ [w]) = sep.intercalate ws ++ sep ++ w := by
  induction ws with
  | nil => exact (hsome rfl).elim
  | cons v ws ih =>
    cases ws with
    | nil => simp
    | cons u ws =>
      have htail := ih (List.cons_ne_nil u ws)
      rw [List.cons_append] at htail
      rw [List.cons_append, List.cons_append, List.intercalate_cons_cons, htail,
        List.intercalate_cons_cons]
      simp only [List.append_assoc]

/-- A character that comes after words makes the last one longer. -/
theorem exists_words_concat (hsome : ws ≠ []) (hwords : ∀ w ∈ ws, IsWord w)
    (hc : isWordChar c = true) :
    ∃ vs, vs ≠ [] ∧ (∀ v ∈ vs, IsWord v) ∧
      ['-'].intercalate vs = ['-'].intercalate ws ++ [c] := by
  obtain ⟨front, last, rfl⟩ := List.eq_nil_or_concat ws |>.resolve_left hsome
  rw [List.concat_eq_append, List.forall_mem_append] at hwords
  have hlast := hwords.2 last (List.mem_singleton_self last)
  have hlonger : IsWord (last ++ [c]) := by
    refine ⟨by simp, ?_⟩
    exact List.forall_mem_append.2 ⟨hlast.spelled, List.forall_mem_singleton.2 hc⟩
  refine ⟨front ++ [last ++ [c]], by simp, ?_, ?_⟩
  · exact List.forall_mem_append.2 ⟨hwords.1, List.forall_mem_singleton.2 hlonger⟩
  · rw [List.concat_eq_append]
    by_cases hfront : front = []
    · simp [hfront]
    · rw [intercalate_concat hfront, intercalate_concat hfront]
      simp only [List.append_assoc]

theorem IsStart.reverse_eq (h : IsStart start) : start.reverse = start := by
  rcases h with rfl | rfl <;> rfl

theorem head?_eq_of_reverse_eq (h : out.reverse = s ++ [c]) : out.head? = some c := by
  rw [← List.getLast?_reverse, h, List.getLast?_concat]

/-- What was joined to a start is nothing, or words, perhaps with a dash at the end. -/
theorem Joined.exists_words (h : Joined start out) (hstart : IsStart start) :
    out = start ∨ ∃ ws, ws ≠ [] ∧ (∀ w ∈ ws, IsWord w) ∧
      (out.reverse = start ++ ['-'].intercalate ws ∨
        out.reverse = start ++ ['-'].intercalate ws ++ ['-']) := by
  induction h with
  | start => exact .inl rfl
  | @word out c _ hc ih =>
    right
    have hone : IsWord [c] := ⟨List.cons_ne_nil c [], List.forall_mem_singleton.2 hc⟩
    rcases ih with rfl | ⟨ws, hsome, hwords, hout | hout⟩
    · refine ⟨[[c]], by simp, List.forall_mem_singleton.2 hone, .inl ?_⟩
      rw [List.reverse_cons, hstart.reverse_eq, List.intercalate_singleton]
    · obtain ⟨vs, hvs, hlonger, heq⟩ := exists_words_concat hsome hwords hc
      refine ⟨vs, hvs, hlonger, .inl ?_⟩
      rw [List.reverse_cons, hout, heq, List.append_assoc]
    · refine ⟨ws ++ [[c]], by simp, ?_, .inl ?_⟩
      · exact List.forall_mem_append.2 ⟨hwords, List.forall_mem_singleton.2 hone⟩
      · rw [List.reverse_cons, hout, intercalate_concat hsome]
        simp only [List.append_assoc]
  | @dash out _ hsome hlast ih =>
    right
    rcases ih with rfl | ⟨ws, hws, hwords, hout | hout⟩
    · rcases hstart with rfl | rfl
      · exact (hsome rfl).elim
      · exact (hlast rfl).elim
    · refine ⟨ws, hws, hwords, .inr ?_⟩
      rw [List.reverse_cons, hout]
    · exact (hlast (head?_eq_of_reverse_eq hout)).elim

/-- Whatever a name is made of, its kebab form is a name of the grammar. -/
theorem inGrammar_kebabChars (name : List Char) : InGrammar (kebabChars name) := by
  obtain ⟨start, body, hstart, -, -, hname⟩ := kebabChars_cases name
  obtain ⟨hjoined, hlast⟩ := (Joined.start.kebabFrom none body).dropLastDash hstart
  rw [hname]
  generalize dropLastDash (kebabFrom none start body) = out at hjoined hlast
  rcases hlast with rfl | hlast
  · exact .dashes
  · rcases hjoined.exists_words hstart with rfl | ⟨ws, hsome, hwords, hout | hout⟩
    · rcases hstart with rfl | rfl
      · exact .empty
      · exact .dashes
    · rw [hout]
      exact .words hstart hsome hwords
    · exact (hlast (head?_eq_of_reverse_eq hout)).elim

/-! Words are joined -/

theorem Joined.append_word (h : Joined start out) (hw : ∀ c ∈ w, isWordChar c = true) :
    Joined start (w.reverse ++ out) := by
  induction w generalizing out with
  | nil => exact h
  | cons c w ih =>
    rw [List.forall_mem_cons] at hw
    rw [List.reverse_cons, List.append_assoc]
    exact ih (h.word hw.1) hw.2

/-- A word does not end with a dash. -/
theorem IsWord.head?_ne (hw : IsWord w) (out : List Char) :
    (w.reverse ++ out).head? ≠ some '-' := by
  obtain ⟨c, rest, hcons⟩ := List.exists_cons_of_ne_nil (List.reverse_ne_nil_iff.2 hw.filled)
  have hmem : c ∈ w := List.mem_reverse.1 (hcons ▸ List.mem_cons_self)
  have hc := hw.spelled c hmem
  rw [hcons]
  intro heq
  obtain rfl := Option.some.inj heq
  cases hc

/-- Words can be joined one after another, and no dash comes after the last one. -/
theorem Joined.append_words (h : Joined start out) (hsome : ws ≠ [])
    (hwords : ∀ w ∈ ws, IsWord w) :
    Joined start ((['-'].intercalate ws).reverse ++ out) ∧
      ((['-'].intercalate ws).reverse ++ out).head? ≠ some '-' := by
  induction ws generalizing out with
  | nil => exact (hsome rfl).elim
  | cons w ws ih =>
    rw [List.forall_mem_cons] at hwords
    have hword := h.append_word hwords.1.spelled
    have hlast := hwords.1.head?_ne out
    by_cases hws : ws = []
    · subst hws
      rw [List.intercalate_singleton]
      exact ⟨hword, hlast⟩
    · have hfilled : w.reverse ++ out ≠ [] := by simp [hwords.1.filled]
      have htail := ih (hword.dash hfilled hlast) hws hwords.2
      have hreverse : (['-'].intercalate (w :: ws)).reverse ++ out =
          (['-'].intercalate ws).reverse ++ '-' :: (w.reverse ++ out) := by
        rw [List.intercalate_cons_of_ne_nil hws]
        simp
      rwa [hreverse]

theorem Joined.isKebab (h : Joined start out) (hstart : IsStart start) : IsKebab out := by
  induction h with
  | start => rcases hstart with rfl | rfl <;> decide
  | word _ hc ih =>
    refine List.forall_mem_cons.2 ⟨?_, ih⟩
    simp only [isWordChar, Bool.or_eq_true] at hc
    rcases hc with (hc | hc) | hc <;> simp [isKebabChar, hc]
  | dash _ _ _ ih => exact List.forall_mem_cons.2 ⟨rfl, ih⟩

theorem InGrammar.kebabChars_eq (h : InGrammar s) : kebabChars s = s := by
  cases h with
  | empty => decide
  | dashes => decide
  | @words start ws hstart hsome hwords =>
    have hnothing : Joined start start := .start
    obtain ⟨hjoined, hlast⟩ := hnothing.append_words hsome hwords
    have hfixed := hjoined.kebabChars_reverse hstart (.inr hlast) (hjoined.isKebab hstart)
    simpa [hstart.reverse_eq] using hfixed

/-- The names of the grammar are the texts that are their own kebab form. -/
theorem inGrammar_iff : InGrammar s ↔ kebabChars s = s := by
  refine ⟨InGrammar.kebabChars_eq, fun h => ?_⟩
  rw [← h]
  exact inGrammar_kebabChars s

/-! Dashes -/

theorem Joined.not_doubled (h : Joined [] out) : ¬ ['-', '-'] <:+: out := by
  induction h with
  | start => simp
  | @word out c _ hc ih =>
    intro hin
    rcases List.infix_cons_iff.1 hin with hin | hin
    · obtain rfl := (List.cons_prefix_cons.1 hin).1
      cases hc
    · exact ih hin
  | @dash out _ _ hlast ih =>
    intro hin
    rcases List.infix_cons_iff.1 hin with hin | hin
    · obtain ⟨rest, rfl⟩ := (List.cons_prefix_cons.1 hin).2
      exact hlast rfl
    · exact ih hin

end Folio.Text

namespace Folio.Tag

open Text (InGrammar)

/-- Holds of tag names as they are written: a small letter, then small letters, digits and dashes,
with no dash at the end and no two dashes in a row. -/
structure IsTidy (name : List Char) : Prop where
  first : ∃ c, name.head? = some c ∧ c.isLower = true
  spelled : ∀ c ∈ name, c.isLower = true ∨ c.isDigit = true ∨ c = '-'
  leading : name.head? ≠ some '-'
  trailing : name.getLast? ≠ some '-'
  doubled : ¬ ['-', '-'] <:+: name

variable {name : List Char}

theorem exists_first_of_isName (h : isName name = true) :
    ∃ c, name.head? = some c ∧ c.isLower = true := by
  cases name with
  | nil => cases h
  | cons c rest => exact ⟨c, rfl, (Bool.and_eq_true_iff.1 h).1⟩

/-- A name of the grammar that is a tag name has single dashes between words only. -/
theorem isTidy_of_isName (h : isName name = true) (hgrammar : InGrammar name) : IsTidy name := by
  obtain ⟨first, hfirst, hlower⟩ := exists_first_of_isName h
  have hleading : name.head? ≠ some '-' := by
    intro heq
    obtain rfl := Option.some.inj (hfirst.symm.trans heq)
    cases hlower
  have hspelled : ∀ c ∈ name, c.isLower = true ∨ c.isDigit = true ∨ c = '-' := by
    intro c hc
    have hname := isNameChar_of_isName h c hc
    simpa [isNameChar, or_assoc] using hname
  cases hgrammar with
  | empty => cases hfirst
  | dashes => exact (hleading rfl).elim
  | @words start ws hstart hsome hwords =>
    rcases hstart with rfl | rfl
    · have hnothing : Text.Joined [] [] := .start
      obtain ⟨hjoined, hlast⟩ := hnothing.append_words hsome hwords
      rw [List.append_nil] at hjoined hlast
      refine ⟨⟨first, hfirst, hlower⟩, hspelled, hleading, ?_, ?_⟩
      · rwa [List.nil_append, ← List.head?_reverse]
      · have hreversed := hjoined.not_doubled
        rwa [← List.reverse_infix, List.reverse_reverse] at hreversed
    · exact (hleading rfl).elim

end Folio.Tag

namespace Folio

/-- Taking the kebab form is a retraction onto the grammar of names. A tag that is accepted is
written with single dashes between its words, and is accepted as it is written. -/
theorem kebab_retracts (s : String) :
    Text.InGrammar (Text.kebab s).toList ∧
      (Text.InGrammar s.toList ↔ Text.kebab s = s) ∧
      Text.kebab (Text.kebab s) = Text.kebab s ∧
      ∀ name, Tag.normalize s = .ok name →
        Tag.IsTidy name.toList ∧ Tag.normalize name = .ok name := by
  have hform : Text.InGrammar (Text.kebab s).toList := by
    rw [Text.kebab, String.toList_ofList]
    exact Text.inGrammar_kebabChars s.toList
  refine ⟨hform, ?_, Text.kebab_kebab s, fun name hname => ⟨?_, ?_⟩⟩
  · rw [Text.inGrammar_iff, Text.kebab, ← String.toList_inj, String.toList_ofList]
  · obtain ⟨rfl, hvalid⟩ := Tag.normalize_eq_ok hname
    exact Tag.isTidy_of_isName hvalid hform
  · exact Tag.normalize_of_normalize hname

/-- A name of a style property, and a tag of which a dash, an underscore and two characters are
dropped. -/
theorem kebab_retracts_custom_property :
    Text.InGrammar "--accent:a-2".toList ∧ Text.kebab "--accent:a-2" = "--accent:a-2" ∧
      Tag.normalize " MyWidget__item<2>- " = .ok "my-widget-item2" ∧
      Tag.IsTidy "my-widget-item2".toList ∧
      Tag.normalize "my-widget-item2" = .ok "my-widget-item2" := by
  obtain ⟨-, hproperty, -⟩ := kebab_retracts "--accent:a-2"
  obtain ⟨-, -, -, htag⟩ := kebab_retracts " MyWidget__item<2>- "
  have hfixed : Text.kebab "--accent:a-2" = "--accent:a-2" := by decide
  have hname : Tag.normalize " MyWidget__item<2>- " = .ok "my-widget-item2" := by decide
  exact ⟨hproperty.2 hfixed, hfixed, hname, htag _ hname⟩

end Folio
