import Folio.Proofs.Text.Escape

/-! Escaped texts read back. Every ampersand of an escaped text starts an entity, so decoding them
from left to right gives the text that was escaped, also if that looks escaped itself. Characters
are escaped one by one, so it does not matter where a text is cut, nor which of its parts are lent
out as they are. -/
namespace Folio.Text

variable {c d : Char} {s t u : List Char}

/-- The entities that escaping writes. -/
def entities : List (List Char) :=
  ["&amp;", "&lt;", "&gt;", "&quot;", "&#x27;"].map String.toList

theorem hasEntity_eq_false_iff :
    hasEntity c = false ↔ c ≠ '&' ∧ c ≠ '<' ∧ c ≠ '>' ∧ c ≠ '"' ∧ c ≠ '\'' := by
  simp [hasEntity, and_assoc]

/-- An entity has one ampersand, the first of its characters. -/
theorem entity_of_hasEntity (h : hasEntity c = true) :
    ∃ e, entity c = '&' :: e ∧ '&' ∉ e ∧ '&' :: e ∈ entities := by
  simp only [hasEntity, Bool.or_eq_true, beq_iff_eq] at h
  rcases h with (((rfl | rfl) | rfl) | rfl) | rfl
  · exact ⟨_, rfl, by decide, by decide⟩
  · exact ⟨_, rfl, by decide, by decide⟩
  · exact ⟨_, rfl, by decide, by decide⟩
  · exact ⟨_, rfl, by decide, by decide⟩
  · exact ⟨_, rfl, by decide, by decide⟩

theorem suffix_of_suffix_append (hd : d ∉ s) (h : d :: t <:+ s ++ u) : d :: t <:+ u := by
  induction s with
  | nil => exact h
  | cons c s ih =>
    rw [List.mem_cons, not_or] at hd
    rw [List.cons_append, List.suffix_cons_iff] at h
    rcases h with h | h
    · exact (hd.1 (List.cons.inj h).1).elim
    · exact ih hd.2 h

/-- Every ampersand of an escaped text starts an entity. -/
theorem exists_entity_prefix (h : '&' :: t <:+ escapeChars s) :
    ∃ e ∈ entities, e <+: '&' :: t := by
  induction s with
  | nil => cases List.suffix_nil.1 h
  | cons c s ih =>
    rw [escapeChars_cons] at h
    cases hc : hasEntity c with
    | true =>
      -- the ampersand is the one of this entity, or stands behind it
      obtain ⟨e, he, honly, hentity⟩ := entity_of_hasEntity hc
      rw [he, List.cons_append, List.suffix_cons_iff] at h
      rcases h with h | h
      · exact ⟨_, hentity, h ▸ List.prefix_append ..⟩
      · exact ih (suffix_of_suffix_append honly h)
    | false =>
      have hother : '&' ∉ [c] := by
        simpa using Ne.symm (hasEntity_eq_false_iff.1 hc).1
      rw [entity_of_not_hasEntity hc] at h
      exact ih (suffix_of_suffix_append hother h)

/-- A text is lent out as it is if nothing in it has an entity, and is written anew otherwise. -/
theorem escaped_cases (s : String) :
    (escaped s = .borrowed s ∧ ∀ c ∈ s.toList, hasEntity c = false) ∨
      (escaped s = .owned (String.ofList (escapeChars s.toList)) ∧
        ∃ c ∈ s.toList, hasEntity c = true) := by
  unfold escaped
  split
  · next hsome => exact .inr ⟨rfl, by simpa using hsome⟩
  · next hnone => exact .inl ⟨rfl, by simpa using hnone⟩

theorem unescape_escape (s : String) : unescape (escape s).toList = s := by
  rw [toList_escape, unescape_escapeChars]

theorem escape_append (a b : String) : escape (a ++ b) = escape a ++ escape b := by
  rw [← String.toList_inj, String.toList_append, toList_escape, toList_escape, toList_escape,
    String.toList_append]
  exact List.flatMap_append

/-- An escaped text has no delimiter of tags and values, every ampersand in it starts one of the
five entities, and decoding them from left to right gives back the text itself. So no two texts have
the same escaped form, and the form of two texts in a row is made of their forms, each of which is
the text itself if nothing in it has an entity, and a new text otherwise. -/
theorem escape_faithful :
    (∀ s : String,
      (∀ c ∈ (escape s).toList, c ≠ '<' ∧ c ≠ '>' ∧ c ≠ '"' ∧ c ≠ '\'') ∧
      (∀ rest, '&' :: rest <:+ (escape s).toList → ∃ e ∈ entities, e <+: '&' :: rest) ∧
      unescape (escape s).toList = s) ∧
    Function.Injective escape ∧
    (∀ a b : String, (escaped (a ++ b)).text = (escaped a).text ++ (escaped b).text) ∧
    ∀ s : String,
      (escaped s = .borrowed s ∧
        ∀ c ∈ s.toList, c ≠ '&' ∧ c ≠ '<' ∧ c ≠ '>' ∧ c ≠ '"' ∧ c ≠ '\'') ∨
      (escaped s = .owned (escape s) ∧
        ∃ c ∈ s.toList, c = '&' ∨ c = '<' ∨ c = '>' ∨ c = '"' ∨ c = '\'') := by
  refine ⟨fun s => ⟨fun c hc => ?_, fun rest h => ?_, unescape_escape s⟩, fun a b h => ?_,
    escape_append, fun s => ?_⟩
  · rw [toList_escape] at hc
    exact ne_of_mem_escapeChars hc
  · rw [toList_escape] at h
    exact exists_entity_prefix h
  · have hread := unescape_escape a
    rw [h, unescape_escape b] at hread
    exact hread.symm
  · rcases escaped_cases s with ⟨hpath, hplain⟩ | ⟨hpath, c, hc, hspecial⟩
    · exact .inl ⟨hpath, fun c hc => hasEntity_eq_false_iff.1 (hplain c hc)⟩
    · have htext : escape s = String.ofList (escapeChars s.toList) := by
        rw [escape, hpath, Escaped.text]
      refine .inr ⟨by rw [hpath, htext], c, hc, ?_⟩
      simpa [hasEntity, or_assoc] using hspecial

/-- A text that looks escaped already, in front of one that needs no entity. -/
theorem escape_faithful_twice :
    escape "&lt;'" = "&amp;lt;&#x27;" ∧ unescape "&amp;lt;&#x27;".toList = "&lt;'" ∧
      '&' :: "#x27;".toList <:+ "&amp;lt;&#x27;".toList ∧
      (∃ e ∈ entities, e <+: '&' :: "#x27;".toList) ∧
      (escaped ("&lt;'" ++ "; b")).text = "&amp;lt;&#x27;" ++ "; b" ∧
      escaped "; b" = .borrowed "; b" := by
  obtain ⟨hforms, -, happend, -⟩ := escape_faithful
  obtain ⟨-, hentity, hread⟩ := hforms "&lt;'"
  have hform : escape "&lt;'" = "&amp;lt;&#x27;" := by decide
  have hlent : escaped "; b" = .borrowed "; b" := by decide
  have hsuffix : '&' :: "#x27;".toList <:+ "&amp;lt;&#x27;".toList := by decide
  rw [hform] at hentity hread
  refine ⟨hform, hread, hsuffix, hentity _ hsuffix, ?_, hlent⟩
  rw [happend, ← escape, hform, hlent]
  rfl

end Folio.Text
