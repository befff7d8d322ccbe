import Folio.Text.Escape

/-! The entities of an escaped text read back, and the characters that escaping leaves no trace of.
-/
namespace Folio.Text

/-- Puts its character for each entity, from left to right. -/
def unescapeChars : List Char → List Char
  | '&' :: 'a' :: 'm' :: 'p' :: ';' :: s => '&' :: unescapeChars s
  | '&' :: 'l' :: 't' :: ';' :: s => '<' :: unescapeChars s
  | '&' :: 'g' :: 't' :: ';' :: s => '>' :: unescapeChars s
  | '&' :: 'q' :: 'u' :: 'o' :: 't' :: ';' :: s => '"' :: unescapeChars s
  | '&' :: '#' :: 'x' :: '2' :: '7' :: ';' :: s => '\'' :: unescapeChars s
  | c :: s => c :: unescapeChars s
  | [] => []

def unescape (s : List Char) : String := String.ofList (unescapeChars s)

theorem unescapeChars_cons {c : Char} (h : c ≠ '&') (s : List Char) :
    unescapeChars (c :: s) = c :: unescapeChars s := by
  conv => lhs; unfold unescapeChars
  split <;> simp_all

/-- A character either has an entity that stands for it, or it is written as it is. -/
theorem entity_cases (c : Char) :
    (∃ e, entity c = '&' :: e ∧ (∀ s, unescapeChars ('&' :: e ++ s) = c :: unescapeChars s) ∧
      ∀ d ∈ e, d ≠ '<' ∧ d ≠ '>' ∧ d ≠ '"' ∧ d ≠ '\'') ∨
    (entity c = [c] ∧ c ≠ '&' ∧ c ≠ '<' ∧ c ≠ '>' ∧ c ≠ '"' ∧ c ≠ '\'') := by
  by_cases hamp : c = '&'
  · subst hamp
    exact .inl ⟨['a', 'm', 'p', ';'], rfl, fun s => by simp [unescapeChars], by simp⟩
  by_cases hlt : c = '<'
  · subst hlt
    exact .inl ⟨['l', 't', ';'], rfl, fun s => by simp [unescapeChars], by simp⟩
  by_cases hgt : c = '>'
  · subst hgt
    exact .inl ⟨['g', 't', ';'], rfl, fun s => by simp [unescapeChars], by simp⟩
  by_cases hquot : c = '"'
  · subst hquot
    exact .inl ⟨['q', 'u', 'o', 't', ';'], rfl, fun s => by simp [unescapeChars], by simp⟩
  by_cases hapos : c = '\''
  · subst hapos
    exact .inl ⟨['#', 'x', '2', '7', ';'], rfl, fun s => by simp [unescapeChars], by simp⟩
  refine .inr ⟨?_, hamp, hlt, hgt, hquot, hapos⟩
  unfold entity
  split <;> simp_all

theorem escapeChars_cons (c : Char) (s : List Char) :
    escapeChars (c :: s) = entity c ++ escapeChars s := List.flatMap_cons

/-- Reading an escaped text back ends where the text ends. -/
theorem unescapeChars_escapeChars_append (s rest : List Char) :
    unescapeChars (escapeChars s ++ rest) = s ++ unescapeChars rest := by
  induction s with
  | nil => rfl
  | cons c s ih =>
    rw [escapeChars_cons, List.append_assoc]
    rcases entity_cases c with ⟨e, he, hread, -⟩ | ⟨he, hc, -⟩
    · rw [he, hread, ih, List.cons_append]
    · rw [he, List.singleton_append, unescapeChars_cons hc, ih, List.cons_append]

theorem unescapeChars_escapeChars (s : List Char) : unescapeChars (escapeChars s) = s := by
  simpa [unescapeChars] using unescapeChars_escapeChars_append s []

theorem unescape_escapeChars (s : String) : unescape (escapeChars s.toList) = s := by
  rw [unescape, unescapeChars_escapeChars, String.ofList_toList]

/-- An escaped text has none of the characters that delimit tags and values. -/
theorem ne_of_mem_escapeChars {d : Char} {s : List Char} (h : d ∈ escapeChars s) :
    d ≠ '<' ∧ d ≠ '>' ∧ d ≠ '"' ∧ d ≠ '\'' := by
  obtain ⟨c, -, hd⟩ := List.mem_flatMap.1 h
  rcases entity_cases c with ⟨e, he, -, hplain⟩ | ⟨he, -, hplain⟩
  · rw [he] at hd
    rcases List.mem_cons.1 hd with rfl | hd
    · decide
    · exact hplain d hd
  · rw [he] at hd
    obtain rfl := List.mem_singleton.1 hd
    exact hplain

theorem escapeChars_eq_nil_iff {s : List Char} : escapeChars s = [] ↔ s = [] := by
  constructor
  · intro h
    rw [← unescapeChars_escapeChars s, h]
    rfl
  · rintro rfl
    rfl

/-! Both ways of escaping -/

theorem entity_of_not_hasEntity {c : Char} (h : hasEntity c = false) : entity c = [c] := by
  unfold entity
  split <;> simp_all [hasEntity]

/-- A text in which nothing has an entity is escaped as it stands. -/
theorem escapeChars_eq_self {s : List Char} (h : ∀ c ∈ s, hasEntity c = false) :
    escapeChars s = s := by
  induction s with
  | nil => rfl
  | cons c s ih =>
    rw [List.forall_mem_cons] at h
    rw [escapeChars_cons, entity_of_not_hasEntity h.1, ih h.2, List.singleton_append]

theorem toList_escape (s : String) : (escape s).toList = escapeChars s.toList := by
  unfold escape escaped
  split
  · exact String.toList_ofList
  · next hnone =>
    have hplain : ∀ c ∈ s.toList, hasEntity c = false := by simpa using hnone
    exact (escapeChars_eq_self hplain).symm

end Folio.Text
