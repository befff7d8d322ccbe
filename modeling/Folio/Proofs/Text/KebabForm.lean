import Folio.Markup.Tag
import Folio.Proofs.Text.Kebab
import Folio.Proofs.Text.Trim

/-! Kebab names are in normal form: reading one again, as a name or as a tag, gives it back. -/
namespace Folio.Text

variable {start out s : List Char} {c : Char}

/-- Small letters, digits and colons, of which the words of a kebab name are made. -/
def isWordChar (c : Char) : Bool := c.isLower || c.isDigit || c == ':'

/-- Reversed names that go on from `start` with words and single dashes. -/
inductive Joined (start : List Char) : List Char → Prop
  | start : Joined start start
  | word {out : List Char} {c : Char} (h : Joined start out) (hc : isWordChar c = true) :
    Joined start (c :: out)
  | dash {out : List Char} (h : Joined start out) (hsome : out ≠ [])
    (hlast : out.head? ≠ some '-') : Joined start ('-' :: out)

/-! What is read is joined -/

theorem Joined.joinDash (h : Joined start out) : Joined start (joinDash out) := by
  unfold Text.joinDash
  split
  · exact h
  · exact h
  · next hnil hdash =>
    refine .dash h hnil fun hlast => ?_
    obtain ⟨rest, rfl⟩ := List.head?_eq_some_iff.1 hlast
    exact hdash rest rfl

theorem Joined.kebabStep (h : Joined start out) (previous : Option Char) (c : Char) :
    Joined start (kebabStep previous out c) := by
  unfold Text.kebabStep
  split
  · next hupper =>
    have hlower : isWordChar c.toLower = true := by simp [isWordChar, isLower_toLower hupper]
    split
    · exact h.joinDash.word hlower
    · exact h.word hlower
  · split
    · next hword => exact h.word hword
    · split
      · exact h.joinDash
      · exact h

theorem Joined.kebabFrom (h : Joined start out) (previous : Option Char) (s : List Char) :
    Joined start (kebabFrom previous out s) := by
  induction s generalizing previous out with
  | nil => exact h
  | cons c s ih => exact ih (h.kebabStep previous c) (some c)

/-- The two ways in which a name starts. -/
def IsStart (start : List Char) : Prop := start = [] ∨ start = ['-', '-']

theorem Joined.dropLastDash (h : Joined start out) (hstart : IsStart start) :
    Joined start (dropLastDash out) ∧
      (dropLastDash out = ['-', '-'] ∨ (dropLastDash out).head? ≠ some '-') := by
  unfold Text.dropLastDash
  split
  · exact ⟨h, .inl rfl⟩
  · next rest hrest =>
    cases h with
    | start =>
      rcases hstart with hstart | hstart
      · cases hstart
      · obtain rfl := (List.cons.inj hstart).2
        exact (hrest rfl).elim
    | word _ hc => cases hc
    | dash h _ hlast => exact ⟨h, .inr hlast⟩
  · next hdash =>
    refine ⟨h, .inr fun hlast => ?_⟩
    obtain ⟨rest, rfl⟩ := List.head?_eq_some_iff.1 hlast
    exact hdash rest rfl

/-! What is joined is read as it is -/

/-- Digits and the colon, or small letters. -/
theorem toNat_of_isWordChar (h : isWordChar c = true) :
    (48 ≤ c.toNat ∧ c.toNat ≤ 58) ∨ (97 ≤ c.toNat ∧ c.toNat ≤ 122) := by
  simp only [isWordChar, Bool.or_eq_true, beq_iff_eq] at h
  rcases h with (h | h) | rfl
  · exact .inr (toNat_of_isLower h)
  · exact .inl ((toNat_of_isDigit h).imp_right Nat.le_succ_of_le)
  · exact .inl (by decide)

theorem isUpper_of_isWordChar (h : isWordChar c = true) : c.isUpper = false := by
  refine Bool.eq_false_iff.2 fun hupper => ?_
  have hcapital := toNat_of_isUpper hupper
  have hrange := toNat_of_isWordChar h
  omega

theorem kebabStep_word (hc : isWordChar c = true) (previous : Option Char) (out : List Char) :
    kebabStep previous out c = c :: out := by
  have hkept : (c.isLower || c.isDigit || c == ':') = true := hc
  rw [kebabStep, isUpper_of_isWordChar hc, if_neg Bool.false_ne_true, if_pos hkept]

theorem kebabStep_dash (hsome : out ≠ []) (hlast : out.head? ≠ some '-')
    (previous : Option Char) : kebabStep previous out '-' = '-' :: out := by
  have hstep : kebabStep previous out '-' = joinDash out := rfl
  rw [hstep]
  unfold joinDash
  split
  · exact (hsome rfl).elim
  · exact (hlast rfl).elim
  · rfl

theorem exists_kebabFrom_concat (previous : Option Char) (out s : List Char) (c : Char) :
    ∃ q, kebabFrom previous out (s ++ [c]) = kebabStep q (kebabFrom previous out s) c := by
  induction s generalizing previous out with
  | nil => exact ⟨previous, rfl⟩
  | cons d s ih => exact ih (some d) (kebabStep previous out d)

/-- What was joined to the start is read back, whatever stands before it. -/
theorem Joined.kebabFrom_eq (h : Joined start out) :
    ∃ s, out = s.reverse ++ start ∧ ∀ previous, Text.kebabFrom previous start s = out := by
  induction h with
  | start => exact ⟨[], rfl, fun _ => rfl⟩
  | @word out c h hc ih =>
    obtain ⟨s, hout, hread⟩ := ih
    refine ⟨s ++ [c], by simp [hout], fun previous => ?_⟩
    obtain ⟨q, hq⟩ := exists_kebabFrom_concat previous start s c
    rw [hq, hread, kebabStep_word hc]
  | @dash out h hsome hlast ih =>
    obtain ⟨s, hout, hread⟩ := ih
    refine ⟨s ++ ['-'], by simp [hout], fun previous => ?_⟩
    obtain ⟨q, hq⟩ := exists_kebabFrom_concat previous start s '-'
    rw [hq, hread, kebabStep_dash hsome hlast]

theorem isBlank_of_isKebabChar (h : isKebabChar c = true) : isBlank c = false := by
  have hbound : 45 ≤ c.toNat ∧ c.toNat ≤ 122 := by
    by_cases hdash : c = '-'
    · subst hdash
      decide
    · have hword : isWordChar c = true := by simpa [isKebabChar, isWordChar, hdash] using h
      have := toNat_of_isWordChar hword
      omega
  exact isBlank_of_ascii (by omega) (by omega)

theorem IsKebab.trim_eq (h : IsKebab s) : trim s = s :=
  (isTrimmed_of_forall fun c hc => isBlank_of_isKebabChar (h c hc)).trim_eq

theorem dropLastDash_eq_self (h : out = ['-', '-'] ∨ out.head? ≠ some '-') :
    dropLastDash out = out := by
  unfold dropLastDash
  split
  · rfl
  · next rest hrest =>
    rcases h with h | h
    · obtain rfl := (List.cons.inj h).2
      exact (hrest rfl).elim
    · exact (h rfl).elim
  · rfl

/-- A name that goes on from nothing does not start with a dash. -/
theorem Joined.head?_reverse_ne (h : Joined [] out) : out.reverse.head? ≠ some '-' := by
  induction h with
  | start => simp
  | @word out c _ hc ih =>
    rw [List.reverse_cons, List.head?_append]
    cases hfirst : out.reverse.head? with
    | none =>
      rintro heq
      obtain rfl : c = '-' := by simpa using heq
      cases hc
    | some d => simpa [hfirst] using ih
  | @dash out _ hsome _ ih =>
    obtain ⟨c, rest, hcons⟩ := List.exists_cons_of_ne_nil (List.reverse_ne_nil_iff.2 hsome)
    rw [hcons] at ih
    rw [List.reverse_cons, hcons]
    exact ih

/-- The two ways in which a name is read. -/
theorem kebabChars_cases (name : List Char) :
    ∃ start body, IsStart start ∧ start ++ body = trim name ∧
      (start = [] → ∀ rest, trim name ≠ '-' :: '-' :: rest) ∧
      kebabChars name = (dropLastDash (kebabFrom none start body)).reverse := by
  unfold kebabChars
  split
  · next body hbody => exact ⟨['-', '-'], body, .inr rfl, hbody.symm, nofun, rfl⟩
  · next hother => exact ⟨[], trim name, .inl rfl, rfl, fun _ => hother, rfl⟩

theorem Joined.kebabChars_reverse (h : Joined start out) (hstart : IsStart start)
    (hlast : out = ['-', '-'] ∨ out.head? ≠ some '-') (hkebab : IsKebab out) :
    kebabChars out.reverse = out.reverse := by
  obtain ⟨s, hout, hread⟩ := h.kebabFrom_eq
  have hreverse : out.reverse = start ++ s := by
    rcases hstart with rfl | rfl <;> simp [hout]
  obtain ⟨start', body, hstart', hsplit, hplain, heq⟩ := kebabChars_cases out.reverse
  rw [hkebab.reverse.trim_eq] at hsplit hplain
  have hsame : start' = start ∧ body = s := by
    rcases hstart with rfl | rfl <;> rcases hstart' with rfl | rfl
    · exact ⟨rfl, hsplit.trans hreverse⟩
    · have hfirst := h.head?_reverse_ne
      rw [← hsplit] at hfirst
      exact (hfirst rfl).elim
    · exact (hplain rfl s hreverse).elim
    · exact ⟨rfl, List.append_cancel_left (hsplit.trans hreverse)⟩
  obtain ⟨rfl, rfl⟩ := hsame
  rw [heq, hread, dropLastDash_eq_self hlast]

theorem kebabChars_kebabChars (name : List Char) :
    kebabChars (kebabChars name) = kebabChars name := by
  obtain ⟨start, body, hstart, -, -, hname⟩ := kebabChars_cases name
  obtain ⟨hjoined, hlast⟩ := (Joined.start.kebabFrom none body).dropLastDash hstart
  have hkebab : IsKebab (dropLastDash (kebabFrom none start body)) := by
    have := (isKebab_kebabChars name).reverse
    rwa [hname, List.reverse_reverse] at this
  rw [hname]
  exact hjoined.kebabChars_reverse hstart hlast hkebab

/-- The kebab form of a name is its own kebab form. -/
theorem kebab_kebab (name : String) : kebab (kebab name) = kebab name := by
  simp only [kebab, String.toList_ofList, kebabChars_kebabChars]

/-- Holds of names that attributes are set under: kebab forms that did not come to nothing. -/
structure IsAttributeName (name : String) : Prop where
  normal : kebab name = name
  named : name ≠ ""

theorem IsAttributeName.isKebab {name : String} (h : IsAttributeName name) :
    IsKebab name.toList := by
  rw [← h.normal]
  exact isKebab_kebab name

theorem isAttributeName_id : IsAttributeName "id" := ⟨by decide, by decide⟩

theorem isAttributeName_class : IsAttributeName "class" := ⟨by decide, by decide⟩

end Folio.Text

namespace Folio.Tag

theorem isNameChar_of_isName {name : List Char} (h : isName name = true) :
    ∀ c ∈ name, isNameChar c = true := by
  cases name with
  | nil => cases h
  | cons c name =>
    rw [isName, Bool.and_eq_true, List.all_eq_true] at h
    refine List.forall_mem_cons.2 ⟨?_, h.2⟩
    rw [isNameChar, h.1]
    rfl

theorem isKebab_of_isName {name : List Char} (h : isName name = true) : Text.IsKebab name := by
  intro c hc
  have hname := isNameChar_of_isName h c hc
  rw [isNameChar] at hname
  rw [Text.isKebabChar, hname, Bool.true_or]

variable {tag name : String}

theorem normalize_eq_ok (h : normalize tag = .ok name) :
    name = Text.kebab tag ∧ isName name.toList = true := by
  unfold normalize at h
  split at h
  · cases h
  · simp only at h
    split at h
    · next hname =>
      obtain rfl := Except.ok.inj h
      exact ⟨rfl, hname⟩
    · cases h

theorem isBlankText_of_isName (h : isName name.toList = true) :
    Text.isBlankText name = false := by
  unfold Text.isBlankText
  cases hname : name.toList with
  | nil =>
    rw [hname] at h
    cases h
  | cons c s =>
    rw [hname, isName, Bool.and_eq_true] at h
    have hkebab : Text.isKebabChar c = true := by simp [Text.isKebabChar, h.1]
    rw [List.all_cons, Text.isBlank_of_isKebabChar hkebab, Bool.false_and]

/-- A tag name that was found valid is found valid again. -/
theorem normalize_of_normalize (h : normalize tag = .ok name) : normalize name = .ok name := by
  obtain ⟨rfl, hname⟩ := normalize_eq_ok h
  rw [normalize, isBlankText_of_isName hname, if_neg Bool.false_ne_true, Text.kebab_kebab,
    if_pos hname]

end Folio.Tag
