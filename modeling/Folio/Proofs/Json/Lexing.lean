import Folio.Json.Syntax

/-! The tokens of compact text. A number or a word ends only where the next token begins, so what is
stated of the text of a value is that the cutting settles: at the end of the text, and before any
punctuation, the tokens are those of the value. -/
namespace Folio.Json

/-! Numbers -/

/-- A number whose text reads back as the number. -/
def Number.ReadsBack (n : Number) : Prop := (Literal.read? n.chars).bind Literal.value? = some n

instance (n : Number) : Decidable n.ReadsBack :=
  inferInstanceAs (Decidable ((Literal.read? n.chars).bind Literal.value? = some n))

/-- The literal that a number is written as. -/
def Number.literal (n : Number) : Literal := (Literal.read? n.chars).getD ⟨false, [], none, none⟩

/-- A number whose text is a number literal. -/
def Number.Legible (n : Number) : Prop := Literal.read? n.chars = some n.literal

theorem Number.literal_eq {n : Number} {l : Literal} (h : Literal.read? n.chars = some l) :
    n.literal = l := by
  rw [literal, h, Option.getD_some]

theorem Number.legible_of_read? {n : Number} {l : Literal} (h : Literal.read? n.chars = some l) :
    n.Legible := by
  rw [Legible, literal_eq h, h]

theorem Number.ReadsBack.legible {n : Number} (h : n.ReadsBack) : n.Legible := by
  obtain ⟨l, hl, -⟩ := Option.bind_eq_some_iff.1 h
  exact legible_of_read? hl

theorem Number.ReadsBack.value? {n : Number} (h : n.ReadsBack) : n.literal.value? = some n := by
  obtain ⟨l, hl, hvalue⟩ := Option.bind_eq_some_iff.1 h
  rwa [literal_eq hl]

namespace Literal

open Token (isNumberChar)

theorem isNumberChar_of_isDigit {c : Char} (h : c.isDigit = true) : isNumberChar c = true := by
  simp [isNumberChar, h]

variable {s : List Char}

theorem isNumberChar_of_readExponent {e : Option Int} (h : readExponent? s = some e) :
    ∀ c ∈ s, isNumberChar c = true := by
  cases s with
  | nil => exact nofun
  | cons mark s =>
    have hdigits : ∀ ds : List Char, ¬ (ds.isEmpty || !ds.all Char.isDigit) = true →
        ∀ c ∈ ds, isNumberChar c = true := by
      intro ds hds c hc
      simp only [Bool.or_eq_true, Bool.not_eq_true', not_or, Bool.not_eq_false] at hds
      exact isNumberChar_of_isDigit (List.all_eq_true.1 hds.2 c hc)
    unfold readExponent? at h
    dsimp only at h
    split at h
    · next hmark =>
      refine List.forall_mem_cons.2 ⟨?_, ?_⟩
      · rcases hmark with rfl | rfl <;> rfl
      · split at h
        all_goals
          split at h
          · cases h
          · next hds =>
            first
            | exact hdigits _ hds
            | exact List.forall_mem_cons.2 ⟨rfl, hdigits _ hds⟩
    · cases h

/-- Holds of texts that are made of the characters that continue a number and start with one that
begins a number. -/
structure IsNumeric (s : List Char) : Prop where
  all : ∀ c ∈ s, isNumberChar c = true
  first : ∃ c rest, s = c :: rest ∧ (c.isDigit = true ∨ c = '-')

/-- Digits, and what follows them in a number. -/
theorem isNumeric_append {whole rest : List Char} (hsome : whole ≠ [])
    (hwhole : ∀ c ∈ whole, c.isDigit = true) (hrest : ∀ c ∈ rest, isNumberChar c = true) :
    IsNumeric (whole ++ rest) := by
  obtain ⟨c, digits, rfl⟩ := List.exists_cons_of_ne_nil hsome
  refine ⟨List.forall_mem_append.2 ⟨fun d hd => ?_, hrest⟩, c, digits ++ rest, rfl, .inl ?_⟩
  · exact isNumberChar_of_isDigit (hwhole d hd)
  · exact hwhole c List.mem_cons_self

theorem isNumeric_of_sign {negative : Bool} {body : List Char} (hbody : IsNumeric body)
    (h : (match s with
      | '-' :: s => (true, s)
      | s => (false, s)) = (negative, body)) : IsNumeric s := by
  split at h <;> cases h
  · exact ⟨List.forall_mem_cons.2 ⟨rfl, hbody.all⟩, '-', _, rfl, .inr rfl⟩
  · exact hbody

theorem isNumeric_of_read {l : Literal} (h : read? s = some l) : IsNumeric s := by
  have hdigits : ∀ {s whole rest : List Char}, takeDigits s = (whole, rest) →
      whole ++ rest = s ∧ ∀ c ∈ whole, c.isDigit = true := by
    rintro s whole rest ⟨⟩
    exact ⟨List.takeWhile_append_dropWhile, fun c => List.all_eq_true.1 List.all_takeWhile c⟩
  revert h
  fun_cases read? s with
  | case1 | case2 | case3 => exact nofun
  | case4 negative body hsign whole rest fraction tail hfraction _ hsome _ hwhole =>
    intro h
    obtain ⟨e, he, -⟩ := Option.map_eq_some_iff.1 h
    obtain ⟨rfl, hall⟩ := hdigits hwhole
    obtain ⟨rfl, hplaces⟩ := hdigits hfraction
    refine isNumeric_of_sign (isNumeric_append hsome hall ?_) hsign
    refine List.forall_mem_cons.2 ⟨rfl, List.forall_mem_append.2 ⟨fun c hc => ?_, ?_⟩⟩
    · exact isNumberChar_of_isDigit (hplaces c hc)
    · exact isNumberChar_of_readExponent he
  | case5 negative body hsign whole rest _ hsome _ hwhole =>
    intro h
    obtain ⟨e, he, -⟩ := Option.map_eq_some_iff.1 h
    obtain ⟨rfl, hall⟩ := hdigits hwhole
    exact isNumeric_of_sign (isNumeric_append hsome hall (isNumberChar_of_readExponent he)) hsign

end Literal

/-! Cutting -/

namespace Token

variable {cut : Cut} {ts : List Token} {c : Char}

/-- A cutting that has come to tokens, reversed: they are the tokens if the text ends here, and
punctuation that follows is read as if between tokens. -/
structure Settles (cut : Cut) (ts : List Token) : Prop where
  finish : finish cut = some ts.reverse
  feed : ∀ c t, punctuation? c = some t → feed cut c = some ⟨t :: ts, .between⟩

theorem punctuation_cases {t : Token} (h : punctuation? c = some t) :
    c = '[' ∨ c = ']' ∨ c = '\x7b' ∨ c = '\x7d' ∨ c = ',' ∨ c = ':' := by
  unfold punctuation? at h
  split at h <;> simp_all

theorem start_punctuation {t : Token} (h : punctuation? c = some t) :
    start ts c = some ⟨t :: ts, .between⟩ := by
  rcases punctuation_cases h with rfl | rfl | rfl | rfl | rfl | rfl <;> cases h <;> rfl

theorem settles_between (ts : List Token) : Settles ⟨ts, .between⟩ ts :=
  ⟨rfl, fun _ _ h => start_punctuation h⟩

theorem settles_word (w : List Char) (ts : List Token) :
    Settles ⟨ts, .word w⟩ (.word w.reverse :: ts) := by
  refine ⟨rfl, fun c t h => ?_⟩
  have halpha : c.isAlpha = false := by
    rcases punctuation_cases h with rfl | rfl | rfl | rfl | rfl | rfl <;> rfl
  simp only [Token.feed, halpha]
  exact start_punctuation h

theorem settles_number {w : List Char} {l : Literal} (hl : Literal.read? w.reverse = some l)
    (ts : List Token) : Settles ⟨ts, .number w⟩ (.number l :: ts) := by
  refine ⟨by simp [Token.finish, hl], fun c t h => ?_⟩
  have hnumber : isNumberChar c = false := by
    rcases punctuation_cases h with rfl | rfl | rfl | rfl | rfl | rfl <;> rfl
  simp only [Token.feed, hnumber, hl]
  exact start_punctuation h

/-! Numbers and strings -/

theorem foldlM_number {w s : List Char} (h : ∀ c ∈ s, isNumberChar c = true) :
    s.foldlM Token.feed ⟨ts, .number w⟩ = some ⟨ts, .number (s.reverse ++ w)⟩ := by
  induction s generalizing w with
  | nil => rfl
  | cons c s ih =>
    rw [List.forall_mem_cons] at h
    have hfeed : Token.feed ⟨ts, .number w⟩ c = some ⟨ts, .number (c :: w)⟩ := by
      simp [Token.feed, h.1]
    rw [List.foldlM_cons, hfeed]
    simp [ih h.2]

/-- The text of a literal is one token. -/
theorem foldlM_literal {s : List Char} {l : Literal} (h : Literal.read? s = some l)
    (ts : List Token) :
    ∃ cut, s.foldlM Token.feed ⟨ts, .between⟩ = some cut ∧ Settles cut (.number l :: ts) := by
  obtain ⟨hall, c, rest, rfl, hc⟩ := Literal.isNumeric_of_read h
  rw [List.forall_mem_cons] at hall
  have hstart : start ts c = some ⟨ts, .number [c]⟩ := by
    have hspace : isSpace c = false ∧ c ≠ '"' := by
      rcases hc with hc | rfl
      · refine ⟨?_, ?_⟩
        · simp only [isSpace, Bool.or_eq_false_iff, beq_eq_false_iff_ne]
          refine ⟨⟨⟨?_, ?_⟩, ?_⟩, ?_⟩ <;> rintro rfl <;> cases hc
        · rintro rfl
          cases hc
      · exact ⟨rfl, by decide⟩
    simp [start, hspace.1, hspace.2, hc]
  refine ⟨⟨ts, .number (rest.reverse ++ [c])⟩, ?_, settles_number (by simpa using h) ts⟩
  have hfeed : Token.feed ⟨ts, .between⟩ c = some ⟨ts, .number [c]⟩ := hstart
  rw [List.foldlM_cons, hfeed]
  exact foldlM_number hall.2

theorem hexDigits_twoHex : ∀ n < 0x20,
    (match twoHex n with
      | [c, d] => (hexDigit? c).bind fun a => (hexDigit? d).map fun b => a * 16 + b
      | _ => none) = some n := by
  decide +kernel

/-- A `\u` escape of a control character. -/
theorem foldlM_control {n : Nat} (hn : n < 0x20) (cs : List Char) :
    (['\\', 'u', '0', '0'] ++ twoHex n).foldlM Token.feed ⟨ts, .string (some cs) none .plain⟩ =
      some ⟨ts, .string (some (Char.ofNat n :: cs)) none .plain⟩ := by
  have hunit : addUnit (some cs) none n = .string (some (Char.ofNat n :: cs)) none .plain := by
    rw [addUnit, if_neg (by omega), if_neg (by omega), Option.map_some]
  have hdigits := hexDigits_twoHex n hn
  split at hdigits
  · next c d heq =>
    obtain ⟨a, ha, hb⟩ := Option.bind_eq_some_iff.1 hdigits
    obtain ⟨b, hb, hvalue⟩ := Option.map_eq_some_iff.1 hb
    have hprefix : ['\\', 'u', '0', '0'].foldlM Token.feed ⟨ts, .string (some cs) none .plain⟩ =
        some ⟨ts, .string (some cs) none (.unit 0 2)⟩ := rfl
    have hc : Token.feed ⟨ts, .string (some cs) none (.unit 0 2)⟩ c =
        some ⟨ts, .string (some cs) none (.unit a 3)⟩ := by simp [Token.feed, ha]
    have hd : Token.feed ⟨ts, .string (some cs) none (.unit a 3)⟩ d =
        some ⟨ts, addUnit (some cs) none n⟩ := by simp [Token.feed, hb, hvalue]
    rw [heq, List.foldlM_append, hprefix]
    simp [hc, hd, hunit]
  · cases hdigits

/-- A character of a string literal, as it is escaped. -/
theorem foldlM_escapeChar (cs : List Char) (c : Char) :
    (escapeChar c).foldlM Token.feed ⟨ts, .string (some cs) none .plain⟩ =
      some ⟨ts, .string (some (c :: cs)) none .plain⟩ := by
  unfold escapeChar
  split
  · next h => subst h; rfl
  next hquote =>
  split
  · next h => subst h; rfl
  next hslash =>
  split
  · next h => subst h; rfl
  split
  · next h => subst h; rfl
  split
  · next h => subst h; rfl
  split
  · next h => subst h; rfl
  split
  · next h => subst h; rfl
  split
  · next hcontrol => rw [foldlM_control hcontrol, Char.ofNat_toNat]
  · next hcontrol => simp [Token.feed, hquote, hslash, hcontrol, addChar]

theorem foldlM_escapeChars (cs s : List Char) :
    (s.flatMap escapeChar).foldlM Token.feed ⟨ts, .string (some cs) none .plain⟩ =
      some ⟨ts, .string (some (s.reverse ++ cs)) none .plain⟩ := by
  induction s generalizing cs with
  | nil => rfl
  | cons c s ih =>
    rw [List.flatMap_cons, List.foldlM_append, foldlM_escapeChar]
    simp [ih]

/-- The text of a string is one token. -/
theorem foldlM_stringChars (s : String) (ts : List Token) :
    (stringChars s).foldlM Token.feed ⟨ts, .between⟩ =
      some ⟨.string (some s) :: ts, .between⟩ := by
  have hopen : Token.feed ⟨ts, .between⟩ '"' = some ⟨ts, .string (some []) none .plain⟩ := rfl
  have hclose : Token.feed ⟨ts, .string (some s.toList.reverse) none .plain⟩ '"' =
      some ⟨.string (some s) :: ts, .between⟩ := by
    simp [Token.feed]
  rw [stringChars, List.cons_append, List.foldlM_cons, hopen]
  simp [foldlM_escapeChars, hclose]

end Token

end Folio.Json
