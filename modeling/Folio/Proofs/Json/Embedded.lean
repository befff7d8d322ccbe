import Folio.Proofs.Json.Parsing
import Folio.Proofs.Text.Occurrence

/-! JSON text in a script element. A script reads one escape more in string literals than JSON has, a
backslash before a bang. An angle bracket stands in JSON text only inside a string literal and not in
an escape, so a backslash that is put after it starts an escape of its own: embedded text reads as
the text itself. -/
namespace Folio.Json

namespace Token

/-- Reads one character as a script does, which knows the escape `\!`. -/
def feedScript (cut : Cut) (c : Char) : Option Cut :=
  match cut.mode with
  | .string cs high .backslash =>
    if c = '!' then some { cut with mode := .string (addChar cs high c) none .plain }
    else feed cut c
  | _ => feed cut c

/-- The tokens of JSON text in a script. -/
def ofScript? (s : List Char) : Option (List Token) :=
  (s.foldlM feedScript ⟨[], .between⟩).bind finish

variable {cut cut' : Cut} {s : List Char} {ts : List Token} {c : Char}

/-- What JSON reads, a script reads alike. -/
theorem feedScript_of_feed (h : feed cut c = some cut') : feedScript cut c = some cut' := by
  obtain ⟨ts, mode⟩ := cut
  unfold feedScript
  split
  · next cs high hmode =>
    split
    · next hbang =>
      subst hbang
      dsimp only at hmode
      subst hmode
      cases h
    · exact h
  · exact h

theorem foldlM_feedScript_of_feed (h : s.foldlM feed cut = some cut') :
    s.foldlM feedScript cut = some cut' := by
  induction s generalizing cut with
  | nil => exact h
  | cons c s ih =>
    rw [List.foldlM_cons] at h ⊢
    obtain ⟨next, hnext, hrest⟩ := Option.bind_eq_some_iff.1 h
    rw [feedScript_of_feed hnext]
    exact ih hrest

/-- An angle bracket stands inside a string literal, and not in an escape. -/
theorem exists_string_of_angle (h : feedScript cut '<' = some cut') :
    ∃ ts cs high, cut = ⟨ts, .string cs high .plain⟩ ∧
      cut' = ⟨ts, .string (addChar cs high '<') none .plain⟩ := by
  obtain ⟨ts, mode⟩ := cut
  cases mode with
  | between => cases h
  | word w => cases h
  | number w =>
    have hnone : ((Literal.read? w.reverse).bind fun l => start (.number l :: ts) '<') = none := by
      cases Literal.read? w.reverse <;> rfl
    exact nomatch hnone.symm.trans h
  | string cs high place =>
    cases place with
    | plain => exact ⟨ts, cs, high, rfl, (Option.some.inj h).symm⟩
    | backslash => cases h
    | unit value count => cases h

/-- A slash and a bang in a string literal may have a backslash before them. -/
theorem foldlM_escaped (hc : c = '/' ∨ c = '!') (s : List Char) (ts : List Token)
    (cs : Option (List Char)) (high : Option Nat) :
    ('\\' :: c :: s).foldlM feedScript ⟨ts, .string cs high .plain⟩ =
      (c :: s).foldlM feedScript ⟨ts, .string cs high .plain⟩ := by
  rcases hc with rfl | rfl <;> rfl

/-- A backslash that is put between an angle bracket and a slash or a bang changes nothing. -/
theorem foldlM_replaceAll (hc : c = '/' ∨ c = '!') (rest s : List Char) {cut : Cut}
    (h : s.foldlM feedScript cut = some cut') :
    (Text.replaceAll ('<' :: c :: rest) ('<' :: '\\' :: c :: rest) s).foldlM feedScript cut =
      some cut' := by
  match s with
  | [] => exact h
  | d :: s =>
    by_cases hmatch : '<' :: c :: rest <+: d :: s
    · obtain ⟨tail, htail⟩ := hmatch
      have hshorter : tail.length < s.length + 1 := by
        have := congrArg List.length htail
        simp only [List.length_append, List.length_cons] at this
        omega
      rw [← htail, List.foldlM_append] at h
      obtain ⟨after, hmatched, htailed⟩ := Option.bind_eq_some_iff.1 h
      rw [List.foldlM_cons] at hmatched
      obtain ⟨inside, hangle, hrest⟩ := Option.bind_eq_some_iff.1 hmatched
      obtain ⟨ts, cs, high, -, rfl⟩ := exists_string_of_angle hangle
      rw [← htail, Text.replaceAll_append_self (List.cons_ne_nil _ _), List.foldlM_append,
        List.foldlM_cons, hangle]
      simp only [Option.bind_eq_bind, Option.bind_some, foldlM_escaped hc, hrest]
      exact foldlM_replaceAll hc rest tail htailed
    · rw [List.foldlM_cons] at h
      obtain ⟨next, hnext, hrest⟩ := Option.bind_eq_some_iff.1 h
      rw [Text.replaceAll_cons hmatch, List.foldlM_cons, hnext]
      exact foldlM_replaceAll hc rest s hrest
termination_by s.length

/-- A script reads embedded text as JSON reads the text. -/
theorem foldlM_embedChars (h : s.foldlM feed cut = some cut') :
    (Text.embedChars s).foldlM feedScript cut = some cut' :=
  foldlM_replaceAll (.inr rfl) _ _ (foldlM_replaceAll (.inl rfl) _ _ (foldlM_feedScript_of_feed h))

theorem ofScript?_embedChars (h : ofChars? s = some ts) :
    ofScript? (Text.embedChars s) = some ts := by
  obtain ⟨cut, hcut, hfinish⟩ := Option.bind_eq_some_iff.1 h
  rw [ofScript?, foldlM_embedChars hcut]
  exact hfinish

/-! Inside a string literal -/

/-- Whether a quotation mark stands in a text that no backslash escapes. The flag says whether the
first character is escaped. -/
def hasBareQuote : Bool → List Char → Bool
  | _, [] => false
  | true, _ :: s => hasBareQuote false s
  | false, c :: s => c == '"' || hasBareQuote (c == '\\') s

theorem tokens_suffix_of_start (h : start ts c = some cut) : ts <:+ cut.tokens := by
  unfold start at h
  split at h
  · cases h; exact List.suffix_rfl
  split at h
  · cases h; exact List.suffix_rfl
  split at h
  · cases h; exact List.suffix_rfl
  split at h
  · cases h; exact List.suffix_rfl
  · obtain ⟨t, -, rfl⟩ := Option.map_eq_some_iff.1 h
    exact List.suffix_cons ..

/-- Tokens that were read stay. -/
theorem tokens_suffix_of_feed (h : feed cut c = some cut') : cut.tokens <:+ cut'.tokens := by
  unfold feed at h
  split at h
  · exact tokens_suffix_of_start h
  · split at h
    · cases h; exact List.suffix_rfl
    · exact (List.suffix_cons ..).trans (tokens_suffix_of_start h)
  · split at h
    · cases h; exact List.suffix_rfl
    · obtain ⟨l, -, hstart⟩ := Option.bind_eq_some_iff.1 h
      exact (List.suffix_cons ..).trans (tokens_suffix_of_start hstart)
  · split at h
    · cases h; exact List.suffix_cons ..
    split at h
    · cases h; exact List.suffix_rfl
    split at h
    · cases h
    · cases h; exact List.suffix_rfl
  · split at h
    · cases h; exact List.suffix_rfl
    · obtain ⟨d, -, rfl⟩ := Option.map_eq_some_iff.1 h
      exact List.suffix_rfl
  · obtain ⟨d, -, rfl⟩ := Option.map_eq_some_iff.1 h
    dsimp only
    split <;> exact List.suffix_rfl

theorem tokens_suffix_of_feedScript (h : feedScript cut c = some cut') :
    cut.tokens <:+ cut'.tokens := by
  unfold feedScript at h
  split at h
  · split at h
    · cases h; exact List.suffix_rfl
    · exact tokens_suffix_of_feed h
  · exact tokens_suffix_of_feed h

theorem tokens_suffix_of_foldlM {cut : Cut} (h : s.foldlM feedScript cut = some cut') :
    cut.tokens <:+ cut'.tokens := by
  induction s generalizing cut with
  | nil => cases h; exact List.suffix_rfl
  | cons c s ih =>
    rw [List.foldlM_cons] at h
    obtain ⟨next, hnext, hrest⟩ := Option.bind_eq_some_iff.1 h
    exact (tokens_suffix_of_feedScript hnext).trans (ih hrest)

theorem le_toNat_of_hexDigit? {d : Nat} (h : hexDigit? c = some d) : '0'.toNat ≤ c.toNat := by
  unfold hexDigit? at h
  split at h
  · next hdigit =>
    simp only [Char.isDigit, Bool.and_eq_true, decide_eq_true_eq] at hdigit
    exact hdigit.1
  split at h
  · next hlower => exact Nat.le_trans (by decide) (show 'a'.toNat ≤ c.toNat from hlower.1)
  split at h
  · next hupper => exact Nat.le_trans (by decide) (show 'A'.toNat ≤ c.toNat from hupper.1)
  · cases h

theorem le_toNat_of_simpleEscape? {d : Char} (h : simpleEscape? c = some d) :
    0x20 ≤ c.toNat := by
  unfold simpleEscape? at h
  split at h <;> first | decide | cases h

theorem exists_addUnit (cs : Option (List Char)) (high : Option Nat) (u : Nat) :
    ∃ cs' high', addUnit cs high u = .string cs' high' .plain := by
  unfold addUnit
  split
  · split <;> exact ⟨_, _, rfl⟩
  · split
    · exact ⟨_, _, rfl⟩
    · split <;> exact ⟨_, _, rfl⟩

/-- One character of a string literal: the quotation mark that ends it, or one that keeps in it. -/
theorem feedScript_string {cs : Option (List Char)} {high : Option Nat} {place : Escape}
    (h : feedScript ⟨ts, .string cs high place⟩ c = some cut) :
    (∃ t, cut = ⟨t :: ts, .between⟩) ∨
      ∃ cs' high' place', cut = ⟨ts, .string cs' high' place'⟩ ∧ 0x20 ≤ c.toNat ∧
        (place ≠ .backslash → c ≠ '"') ∧
        (place' = .backslash ↔ place ≠ .backslash ∧ c = '\\') := by
  cases place with
  | plain =>
    simp only [feedScript, feed] at h
    split at h
    · cases h
      exact .inl ⟨_, rfl⟩
    next hquote =>
    split at h
    · next hslash =>
      cases h
      exact .inr ⟨_, _, _, rfl, by subst hslash; decide, fun _ => hquote, by simp [hslash]⟩
    next hslash =>
    split at h
    · cases h
    · next hcontrol =>
      cases h
      exact .inr ⟨_, _, _, rfl, Nat.le_of_not_lt hcontrol, fun _ => hquote, by simp [hslash]⟩
  | backslash =>
    simp only [feedScript, feed] at h
    split at h
    · next hbang =>
      cases h
      exact .inr ⟨_, _, _, rfl, by subst hbang; decide, fun hne => (hne rfl).elim, by simp⟩
    split at h
    · next hunit =>
      cases h
      exact .inr ⟨_, _, _, rfl, by subst hunit; decide, fun hne => (hne rfl).elim, by simp⟩
    · obtain ⟨d, hd, rfl⟩ := Option.map_eq_some_iff.1 h
      exact .inr ⟨_, _, _, rfl, le_toNat_of_simpleEscape? hd, fun hne => (hne rfl).elim, by simp⟩
  | unit value count =>
    simp only [feedScript, feed] at h
    obtain ⟨d, hd, hcut⟩ := Option.map_eq_some_iff.1 h
    have hlow : 0x20 ≤ c.toNat := Nat.le_trans (by decide) (le_toNat_of_hexDigit? hd)
    have hquote : c ≠ '"' := by rintro rfl; cases hd
    have hslash : c ≠ '\\' := by rintro rfl; cases hd
    split at hcut
    · obtain ⟨cs', high', hunit⟩ := exists_addUnit cs high (value * 16 + d)
      rw [hunit] at hcut
      exact .inr ⟨_, _, _, hcut.symm, hlow, fun _ => hquote, by simp [hslash]⟩
    · exact .inr ⟨_, _, _, hcut.symm, hlow, fun _ => hquote, by simp [hslash]⟩

/-- What is read without leaving a string literal has no bare quotation mark in it and no control
character. -/
theorem inside_of_foldlM {cs cs' : Option (List Char)} {high high' : Option Nat}
    {place place' : Escape}
    (h : s.foldlM feedScript ⟨ts, .string cs high place⟩ = some ⟨ts, .string cs' high' place'⟩) :
    hasBareQuote (place = .backslash) s = false ∧ ∀ c ∈ s, 0x20 ≤ c.toNat := by
  induction s generalizing cs high place with
  | nil => exact ⟨rfl, nofun⟩
  | cons c s ih =>
    rw [List.foldlM_cons] at h
    obtain ⟨next, hnext, hrest⟩ := Option.bind_eq_some_iff.1 h
    rcases feedScript_string hnext with ⟨t, rfl⟩ | ⟨_, _, place₂, rfl, hlow, hquote, hplace⟩
    · -- the token of the literal would be there for good
      have hlength := (tokens_suffix_of_foldlM hrest).length_le
      simp only [List.length_cons] at hlength
      omega
    · obtain ⟨hbare, hall⟩ := ih hrest
      refine ⟨?_, List.forall_mem_cons.2 ⟨hlow, hall⟩⟩
      by_cases hescaped : place = .backslash
      · rw [decide_eq_false fun hagain => (hplace.1 hagain).1 hescaped] at hbare
        rw [decide_eq_true hescaped, hasBareQuote, hbare]
      · have hflag : decide (place₂ = .backslash) = (c == '\\') := by
          rw [Bool.eq_iff_iff, decide_eq_true_iff, hplace, beq_iff_eq]
          exact and_iff_right hescaped
        rw [decide_eq_false hescaped, hasBareQuote, ← hflag, hbare, Bool.or_false,
          beq_eq_false_iff_ne]
        exact hquote hescaped

end Token

end Folio.Json
