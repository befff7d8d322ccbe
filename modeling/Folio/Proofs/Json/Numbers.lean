import Folio.Proofs.Decimal.Shortest
import Folio.Proofs.Json.Whole

/-! What the texts of numbers stand for, rounded once. A whole number is written without point and
exponent, and a double with one of them, by the shortest decimal that is nearest to it; so both come
back as they were. -/
namespace Folio.Decimal

theorem ofDigits_append (base : ℕ) (s t : List Char) :
    ofDigits base (s ++ t) = ofDigits base s * base ^ t.length + ofDigits base t := by
  simp only [ofDigits_eq_foldl]
  rw [List.foldl_append, foldl_addDigit]
  rfl

theorem ofDigits_digitsOf (n : ℕ) : ofDigits 10 (digitsOf n) = n := by
  rw [ofDigits_eq_foldl, Json.foldl_digitsOf]

theorem ofDigits_zeros (n : ℕ) : ofDigits 10 (List.replicate n '0') = 0 := by
  induction n with
  | zero => rw [ofDigits_eq_foldl]; rfl
  | succ n ih =>
    have hzero : ofDigits 10 ['0'] = 0 := by rw [ofDigits_eq_foldl]; rfl
    rw [List.replicate_succ, ← List.singleton_append, ofDigits_append, ih, hzero, Nat.zero_mul]

end Folio.Decimal

namespace Folio.Json

open Decimal

namespace Literal

/-- All digits of a literal. -/
def digits (l : Literal) : ℕ := ofDigits 10 (l.whole ++ l.fraction.getD [])

/-- The power of ten of the last digit of a literal. -/
def scale (l : Literal) : ℤ := l.exponent.getD 0 - (l.fraction.getD []).length

/-- The number that a literal stands for: a whole number without point and exponent, minus zero
apart, and the nearest double else. -/
def nearest (l : Literal) : Number :=
  match l.fraction, l.exponent with
  | none, none =>
    if !l.negative then .whole l.digits
    else if 0 < l.digits then .whole (-(l.digits : ℤ))
    else .real ⟨true, 0⟩
  | _, _ => .real ⟨l.negative, double.ofDecimal l.digits l.scale⟩

/-- The text of a sign. -/
def sign (negative : Bool) : List Char := if negative then ['-'] else []

theorem takeDigits_append {s t : List Char} (hs : ∀ c ∈ s, c.isDigit = true)
    (ht : ∀ c ∈ t.head?, c.isDigit = false) : takeDigits (s ++ t) = (s, t) := by
  induction s with
  | nil =>
    cases t with
    | nil => rfl
    | cons c t => simp [takeDigits, ht c rfl]
  | cons c s ih =>
    rw [List.forall_mem_cons] at hs
    have := ih hs.2
    simp only [takeDigits, Prod.mk.injEq] at this
    simp [takeDigits, hs.1, this.1, this.2]

/-- Digits in front of a point or an exponent: at least one, and no zero in front of others. -/
structure IsWhole (s : List Char) : Prop where
  digits : ∀ c ∈ s, c.isDigit = true
  ne_nil : s ≠ []
  first : ∀ c t, s ≠ '0' :: c :: t

/-- Reads what follows the sign. -/
def readUnsigned? (negative : Bool) (s : List Char) : Option Literal :=
  let (whole, s) := takeDigits s
  match whole with
  | [] => none
  | '0' :: _ :: _ => none
  | _ =>
    match s with
    | '.' :: s =>
      let (fraction, s) := takeDigits s
      if fraction.isEmpty then none
      else (readExponent? s).map fun e => ⟨negative, whole, some fraction, e⟩
    | s => (readExponent? s).map fun e => ⟨negative, whole, none, e⟩

variable {whole fraction tail : List Char} {e : Option ℤ}

theorem IsWhole.read?_sign (h : IsWhole whole) (negative : Bool) (rest : List Char) :
    read? (sign negative ++ (whole ++ rest)) = readUnsigned? negative (whole ++ rest) := by
  obtain ⟨c, s, rfl⟩ := List.exists_cons_of_ne_nil h.ne_nil
  have hdash : c ≠ '-' := by
    rintro rfl
    have := h.digits '-' List.mem_cons_self
    cases this
  cases negative with
  | true => rfl
  | false =>
    unfold read?
    split
    · next heq =>
      split at heq
      · next hcons => exact (hdash (List.cons.inj hcons).1).elim
      · cases heq
        rfl

theorem IsWhole.readUnsigned?_append (h : IsWhole whole) (negative : Bool)
    (htail : ∀ c ∈ tail.head?, c.isDigit = false ∧ c ≠ '.') :
    readUnsigned? negative (whole ++ tail) =
      (readExponent? tail).map fun e => ⟨negative, whole, none, e⟩ := by
  unfold Literal.readUnsigned?
  rw [takeDigits_append h.digits fun c hc => (htail c hc).1]
  dsimp only
  split
  · exact (h.ne_nil rfl).elim
  · exact (h.first _ _ rfl).elim
  · split
    · exact ((htail _ rfl).2 rfl).elim
    · rfl

theorem IsWhole.read?_plain (h : IsWhole whole) (negative : Bool)
    (htail : ∀ c ∈ tail.head?, c.isDigit = false ∧ c ≠ '.') (he : readExponent? tail = some e) :
    read? (sign negative ++ (whole ++ tail)) = some ⟨negative, whole, none, e⟩ := by
  rw [h.read?_sign, h.readUnsigned?_append negative htail, he, Option.map_some]

theorem IsWhole.read?_point (h : IsWhole whole) (negative : Bool) (hne : fraction ≠ [])
    (hfraction : ∀ c ∈ fraction, c.isDigit = true) (htail : ∀ c ∈ tail.head?, c.isDigit = false)
    (he : readExponent? tail = some e) :
    read? (sign negative ++ (whole ++ '.' :: (fraction ++ tail))) =
      some ⟨negative, whole, some fraction, e⟩ := by
  have hpoint : ∀ c ∈ ('.' :: (fraction ++ tail)).head?, c.isDigit = false := by
    intro c hc
    obtain rfl := Option.some.inj hc
    rfl
  rw [h.read?_sign]
  unfold Literal.readUnsigned?
  rw [takeDigits_append h.digits hpoint]
  dsimp only
  split
  · exact (h.ne_nil rfl).elim
  · exact (h.first _ _ rfl).elim
  · have hsome : ¬ fraction.isEmpty = true := by simpa using hne
    simp only [takeDigits_append hfraction htail, if_neg hsome, he, Option.map_some]

/-- A literal that ends with its fraction. -/
theorem IsWhole.read?_fraction (h : IsWhole whole) (negative : Bool) (hne : fraction ≠ [])
    (hfraction : ∀ c ∈ fraction, c.isDigit = true) :
    read? (sign negative ++ (whole ++ '.' :: fraction)) =
      some ⟨negative, whole, some fraction, none⟩ := by
  have hend : readExponent? [] = some none := rfl
  have hnone : ∀ c ∈ ([] : List Char).head?, c.isDigit = false := nofun
  have hread := h.read?_point negative hne hfraction hnone hend
  rwa [List.append_nil] at hread

theorem isWhole_of_cons {c : Char} {s : List Char} (hc : c ≠ '0')
    (h : ∀ d ∈ c :: s, d.isDigit = true) : IsWhole (c :: s) :=
  ⟨h, List.cons_ne_nil _ _, fun _ _ heq => hc (List.cons.inj heq).1⟩

theorem isWhole_zero : IsWhole ['0'] :=
  ⟨List.forall_mem_singleton.2 rfl, List.cons_ne_nil _ _, fun _ _ heq => nomatch heq⟩

/-- A literal that stands for a decimal as a double does. -/
structure StandsFor (l : Literal) (negative : Bool) (x : Scaled) : Prop where
  negative_eq : l.negative = negative
  real : l.fraction.isSome ∨ l.exponent.isSome
  value_eq : (l.digits * 10 ^ l.scale : ℚ) = x.digits * 10 ^ x.exponent

theorem StandsFor.nearest_eq {l : Literal} {negative : Bool} {x : Scaled}
    (h : l.StandsFor negative x) :
    l.nearest = .real ⟨negative, double.ofDecimal l.digits l.scale⟩ := by
  unfold nearest
  split
  · next hfraction hexponent =>
    have := h.real
    rw [hfraction, hexponent] at this
    simp at this
  · rw [h.negative_eq]

/-! The texts of doubles -/

variable {x : Scaled}

theorem digits_zeros (n : ℕ) : ∀ c ∈ List.replicate n '0', c.isDigit = true := by
  intro c hc
  rw [List.eq_of_mem_replicate hc]
  rfl

/-- The digits of a positive number with more digits after them. -/
theorem isWhole_digitsOf {n : ℕ} (hn : 0 < n) {s : List Char} (hs : ∀ c ∈ s, c.isDigit = true) :
    IsWhole (digitsOf n ++ s) := by
  have hall := List.forall_mem_append.2 ⟨fun c => isDigit_of_mem_digitsOf (n := n), hs⟩
  obtain ⟨first, rest, hcons, hfirst⟩ := digitsOf_first hn
  rw [hcons] at hall ⊢
  exact isWhole_of_cons hfirst hall

/-- Some of the first digits of a positive number. -/
theorem isWhole_take {n k : ℕ} (hn : 0 < n) (hk : 0 < k) : IsWhole ((digitsOf n).take k) := by
  have hall : ∀ c ∈ (digitsOf n).take k, c.isDigit = true := fun c hc =>
    isDigit_of_mem_digitsOf (List.mem_of_mem_take hc)
  obtain ⟨first, rest, hcons, hfirst⟩ := digitsOf_first hn
  obtain ⟨k, rfl⟩ := Nat.exists_eq_succ_of_ne_zero (Nat.ne_of_gt hk)
  rw [hcons, List.take_succ_cons] at hall ⊢
  exact isWhole_of_cons hfirst hall

theorem standsFor_of_digits {l : Literal} {negative : Bool} (hnegative : l.negative = negative)
    (hreal : l.fraction.isSome ∨ l.exponent.isSome) (hdigits : l.digits = x.digits)
    (hscale : l.scale = x.exponent) : l.StandsFor negative x :=
  ⟨hnegative, hreal, by rw [hdigits, hscale]⟩

/-- A whole double, with zeros after its digits. -/
theorem read?_padded (hx : 0 < x.digits) (hexponent : 0 ≤ x.exponent) (negative : Bool) :
    ∃ l, read? (sign negative ++
      (digitsOf x.digits ++ List.replicate x.exponent.toNat '0' ++ ['.', '0'])) = some l ∧
        l.StandsFor negative x := by
  have hwhole := isWhole_digitsOf hx (digits_zeros x.exponent.toNat)
  refine ⟨_, hwhole.read?_fraction negative (List.cons_ne_nil '0' [])
    (List.forall_mem_singleton.2 rfl), rfl, .inl rfl, ?_⟩
  have hzero : ofDigits 10 ['0'] = 0 := ofDigits_zeros 1
  simp only [Literal.digits, Literal.scale, Option.getD_some, Option.getD_none]
  rw [ofDigits_append, ofDigits_append, ofDigits_digitsOf, ofDigits_zeros, hzero,
    zpow_of_nonneg _ hexponent]
  simp

/-- A double with places after the point. -/
theorem read?_pointed (hx : 0 < x.digits) {places : ℕ} (hplaces : 0 < places)
    (hexponent : x.exponent = -(places : ℤ)) (hlt : places < (digitsOf x.digits).length)
    (negative : Bool) :
    ∃ l, read? (sign negative ++
      ((digitsOf x.digits).take ((digitsOf x.digits).length - places) ++
        '.' :: (digitsOf x.digits).drop ((digitsOf x.digits).length - places))) = some l ∧
        l.StandsFor negative x := by
  have hwhole := isWhole_take hx (k := (digitsOf x.digits).length - places) (by omega)
  have hlength :
      ((digitsOf x.digits).drop ((digitsOf x.digits).length - places)).length = places := by
    rw [List.length_drop]
    omega
  have hne : (digitsOf x.digits).drop ((digitsOf x.digits).length - places) ≠ [] := by
    intro hnil
    rw [hnil] at hlength
    exact Nat.ne_of_gt hplaces hlength.symm
  have hread := hwhole.read?_fraction negative hne fun c hc =>
    isDigit_of_mem_digitsOf (List.mem_of_mem_drop hc)
  refine ⟨_, hread, standsFor_of_digits rfl (.inl rfl) ?_ ?_⟩
  · simp only [Literal.digits, Option.getD_some, List.take_append_drop, ofDigits_digitsOf]
  · simp only [Literal.scale, Option.getD_some, Option.getD_none, hlength, hexponent, zero_sub]

/-- A double below one. -/
theorem read?_small {places : ℕ} (hexponent : x.exponent = -(places : ℤ))
    (hle : (digitsOf x.digits).length ≤ places) (negative : Bool) :
    ∃ l, read? (sign negative ++
      '0' :: '.' :: (List.replicate (places - (digitsOf x.digits).length) '0' ++
        digitsOf x.digits)) = some l ∧ l.StandsFor negative x := by
  have hne : List.replicate (places - (digitsOf x.digits).length) '0' ++ digitsOf x.digits ≠ [] :=
    List.append_ne_nil_of_right_ne_nil _ Nat.toDigits_ne_nil
  have hread := isWhole_zero.read?_fraction negative hne
    (List.forall_mem_append.2 ⟨digits_zeros _, fun c => isDigit_of_mem_digitsOf⟩)
  refine ⟨_, hread, standsFor_of_digits rfl (.inl rfl) ?_ ?_⟩
  · simp only [Literal.digits, Option.getD_some]
    rw [← List.append_assoc, ← List.replicate_one, List.replicate_append_replicate, ofDigits_append,
      ofDigits_zeros, ofDigits_digitsOf, Nat.zero_mul, Nat.zero_add]
  · simp only [Literal.scale, Option.getD_some, Option.getD_none, List.length_append,
      List.length_replicate, hexponent]
    omega

theorem read?_positional (hx : 0 < x.digits) (negative : Bool) :
    ∃ l, read? (sign negative ++ x.positional ['.', '0']) = some l ∧ l.StandsFor negative x := by
  unfold Scaled.positional
  dsimp only
  split
  · next hexponent => exact read?_padded hx hexponent negative
  · next hexponent =>
    have hplaces : x.exponent = -((-x.exponent).toNat : ℤ) := by omega
    split
    · next hlt => exact read?_pointed hx (by omega) hplaces hlt negative
    · next hle => exact read?_small hplaces (Nat.le_of_not_lt hle) negative

/-- An exponent as it is written. -/
theorem readExponent?_signed (e : ℤ) :
    readExponent? ('e' :: (if e < 0 then '-' else '+') :: digitsOf e.natAbs) = some (some e) := by
  have hdigits :
      ¬ ((digitsOf e.natAbs).isEmpty || !(digitsOf e.natAbs).all Char.isDigit) = true := by
    have hall : (digitsOf e.natAbs).all Char.isDigit = true :=
      List.all_eq_true.2 fun c => isDigit_of_mem_digitsOf
    rw [hall]
    simp [digitsOf, Nat.toDigits_ne_nil]
  by_cases hneg : e < 0
  · have habs : -(e.natAbs : ℤ) = e := by omega
    simp only [hneg, if_true, readExponent?, if_neg hdigits, ofDigits_digitsOf, true_or, habs]
  · have habs : (e.natAbs : ℤ) = e := by omega
    simp only [hneg, if_false, readExponent?, if_neg hdigits, ofDigits_digitsOf, true_or, habs]
    rfl

theorem read?_scientific (hx : 0 < x.digits) (negative : Bool) :
    ∃ l, read? (sign negative ++ x.scientific) = some l ∧ l.StandsFor negative x := by
  have he := readExponent?_signed x.lead
  have htail : ∀ c ∈ ('e' :: (if x.lead < 0 then '-' else '+') :: digitsOf x.lead.natAbs).head?,
      c.isDigit = false ∧ c ≠ '.' := by
    intro c hc
    obtain rfl := Option.some.inj hc
    exact ⟨rfl, by decide⟩
  have hvalue := ofDigits_digitsOf x.digits
  have hlead : x.lead = ((digitsOf x.digits).length : ℤ) - 1 + x.exponent := rfl
  obtain ⟨first, rest, hcons, hfirst⟩ := digitsOf_first hx
  have hall : ∀ c ∈ first :: rest, c.isDigit = true := fun c hc =>
    isDigit_of_mem_digitsOf (hcons ▸ hc)
  have hwhole : IsWhole [first] :=
    isWhole_of_cons hfirst (List.forall_mem_singleton.2 (hall first List.mem_cons_self))
  unfold Scaled.scientific
  rw [hcons] at hvalue hlead ⊢
  cases rest with
  | nil =>
    refine ⟨_, hwhole.read?_plain negative htail he, standsFor_of_digits rfl (.inr rfl) ?_ ?_⟩
    · simpa [Literal.digits] using hvalue
    · simp [Literal.scale, hlead]
  | cons second rest =>
    have hread := hwhole.read?_point negative (List.cons_ne_nil second rest)
      (fun c hc => hall c (List.mem_cons_of_mem _ hc)) (fun c hc => (htail c hc).1) he
    refine ⟨_, hread, standsFor_of_digits rfl (.inl rfl) ?_ ?_⟩
    · simpa [Literal.digits] using hvalue
    · simp [Literal.scale, hlead]

end Literal

namespace Number

/-- A number that a value can hold: no infinity, and nothing that is no number. -/
def Finite : Number → Prop
  | .whole _ => True
  | .real x => x.code < double.infinity

instance : DecidablePred Finite
  | .whole _ => .isTrue trivial
  | .real x => inferInstanceAs (Decidable (x.code < double.infinity))

theorem read?_chars_whole (n : ℤ) :
    ∃ l, Literal.read? (Number.whole n).chars = some l ∧ l.nearest = .whole n := by
  have hchars : (Number.whole n).chars =
      (if decide (n < 0) then ['-'] else []) ++ digitsOf n.natAbs := by
    simp [chars]
  rw [hchars]
  refine ⟨_, Literal.read?_digitsOf _ _, ?_⟩
  have hdigits : (Literal.mk (decide (n < 0)) (digitsOf n.natAbs) none none).digits = n.natAbs := by
    simp only [Literal.digits, Option.getD_none, List.append_nil, ofDigits_digitsOf]
  unfold Literal.nearest
  dsimp only
  rw [hdigits]
  by_cases hneg : n < 0
  · have hpos : 0 < n.natAbs := by omega
    have habs : -(n.natAbs : ℤ) = n := by omega
    simp only [hneg, decide_true, hpos, if_true, habs]
    rfl
  · have habs : (n.natAbs : ℤ) = n := by omega
    simp only [hneg, decide_false, habs]
    rfl

/-- A double is written with its sign and the shortest decimal. -/
theorem chars_real (x : Binary) : ∃ body, (Number.real x).chars = Literal.sign x.negative ++ body ∧
    (body = (double.shortest .toEven x.code).positional ['.', '0'] ∨
      body = (double.shortest .toEven x.code).scientific) := by
  obtain ⟨negative, code⟩ := x
  let s := double.shortest .toEven code
  refine ⟨if -5 ≤ s.lead ∧ s.lead < 16 then s.positional ['.', '0'] else s.scientific, ?_, ?_⟩
  · cases negative <;> rfl
  · split
    · exact .inl rfl
    · exact .inr rfl

theorem read?_chars_zero (negative : Bool) :
    ∃ l, Literal.read? (Number.real ⟨negative, 0⟩).chars = some l ∧
      l.nearest = .real ⟨negative, 0⟩ := by
  have hchars : (Number.real ⟨negative, 0⟩).chars = Literal.sign negative ++ ['0', '.', '0'] := by
    cases negative <;> rfl
  rw [hchars]
  refine ⟨_, Literal.isWhole_zero.read?_fraction negative (List.cons_ne_nil '0' [])
    (List.forall_mem_singleton.2 rfl), ?_⟩
  have hdigits : (Literal.mk negative ['0'] (some ['0']) none).digits = 0 := ofDigits_zeros 2
  unfold Literal.nearest
  dsimp only
  rw [hdigits]
  rfl

/-- The text of a number is a literal that stands for the number. -/
theorem read?_chars {n : Number} (h : n.Finite) :
    ∃ l, Literal.read? n.chars = some l ∧ l.nearest = n := by
  cases n with
  | whole n => exact read?_chars_whole n
  | real x =>
    obtain ⟨negative, code⟩ := x
    rcases Nat.eq_zero_or_pos code with rfl | hpos
    · exact read?_chars_zero negative
    · have hdigits := Format.shortest_digits_pos hpos .toEven
      obtain ⟨body, hchars, hbody⟩ := chars_real ⟨negative, code⟩
      have hread : ∃ l, Literal.read? (Literal.sign negative ++ body) = some l ∧
          l.StandsFor negative (double.shortest .toEven code) := by
        rcases hbody with rfl | rfl
        · exact Literal.read?_positional hdigits negative
        · exact Literal.read?_scientific hdigits negative
      obtain ⟨l, hl, hstands⟩ := hread
      refine ⟨l, by rw [hchars]; exact hl, ?_⟩
      rw [hstands.nearest_eq, Format.ofDecimal_eq_of_shortest hpos h hstands.value_eq]

theorem Finite.legible {n : Number} (h : n.Finite) : n.Legible := by
  obtain ⟨l, hl, -⟩ := read?_chars h
  exact legible_of_read? hl

/-- The literal that a number is written as stands for the number. -/
theorem Finite.nearest_literal {n : Number} (h : n.Finite) : n.literal.nearest = n := by
  obtain ⟨l, hl, hnearest⟩ := read?_chars h
  rw [literal_eq hl, hnearest]

end Number

end Folio.Json
