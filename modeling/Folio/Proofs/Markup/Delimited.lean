import Folio.Proofs.Markup.Scanning

/-! Where a piece that is kept whole ends: behind its start and within the markup, and, if something
stands behind it, at a `>`. What stands behind it has no part in where it ends. -/
namespace Folio.Markup

open Text (isAsciiBlank after? afterAnyCase?)

variable {b r s : List Char} {c : Char} {n : Nat}

/-! Ends never go back -/

theorem le_throughClose (n : Nat) (s : List Char) : n ≤ throughClose n s := by
  rw [throughClose_eq]
  exact Nat.le_add_right ..

theorem le_throughElement (closing : List Char) (n : Nat) (s : List Char) :
    n ≤ throughElement closing n s := by
  rw [throughElement_eq]
  exact Nat.le_add_right ..

theorem le_commentLength (n : Nat) (s : List Char) : n ≤ commentLength n s := by
  induction s generalizing n with
  | nil => exact Nat.le_refl n
  | cons c s ih =>
    rw [commentLength]
    split
    · omega
    · exact Nat.le_of_succ_le (ih (n + 1))

/-- What is read of a tag with one character of it, or `none` if the tag ends there. -/
def Place.next? (c : Char) : Place → Option Place
  | .quoted q => some (if c = q then .plain false else .quoted q)
  | .plain eq =>
    if eq && (c == '"' || c == '\'') then some (.quoted c)
    else if c = '>' then none
    else if isAsciiBlank c then some (.plain eq)
    else some (.plain (c == '='))

theorem tagLength_cons (place : Place) (n : Nat) (c : Char) (s : List Char) :
    tagLength place n (c :: s) =
      (place.next? c).elim (n + 1) fun place => tagLength place (n + 1) s := by
  cases place with
  | quoted q => rfl
  | plain eq =>
    rw [tagLength, Place.next?]
    split
    · rfl
    · split
      · rfl
      · split <;> rfl

theorem eq_of_next?_eq_none {place : Place} (h : place.next? c = none) : c = '>' := by
  cases place with
  | quoted q => cases h
  | plain eq =>
    rw [Place.next?] at h
    split at h
    · cases h
    · split at h
      · next hc => exact hc
      · split at h <;> cases h

theorem le_tagLength (place : Place) (n : Nat) (s : List Char) : n ≤ tagLength place n s := by
  induction s generalizing place n with
  | nil => cases place <;> exact Nat.le_refl n
  | cons c s ih =>
    rw [tagLength_cons]
    cases place.next? c with
    | none => exact Nat.le_succ n
    | some place' => exact Nat.le_of_succ_le (ih place' (n + 1))

/-! Ends are within the markup -/

theorem throughClose_le_add (n : Nat) (s : List Char) : throughClose n s ≤ n + s.length := by
  induction s generalizing n with
  | nil => exact Nat.le_refl n
  | cons c s ih =>
    have hlater := ih (n + 1)
    rw [throughClose, List.length_cons]
    split <;> omega

theorem throughElement_le_add (closing : List Char) (n : Nat) (s : List Char) :
    throughElement closing n s ≤ n + s.length := by
  induction s generalizing n with
  | nil => exact Nat.le_refl n
  | cons c s ih =>
    have hlater := ih (n + 1)
    rw [throughElement]
    split
    · exact throughClose_le_add n (c :: s)
    · rw [List.length_cons]
      omega

theorem commentLength_le_add (n : Nat) (s : List Char) : commentLength n s ≤ n + s.length := by
  induction s generalizing n with
  | nil => exact Nat.le_refl n
  | cons c s ih =>
    have hlater := ih (n + 1)
    rw [commentLength]
    split
    · next hmark =>
      have hlength := (List.isPrefixOf_iff_prefix.1 hmark).length_le
      simp only [List.length_cons, List.length_nil] at hlength ⊢
      omega
    · rw [List.length_cons]
      omega

theorem tagLength_le_add (place : Place) (n : Nat) (s : List Char) :
    tagLength place n s ≤ n + s.length := by
  induction s generalizing place n with
  | nil => cases place <;> exact Nat.le_refl n
  | cons c s ih =>
    rw [tagLength_cons, List.length_cons]
    cases place.next? c with
    | none =>
      rw [Option.elim_none]
      omega
    | some place' =>
      have hlater := ih place' (n + 1)
      rw [Option.elim_some]
      omega

/-! Names that are read -/

theorem eq_append_of_after? {p rest : List Char} (h : after? p s = some rest) :
    s = p ++ rest := by
  induction p generalizing s with
  | nil => exact Option.some.inj h
  | cons c p ih =>
    cases s with
    | nil => cases h
    | cons d s =>
      rw [after?] at h
      split at h
      · next hc => rw [hc, ih h, List.cons_append]
      · cases h

theorem exists_of_afterAnyCase? {p rest : List Char} (h : afterAnyCase? p s = some rest) :
    ∃ u, s = u ++ rest ∧ u.map Char.toLower = p := by
  induction p generalizing s with
  | nil => exact ⟨[], Option.some.inj h, rfl⟩
  | cons c p ih =>
    cases s with
    | nil => cases h
    | cons d s =>
      rw [afterAnyCase?] at h
      split at h
      · next hc =>
        obtain ⟨u, rfl, hu⟩ := ih h
        exact ⟨d :: u, rfl, by rw [List.map_cons, hu, hc]⟩
      · cases h

/-- A pattern without `>` is read in front of the first one, or not at all. -/
theorem after?_append {p : List Char} (hp : '>' ∉ p) (hb : '>' ∈ b) (r : List Char) :
    after? p (b ++ r) = (after? p b).map (· ++ r) := by
  induction p generalizing b with
  | nil => rfl
  | cons d p ih =>
    rw [List.mem_cons, not_or] at hp
    cases b with
    | nil => cases hb
    | cons c b =>
      rw [List.cons_append, after?, after?]
      split
      · next hd =>
        have hc : '>' ≠ c := hd ▸ hp.1
        exact ih hp.2 (List.mem_of_ne_of_mem hc hb)
      · rfl

theorem afterAnyCase?_append {p : List Char} (hp : '>' ∉ p) (hb : '>' ∈ b) (r : List Char) :
    afterAnyCase? p (b ++ r) = (afterAnyCase? p b).map (· ++ r) := by
  induction p generalizing b with
  | nil => rfl
  | cons d p ih =>
    rw [List.mem_cons, not_or] at hp
    cases b with
    | nil => cases hb
    | cons c b =>
      rw [List.cons_append, afterAnyCase?, afterAnyCase?]
      split
      · next hd =>
        have hc : '>' ≠ c := by
          rintro rfl
          exact hp.1 hd.symm
        exact ih hp.2 (List.mem_of_ne_of_mem hc hb)
      · rfl

theorem gt_notMem_of_preserved {name : List Char} (h : name ∈ preservedNames) : '>' ∉ name :=
  fun hmem => Bool.false_ne_true ((preservedNames_lower h).2 '>' hmem)

theorem endsName_append (h : b ≠ []) (r : List Char) : endsName (b ++ r) = endsName b := by
  obtain ⟨c, b, rfl⟩ := List.exists_cons_of_ne_nil h
  rfl

/-- The name of a preserved element is read in front of the first `>`. -/
theorem preservedName?_append (hb : '>' ∈ b) (r : List Char) :
    preservedName? (b ++ r) = (preservedName? b).map fun read => (read.1, read.2 ++ r) := by
  have hread : ∀ name ∈ preservedNames,
      ((afterAnyCase? name (b ++ r)).bind fun rest =>
        if endsName rest then some (name, rest) else none) =
      ((afterAnyCase? name b).bind fun rest =>
        if endsName rest then some (name, rest) else none).map
          fun read => (read.1, read.2 ++ r) := by
    intro name hname
    have hgt := gt_notMem_of_preserved hname
    rw [afterAnyCase?_append hgt hb]
    cases hrest : afterAnyCase? name b with
    | none => rfl
    | some rest =>
      obtain ⟨u, rfl, hu⟩ := exists_of_afterAnyCase? hrest
      have hne : rest ≠ [] := by
        rintro rfl
        rw [List.append_nil] at hb
        exact hgt (hu ▸ List.mem_map_of_mem hb)
      simp only [Option.map_some, Option.bind_some, endsName_append hne]
      split <;> rfl
  unfold preservedName?
  generalize preservedNames = names at hread ⊢
  induction names with
  | nil => rfl
  | cons name names ih =>
    rw [List.forall_mem_cons] at hread
    rw [List.findSome?_cons, List.findSome?_cons, hread.1, ih hread.2]
    cases (afterAnyCase? name b).bind fun rest =>
      if endsName rest then some (name, rest) else none <;> rfl

theorem exists_of_preservedName? {name rest : List Char} (h : preservedName? s = some (name, rest)) :
    name ∈ preservedNames ∧ ∃ u, s = u ++ rest ∧ u.map Char.toLower = name := by
  obtain ⟨block, hblock, hread⟩ := List.exists_of_findSome?_eq_some h
  obtain ⟨after, hafter, hread⟩ := Option.bind_eq_some_iff.1 hread
  split at hread
  · obtain ⟨rfl, rfl⟩ := Prod.mk.inj (Option.some.inj hread)
    exact ⟨hblock, exists_of_afterAnyCase? hafter⟩
  · cases hread

/-! Ends that do not hang on what follows -/

/-- Holds of a length that is counted from `n` and comes out as that of `b`, whatever follows. There
is a `>` in `b`. -/
structure EndsWith (length : List Char → Nat) (n : Nat) (b : List Char) : Prop where
  mem : '>' ∈ b
  eq : ∀ more, length (b ++ more) = n + b.length

theorem EndsWith.cons {length length' : List Char → Nat} (h : EndsWith length' (n + 1) b)
    (hstep : ∀ more, length (c :: (b ++ more)) = length' (b ++ more)) :
    EndsWith length n (c :: b) where
  mem := List.mem_cons_of_mem c h.mem
  eq more := by
    rw [List.cons_append, hstep, h.eq, List.length_cons]
    omega

theorem endsWith_throughClose (h : throughClose n (b ++ r) = n + b.length) (hr : r ≠ []) :
    EndsWith (throughClose n) n b := by
  induction b generalizing n with
  | nil =>
    obtain ⟨d, r, rfl⟩ := List.exists_cons_of_ne_nil hr
    have hle := le_throughClose (n + 1) r
    rw [List.nil_append, throughClose, List.length_nil] at h
    split at h <;> omega
  | cons c b ih =>
    by_cases hc : c = '>'
    · rw [List.cons_append, throughClose, if_pos hc, List.length_cons] at h
      obtain rfl := List.eq_nil_of_length_eq_zero (by omega : b.length = 0)
      exact ⟨List.mem_singleton.2 hc.symm, fun more => by simp [throughClose, hc]⟩
    · have hstep : ∀ more, throughClose n (c :: (b ++ more)) = throughClose (n + 1) (b ++ more) :=
        fun more => by rw [throughClose, if_neg hc]
      rw [List.cons_append, hstep, List.length_cons] at h
      exact (ih (by omega)).cons hstep

theorem endsWith_throughElement {closing : List Char} (hclosing : '>' ∉ closing)
    (h : throughElement closing n (b ++ r) = n + b.length) (hr : r ≠ []) :
    EndsWith (throughElement closing n) n b := by
  induction b generalizing n with
  | nil =>
    obtain ⟨d, r, rfl⟩ := List.exists_cons_of_ne_nil hr
    rw [List.nil_append, throughElement, List.length_nil] at h
    split at h
    · exact absurd (endsWith_throughClose (b := []) h hr).mem List.not_mem_nil
    · have hle := le_throughElement closing (n + 1) r
      omega
  | cons c b ih =>
    -- whether the closing tag starts here is seen before the next `>`
    have hfound : '>' ∈ c :: b → ∀ more,
        (afterAnyCase? closing (c :: (b ++ more))).isSome =
          (afterAnyCase? closing (c :: b)).isSome := by
      intro hmem more
      rw [← List.cons_append, afterAnyCase?_append hclosing hmem, Option.isSome_map]
    rw [List.cons_append, throughElement] at h
    split at h
    · next hsome =>
      have hends : EndsWith (throughClose n) n (c :: b) := endsWith_throughClose h hr
      rw [hfound hends.mem] at hsome
      refine ⟨hends.mem, fun more => ?_⟩
      rw [List.cons_append, throughElement, hfound hends.mem, if_pos hsome]
      exact hends.eq more
    · next hnone =>
      have hends : EndsWith (throughElement closing (n + 1)) (n + 1) b := by
        refine ih ?_
        rw [h, List.length_cons]
        omega
      have hmem : '>' ∈ c :: b := List.mem_cons_of_mem c hends.mem
      rw [hfound hmem] at hnone
      exact hends.cons fun more => by rw [throughElement, hfound hmem, if_neg hnone]

/-- A comment that ends before the markup does has its end mark. -/
theorem add_three_le_commentLength (h : commentLength n s < n + s.length) :
    n + 3 ≤ commentLength n s := by
  induction s generalizing n with
  | nil => exact absurd h (Nat.not_lt.2 (le_commentLength n []))
  | cons c s ih =>
    rw [commentLength] at h ⊢
    split
    · exact Nat.le_refl _
    · next hmark =>
      rw [if_neg hmark, List.length_cons] at h
      have hlater := ih (n := n + 1) (by omega)
      omega

theorem endsWith_commentLength (h : commentLength n (b ++ r) = n + b.length) (hr : r ≠ []) :
    EndsWith (commentLength n) n b := by
  have hpos := List.length_pos_of_ne_nil hr
  induction b generalizing n with
  | nil =>
    have hlong := add_three_le_commentLength (n := n) (s := [] ++ r) (by
      rw [h, List.length_append]
      omega)
    rw [h, List.length_nil] at hlong
    omega
  | cons c b ih =>
    have hlong := add_three_le_commentLength (n := n) (s := c :: b ++ r) (by
      rw [h, List.length_append]
      omega)
    have hthree : ['-', '-', '>'].length ≤ (c :: b).length := by
      rw [h] at hlong
      exact Nat.le_of_add_le_add_left hlong
    have hmark : ∀ more, ['-', '-', '>'].isPrefixOf (c :: (b ++ more)) =
        ['-', '-', '>'].isPrefixOf (c :: b) := by
      intro more
      rw [Bool.eq_iff_iff, List.isPrefixOf_iff_prefix, List.isPrefixOf_iff_prefix]
      constructor
      · intro hfront
        exact List.prefix_of_prefix_length_le hfront (List.prefix_append (c :: b) more) hthree
      · intro hfront
        exact hfront.trans (List.prefix_append (c :: b) more)
    rw [List.cons_append, commentLength, hmark] at h
    split at h
    · next hfound =>
      have hall := (List.isPrefixOf_iff_prefix.1 hfound).eq_of_length (by
        rw [List.length_cons] at h ⊢
        simp only [List.length_cons, List.length_nil] at hthree ⊢
        omega)
      refine ⟨hall ▸ by decide, fun more => ?_⟩
      rw [List.cons_append, commentLength, hmark, if_pos hfound]
      exact h
    · next hnone =>
      rw [List.length_cons] at h
      exact (ih (n := n + 1) (by omega)).cons fun more => by
        rw [commentLength, hmark, if_neg hnone]

theorem endsWith_tagLength {place : Place} (h : tagLength place n (b ++ r) = n + b.length)
    (hr : r ≠ []) : EndsWith (tagLength place n) n b := by
  induction b generalizing place n with
  | nil =>
    obtain ⟨d, r, rfl⟩ := List.exists_cons_of_ne_nil hr
    rw [List.nil_append, tagLength_cons, List.length_nil] at h
    cases hnext : place.next? d with
    | none =>
      rw [hnext, Option.elim_none] at h
      omega
    | some place' =>
      have hle := le_tagLength place' (n + 1) r
      rw [hnext, Option.elim_some] at h
      omega
  | cons c b ih =>
    rw [List.cons_append, tagLength_cons, List.length_cons] at h
    cases hnext : place.next? c with
    | none =>
      rw [hnext, Option.elim_none] at h
      obtain rfl := List.eq_nil_of_length_eq_zero (by omega : b.length = 0)
      refine ⟨List.mem_singleton.2 (eq_of_next?_eq_none hnext).symm, fun more => ?_⟩
      rw [List.cons_append, tagLength_cons, hnext]
      rfl
    | some place' =>
      rw [hnext, Option.elim_some] at h
      have hlater : tagLength place' (n + 1) (b ++ r) = n + 1 + b.length := by omega
      exact (ih hlater).cons fun more => by
        rw [tagLength_cons, hnext, Option.elim_some]

theorem endsWith_preservedLength? (h : preservedLength? (b ++ r) = some b.length) (hr : r ≠ []) :
    '>' ∈ b ∧ ∀ more, preservedLength? (b ++ more) = some b.length := by
  obtain ⟨⟨name, rest⟩, hread, hlength⟩ := Option.map_eq_some_iff.1 h
  obtain ⟨hmem, u, hsplit, hu⟩ := exists_of_preservedName? hread
  dsimp only at hlength
  have hle := le_throughElement ('<' :: '/' :: name) name.length rest
  have hgt := gt_notMem_of_preserved hmem
  have hname : name.length = u.length := by rw [← hu, List.length_map]
  -- the element ends behind its name
  obtain ⟨t, rfl⟩ : ∃ t, b = u ++ t := by
    have hfront : u <+: b ++ r := hsplit ▸ List.prefix_append u rest
    exact (List.prefix_of_prefix_length_le hfront (List.prefix_append b r) (by omega)).imp
      fun _ => Eq.symm
  rw [List.append_assoc] at hsplit
  obtain rfl := List.append_cancel_left hsplit
  rw [List.length_append] at hlength
  have hends : EndsWith (throughElement ('<' :: '/' :: name) name.length) name.length t :=
    endsWith_throughElement (by simp [hgt]) (by omega) hr
  have hin : '>' ∈ u ++ t := List.mem_append_right u hends.mem
  refine ⟨hin, fun more => ?_⟩
  rw [preservedName?_append hin] at hread
  obtain ⟨⟨name', rest'⟩, hfront, heq⟩ := Option.map_eq_some_iff.1 hread
  obtain ⟨rfl, hrest⟩ := Prod.mk.inj heq
  obtain rfl := List.append_cancel_right hrest
  rw [preservedLength?, preservedName?_append hin, hfront, List.length_append, ← hname]
  exact congrArg some (hends.eq more)

/-- What follows a `<` starts a tag or comment if its first character does. -/
theorem tagLength?_cons (c : Char) (s : List Char) : tagLength? (c :: s) =
    if startsTag c then
      some ((after? ['!', '-', '-'] (c :: s)).elim (tagLength (.plain false) 0 (c :: s))
        (commentLength 3))
    else none := by
  rw [tagLength?, startsTag]
  split
  · cases after? ['!', '-', '-'] (c :: s) <;> rfl
  · rfl

theorem endsWith_tagLength? (h : tagLength? (b ++ r) = some b.length) (hr : r ≠ []) :
    '>' ∈ b ∧ ∀ more, tagLength? (b ++ more) = some b.length := by
  have hpattern : '>' ∉ ['!', '-', '-'] := by decide
  obtain ⟨c, s, hsplit⟩ := List.exists_cons_of_ne_nil (List.append_ne_nil_of_right_ne_nil b hr)
  have hread := h
  rw [hsplit, tagLength?_cons, ← hsplit] at hread
  split at hread
  · next hstarts =>
    have hlength := Option.some.inj hread
    -- both kinds of reading start with the first character of `b`
    have hmore : ∀ more, '>' ∈ b → tagLength? (b ++ more) =
        some ((after? ['!', '-', '-'] (b ++ more)).elim (tagLength (.plain false) 0 (b ++ more))
          (commentLength 3)) := by
      intro more hmem
      obtain ⟨d, b, rfl⟩ := List.exists_cons_of_ne_nil (List.ne_nil_of_mem hmem)
      obtain ⟨rfl, -⟩ := List.cons.inj hsplit
      rw [List.cons_append, tagLength?_cons, if_pos hstarts]
    cases hafter : after? ['!', '-', '-'] (b ++ r) with
    | none =>
      rw [hafter, Option.elim_none] at hlength
      have hends : EndsWith (tagLength (.plain false) 0) 0 b :=
        endsWith_tagLength (by omega) hr
      rw [after?_append hpattern hends.mem, Option.map_eq_none_iff] at hafter
      refine ⟨hends.mem, fun more => ?_⟩
      rw [hmore more hends.mem, after?_append hpattern hends.mem, hafter, Option.map_none,
        Option.elim_none, hends.eq, Nat.zero_add]
    | some rest =>
      rw [hafter, Option.elim_some] at hlength
      have hle := le_commentLength 3 rest
      have hfront := eq_append_of_after? hafter
      obtain ⟨t, rfl⟩ : ['!', '-', '-'] <+: b :=
        List.prefix_of_prefix_length_le ⟨rest, hfront.symm⟩ (List.prefix_append b r)
          (Nat.le_trans hle (Nat.le_of_eq hlength))
      rw [List.append_assoc] at hfront
      obtain rfl := List.append_cancel_left hfront
      have hends : EndsWith (commentLength 3) 3 t :=
        endsWith_commentLength (hlength.trans List.length_append) hr
      have hmem : '>' ∈ ['!', '-', '-'] ++ t := List.mem_append_right _ hends.mem
      refine ⟨hmem, fun more => ?_⟩
      rw [hmore more hmem, List.length_append]
      exact congrArg some (hends.eq more)
  · cases hread

/-! Whole pieces -/

theorem wholeLength?_le {k : Nat} (h : wholeLength? s = some k) : k ≤ s.length := by
  rcases Option.or_eq_some_iff.1 h with h | ⟨-, h⟩
  · obtain ⟨⟨name, rest⟩, hread, rfl⟩ := Option.map_eq_some_iff.1 h
    obtain ⟨-, u, rfl, hu⟩ := exists_of_preservedName? hread
    have hle := throughElement_le_add ('<' :: '/' :: name) name.length rest
    rw [List.length_append, ← List.length_map Char.toLower, hu]
    exact hle
  · cases s with
    | nil => cases h
    | cons c s =>
      rw [tagLength?_cons] at h
      split at h
      · obtain rfl := Option.some.inj h
        cases hafter : after? ['!', '-', '-'] (c :: s) with
        | none => simpa using tagLength_le_add (.plain false) 0 (c :: s)
        | some rest =>
          rw [eq_append_of_after? hafter, List.length_append]
          exact commentLength_le_add 3 rest
      · cases h

/-- What stands behind a whole piece does not matter, unless nothing does. -/
theorem wholeLength?_append (h : wholeLength? (b ++ r) = some b.length) (hr : r ≠ [])
    (more : List Char) : wholeLength? (b ++ more) = some b.length := by
  rcases Option.or_eq_some_iff.1 h with hpreserved | ⟨hnone, htag⟩
  · rw [wholeLength?, (endsWith_preservedLength? hpreserved hr).2, Option.some_or]
  · obtain ⟨hmem, hends⟩ := endsWith_tagLength? htag hr
    have hname : preservedName? b = none := by
      rwa [preservedLength?, Option.map_eq_none_iff, preservedName?_append hmem,
        Option.map_eq_none_iff] at hnone
    rw [wholeLength?, preservedLength?, preservedName?_append hmem, hname]
    exact hends more

/-- A `<` starts a whole piece if, and only if, the next character can start a tag. -/
theorem wholeLength?_eq_none_iff :
    wholeLength? s = none ↔ ∀ c ∈ s.head?, startsTag c = false := by
  cases s with
  | nil => exact ⟨fun _ => nofun, fun _ => rfl⟩
  | cons d s =>
    constructor
    · intro h c hc
      obtain rfl := Option.some.inj hc
      rw [wholeLength?, Option.or_eq_none_iff, tagLength?_cons] at h
      split at h
      · cases h.2
      · next hnot => exact Bool.eq_false_iff.2 hnot
    · intro h
      exact wholeLength?_of_stray (h d rfl) s

end Folio.Markup
