import Folio.Proofs.Text.Kebab
import Folio.Text.Escape

/-! Where a pattern occurs in texts that were joined, put into small letters, or broken up by a
replacement. -/
namespace Folio.Text

variable {p s t : List Char} {c d : Char}

theorem occurs_iff_infix : occurs p s = true ↔ p <:+: s := by
  induction s with
  | nil => simp [occurs]
  | cons c s ih =>
    rw [occurs, Bool.or_eq_true, List.isPrefixOf_iff_prefix, ih, List.infix_cons_iff]

/-- A pattern that runs over a border holds the characters on both sides of it. -/
theorem not_infix_append (hs : ¬ p <:+: s) (ht : ¬ p <:+: t)
    (hborder : (∀ c ∈ s.getLast?, c ∉ p) ∨ ∀ c ∈ t.head?, c ∉ p) : ¬ p <:+: s ++ t := by
  intro h
  rcases List.infix_append_iff.1 h with h | h | ⟨u, v, rfl, hu, hv⟩
  · exact hs h
  · exact ht h
  rcases List.eq_nil_or_concat u with rfl | ⟨u, c, rfl⟩
  · exact ht hv.isInfix
  cases v with
  | nil =>
    rw [List.append_nil] at hs
    exact hs hu.isInfix
  | cons d v =>
    obtain ⟨before, rfl⟩ := hu
    obtain ⟨after, rfl⟩ := hv
    rcases hborder with hborder | hborder
    · exact hborder c (by simp) (by simp)
    · exact hborder d (by simp) (by simp)

/-- A pattern starts where its first character stands. -/
theorem infix_of_infix_append (hc : c ∉ s) (h : c :: p <:+: s ++ t) : c :: p <:+: t := by
  induction s with
  | nil => exact h
  | cons d s ih =>
    rw [List.mem_cons, not_or] at hc
    rw [List.cons_append, List.infix_cons_iff] at h
    rcases h with h | h
    · exact (hc.1 (List.cons_prefix_cons.1 h).1).elim
    · exact ih hc.2 h

/-- A pattern does not run over a character that it does not hold. -/
theorem infix_append_cons_iff (hc : c ∉ p) (hp : p ≠ []) :
    p <:+: s ++ c :: t ↔ p <:+: s ∨ p <:+: t := by
  constructor
  · intro h
    by_cases hs : p <:+: s
    · exact .inl hs
    by_cases ht : p <:+: t
    · exact .inr ht
    refine (not_infix_append hs (fun hin => ?_) (.inr (by simpa using hc)) h).elim
    obtain ⟨d, q, rfl⟩ := List.exists_cons_of_ne_nil hp
    have hd : d ∉ [c] := by simpa using fun heq : d = c => hc (heq ▸ List.mem_cons_self)
    exact ht (infix_of_infix_append hd hin)
  · rintro (h | h)
    · exact h.trans (List.prefix_append ..).isInfix
    · exact h.trans ((List.suffix_cons ..).trans (List.suffix_append ..)).isInfix

/-! Small letters -/

theorem toLower_of_not_isUpper (h : c.isUpper = false) : c.toLower = c := by
  have hrange : ¬ (c.val ≥ 'A'.val ∧ c.val ≤ 'Z'.val) := of_decide_eq_false h
  unfold Char.toLower
  exact dif_neg hrange

/-- A character that is no small letter is the small form of itself only. -/
theorem eq_of_toLower_eq (h : c.toLower = d) (hd : d.isLower = false) : c = d := by
  cases hc : c.isUpper with
  | false => rw [← h, toLower_of_not_isUpper hc]
  | true =>
    have hlower := isLower_toLower hc
    rw [h, hd] at hlower
    cases hlower

theorem infix_of_infix_map_toLower (hp : ∀ c ∈ p, c.isLower = false)
    (h : p <:+: s.map Char.toLower) : p <:+: s := by
  obtain ⟨q, hq, rfl⟩ := List.infix_map_iff.1 h
  have hsame : q.map Char.toLower = q := by
    have hfixed : ∀ c ∈ q, c.toLower = c := by
      intro c hc
      exact (eq_of_toLower_eq rfl (hp _ (List.mem_map_of_mem hc))).symm
    exact (List.map_congr_left hfixed).trans (List.map_id q)
  rwa [hsame]

/-! Replacement -/

section Replacement

variable {old new : List Char}

theorem replaceFrom_eq_drop (old new : List Char) (skip : Nat) (s : List Char) :
    replaceFrom old new [] skip s = replaceAll old new (s.drop skip) := by
  induction s generalizing skip with
  | nil => cases skip <;> rfl
  | cons c s ih =>
    cases skip with
    | zero => rfl
    | succ skip => exact ih skip

theorem replaceAll_append_self (h : old ≠ []) (s : List Char) :
    replaceAll old new (old ++ s) = new ++ replaceAll old new s := by
  cases old with
  | nil => exact (h rfl).elim
  | cons c old =>
    have hprefix : (c :: old).isPrefixOf (c :: (old ++ s)) = true :=
      List.isPrefixOf_iff_prefix.2 ⟨s, rfl⟩
    rw [List.cons_append, replaceAll, replaceFrom, if_pos hprefix, replaceFrom_eq,
      List.length_cons, Nat.add_sub_cancel, replaceFrom_eq_drop, List.drop_left]
    simp [List.reverseAux_eq]

theorem replaceAll_cons (h : ¬ old <+: c :: s) :
    replaceAll old new (c :: s) = c :: replaceAll old new s := by
  rw [← List.isPrefixOf_iff_prefix] at h
  rw [replaceAll, replaceFrom, if_neg h, replaceFrom_eq]
  rfl

/-- A last character that no pattern holds stays the last one. -/
theorem replaceAll_concat (hne : old ≠ []) (hc : c ∉ old) (s : List Char) :
    replaceAll old new (s ++ [c]) = replaceAll old new s ++ [c] := by
  have hlast : ∀ s, old ≠ s ++ [c] := by
    rintro s rfl
    exact hc (List.mem_append_right _ (List.mem_singleton_self c))
  match s with
  | [] =>
    have hnone : ¬ old <+: [] ++ [c] := by
      intro h
      rcases List.prefix_concat_iff.1 h with h | h
      · exact hlast [] h
      · exact hne (List.prefix_nil.1 h)
    exact replaceAll_cons hnone
  | d :: s =>
    by_cases hmatch : old <+: d :: s
    · obtain ⟨tail, htail⟩ := hmatch
      have hshorter : tail.length < s.length + 1 := by
        have hpos := List.length_pos_iff.2 hne
        have := congrArg List.length htail
        simp only [List.length_append, List.length_cons] at this
        omega
      rw [← htail, List.append_assoc, replaceAll_append_self hne, replaceAll_append_self hne,
        replaceAll_concat hne hc tail, List.append_assoc]
    · have hlater : ¬ old <+: d :: (s ++ [c]) := by
        intro h
        rcases List.prefix_concat_iff.1 (List.cons_append ▸ h) with h | h
        · exact hlast (d :: s) h
        · exact hmatch h
      rw [List.cons_append, replaceAll_cons hlater, replaceAll_cons hmatch,
        replaceAll_concat hne hc s, List.cons_append]
termination_by s.length

variable {a x : Char} {rest : List Char}

/-- What a replaced text starts with was there before, unless it starts with a replacement. -/
theorem prefix_of_prefix_replaceAll (ha : a ∉ p)
    (h : p <+: replaceAll (a :: rest) (a :: new) s) : p <+: s := by
  induction p generalizing s with
  | nil => exact List.nil_prefix
  | cons c p ih =>
    rw [List.mem_cons, not_or] at ha
    cases s with
    | nil => exact h
    | cons d s =>
      by_cases hd : a :: rest <+: d :: s
      · obtain ⟨tail, htail⟩ := hd
        rw [← htail, replaceAll_append_self (List.cons_ne_nil a rest)] at h
        exact (ha.1 (List.cons_prefix_cons.1 h).1.symm).elim
      · rw [replaceAll_cons hd, List.cons_prefix_cons] at h
        exact List.cons_prefix_cons.2 ⟨h.1, ih ha.2 h.2⟩

/-- A replacement puts a character `x` after the first one of what it replaces. It leaves no
occurrence of a pattern that occurred only where something was replaced. -/
theorem not_infix_replaceAll (s : List Char) (hrest : a ∉ rest) (hx : x ≠ a) (hp : a ∉ p)
    (hxp : x ∉ p) (hne : p ≠ []) (h : ∀ t, t <:+ s → a :: p <+: t → a :: rest <+: t) :
    ¬ a :: p <:+: replaceAll (a :: rest) (a :: x :: rest) s := by
  match s with
  | [] =>
    intro hin
    have hnil : replaceAll (a :: rest) (a :: x :: rest) [] = [] := rfl
    rw [hnil, List.infix_nil] at hin
    cases hin
  | c :: s =>
    intro hin
    by_cases hc : a :: rest <+: c :: s
    · obtain ⟨tail, htail⟩ := hc
      have hshorter : tail.length < s.length + 1 := by
        have := congrArg List.length htail
        simp only [List.length_append, List.length_cons] at this
        omega
      have htails : ∀ t, t <:+ tail → a :: p <+: t → a :: rest <+: t := by
        intro t ht
        exact h t (ht.trans ⟨a :: rest, htail⟩)
      rw [← htail, replaceAll_append_self (List.cons_ne_nil a rest), List.cons_append,
        List.infix_cons_iff] at hin
      rcases hin with hin | hin
      · -- the second character is `x` now
        obtain ⟨b, q, rfl⟩ := List.exists_cons_of_ne_nil hne
        have hb := (List.cons_prefix_cons.1 (List.cons_prefix_cons.1 hin).2).1
        exact hxp (hb ▸ List.mem_cons_self)
      · have ha : a ∉ x :: rest := by simp [Ne.symm hx, hrest]
        exact not_infix_replaceAll tail hrest hx hp hxp hne htails (infix_of_infix_append ha hin)
    · have htails : ∀ t, t <:+ s → a :: p <+: t → a :: rest <+: t := by
        intro t ht
        exact h t (ht.trans (List.suffix_cons c s))
      rw [replaceAll_cons hc, List.infix_cons_iff] at hin
      rcases hin with hin | hin
      · obtain ⟨hac, hrun⟩ := List.cons_prefix_cons.1 hin
        have hthere : a :: p <+: c :: s :=
          List.cons_prefix_cons.2 ⟨hac, prefix_of_prefix_replaceAll hp hrun⟩
        exact hc (h _ List.suffix_rfl hthere)
      · exact not_infix_replaceAll s hrest hx hp hxp hne htails hin
termination_by s.length

end Replacement

/-! Embedded texts -/

/-- No closing tag can start in an embedded text. -/
theorem not_infix_embedChars_closing (s : List Char) : ¬ ['<', '/'] <:+: embedChars s := by
  have hbroken : ¬ ['<', '/'] <:+: replaceAll ['<', '/'] ['<', '\\', '/'] s :=
    not_infix_replaceAll s (by decide) (by decide) (by decide) (by decide) (by decide)
      fun _ _ ht => ht
  refine not_infix_replaceAll _ (by decide) (by decide) (by decide) (by decide) (by decide) ?_
  intro t ht hclosing
  exact (hbroken (hclosing.isInfix.trans ht.isInfix)).elim

/-- No comment can start in an embedded text. -/
theorem not_infix_embedChars_comment (s : List Char) :
    ¬ ['<', '!', '-', '-'] <:+: embedChars s :=
  not_infix_replaceAll _ (by decide) (by decide) (by decide) (by decide) (by decide)
    fun _ _ ht => ht

/-- Quotation marks around a text are embedded as they are. -/
theorem embedChars_quoted (s : List Char) :
    embedChars ('"' :: s ++ ['"']) = '"' :: embedChars s ++ ['"'] := by
  have hfirst : ∀ rest s : List Char, ¬ '<' :: rest <+: '"' :: s := by
    intro rest s h
    exact absurd (List.cons_prefix_cons.1 h).1 (by decide)
  simp only [embedChars, List.cons_append]
  rw [replaceAll_cons (hfirst _ _), replaceAll_concat (by decide) (by decide),
    replaceAll_cons (hfirst _ _), replaceAll_concat (by decide) (by decide)]

theorem infix_join {part : String} {parts : List String} (h : part ∈ parts) :
    part.toList <:+: (String.join parts).toList := by
  obtain ⟨before, after, rfl⟩ := List.append_of_mem h
  exact ⟨(String.join before).toList, (String.join after).toList, by simp⟩

end Folio.Text
