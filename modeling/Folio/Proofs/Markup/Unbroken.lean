import Folio.Proofs.Markup.Delimited

/-! A style element at the start of a line. Whatever markup stands before it, in proper form or not, a
piece that is kept whole ends before the element or goes on through its end, so the element stands in
the minified page as it was written. -/
namespace Folio.Markup

open Text (isAsciiBlank afterAnyCase?)

variable {c : Char} {s t : List Char} {content : String}

/-- A style element. -/
def styleChars (content : String) : List Char := (Part.raw .style "" content).chars

theorem styleChars_eq (content : String) :
    styleChars content = ['<', 's', 't', 'y', 'l', 'e', '>'] ++
      (content.toList ++ ['<', '/', 's', 't', 'y', 'l', 'e', '>']) := by
  simp [styleChars, Part.chars, Fragment.text, RawName.text, RawName.closeTag]

theorem length_styleChars (content : String) :
    (styleChars content).length = content.toList.length + 15 := by
  simp only [styleChars_eq, List.length_append, List.length_cons, List.length_nil]
  omega

/-- Whether a style element follows that is at the start of a line: nothing is left before it, or the
end of a line, or text up to the end of a line that ended with a tag. -/
inductive Lined : List Char → Prop
  | nil : Lined []
  | newline : Lined ['\n']
  | tag (front : List Char) : Lined (front ++ ['>', '\n'])

namespace Lined

theorem tail (h : Lined (c :: s)) : Lined s := by
  generalize heq : c :: s = t at h
  cases h with
  | nil => cases heq
  | newline =>
    obtain ⟨-, rfl⟩ := List.cons.inj heq
    exact .nil
  | tag front =>
    cases front with
    | nil =>
      obtain ⟨-, rfl⟩ := List.cons.inj heq
      exact .newline
    | cons d front =>
      obtain ⟨-, rfl⟩ := List.cons.inj heq
      exact .tag front

theorem of_suffix (h : Lined s) (hsuffix : t <:+ s) : Lined t := by
  obtain ⟨front, rfl⟩ := hsuffix
  induction front with
  | nil => exact h
  | cons c front ih => exact ih h.tail

/-- Only the last character of a line is a line break of which nothing is said. -/
theorem exists_front (h : Lined (c :: s)) (hc : c ≠ '\n') (hend : c ≠ '>') :
    ∃ front, s = front ++ ['>', '\n'] := by
  generalize heq : c :: s = t at h
  cases h with
  | nil => cases heq
  | newline => exact (hc (List.cons.inj heq).1).elim
  | tag front =>
    cases front with
    | nil => exact (hend (List.cons.inj heq).1).elim
    | cons d front => exact ⟨front, (List.cons.inj heq).2⟩

end Lined

/-- Holds of ends that do not cut a style element after `n` characters: they are at its start or
before, or at its end or behind. -/
def Spares (content : String) (n stop : Nat) : Prop :=
  stop ≤ n ∨ n + (styleChars content).length ≤ stop

/-! Preserved elements -/

theorem throughClose_le (h : '>' ∈ s) (n : Nat) (more : List Char) :
    throughClose n (s ++ more) ≤ n + s.length := by
  obtain ⟨front, back, rfl, hfront⟩ := List.eq_append_cons_of_mem h
  rw [List.append_assoc, List.cons_append, throughClose_append hfront]
  simp only [List.length_append, List.length_cons]
  omega

/-- The closing tag that is looked for is found before the element, or not before its end. -/
theorem throughElement_spares (name : List Char) (hcontent : '<' ∉ content.toList) (hs : Lined s)
    (n : Nat) (more : List Char) :
    Spares content (n + s.length)
      (throughElement ('<' :: '/' :: name) n (s ++ (styleChars content ++ more))) := by
  induction s generalizing n with
  | nil =>
    refine .inr ?_
    have hopening : Passes name ('<' :: 's' :: (['t', 'y', 'l', 'e', '>'] ++ content.toList)) := by
      refine Passes.stray (by decide) (Passes.of_not_mem ?_)
      rw [← List.cons_append, List.mem_append, not_or]
      exact ⟨by decide, hcontent⟩
    have hclosing : ∀ m, m + 8 ≤ throughElement ('<' :: '/' :: name) m
        (['<', '/', 's', 't', 'y', 'l', 'e'] ++ '>' :: more) := by
      intro m
      have hname : Passes name ['/', 's', 't', 'y', 'l', 'e', '>'] := .of_not_mem (by decide)
      rw [List.cons_append, throughElement]
      split
      · rw [← List.cons_append, throughClose_append (by decide)]
        exact Nat.le_refl _
      · have hpassed := hname (m + 1) more
        exact Nat.le_trans (le_throughElement _ (m + 8) more) (Nat.le_of_eq hpassed.symm)
    have hsplit : [] ++ (styleChars content ++ more) =
        ('<' :: 's' :: (['t', 'y', 'l', 'e', '>'] ++ content.toList)) ++
          (['<', '/', 's', 't', 'y', 'l', 'e'] ++ '>' :: more) := by
      simp [styleChars_eq]
    rw [hsplit, hopening, length_styleChars]
    refine Nat.le_trans ?_ (hclosing _)
    simp only [List.length_cons, List.length_append, List.length_nil]
    omega
  | cons c s ih =>
    rw [List.cons_append, throughElement]
    split
    · next hfound =>
      refine .inl ?_
      have hlt : c = '<' := by
        rw [afterAnyCase?] at hfound
        split at hfound
        · next hc => exact Text.eq_of_toLower_eq hc.symm rfl
        · cases hfound
      obtain ⟨front, rfl⟩ := hs.exists_front (by rw [hlt]; decide) (by rw [hlt]; decide)
      rw [← List.cons_append]
      exact throughClose_le (by simp) n _
    · have hrest := ih hs.tail (n + 1)
      rwa [Nat.add_assoc, Nat.add_comm 1, ← List.length_cons] at hrest

/-! Comments -/

/-- An end of a tag is no end of a comment if no dash stands before it. -/
theorem commentLength_append {d : Char} (hs : '>' ∉ s) (hdash : d ≠ '-') (hend : d ≠ '>') (n : Nat)
    (more : List Char) :
    commentLength n (s ++ d :: '>' :: more) = commentLength (n + s.length + 2) more := by
  induction s generalizing n with
  | nil =>
    have hfirst : ['-', '-', '>'].isPrefixOf (d :: '>' :: more) = false := by
      rw [List.isPrefixOf, beq_eq_false_iff_ne.2 (Ne.symm hdash), Bool.false_and]
    rw [List.nil_append, commentLength, hfirst, if_neg Bool.false_ne_true, commentLength]
    rfl
  | cons c s ih =>
    rw [List.mem_cons, not_or] at hs
    have hnot : ['-', '-', '>'].isPrefixOf (c :: (s ++ d :: '>' :: more)) = false := by
      rcases s with - | ⟨e, - | ⟨f, s⟩⟩
      · simp [List.isPrefixOf, Ne.symm hdash]
      · simp [List.isPrefixOf, Ne.symm hend]
      · have hthird : '>' ≠ f := by
          rintro rfl
          exact hs.2 (by simp)
        simp [List.isPrefixOf, hthird]
    rw [List.cons_append, commentLength, hnot, if_neg Bool.false_ne_true, ih hs.2, List.length_cons]
    congr 1
    omega

theorem commentLength_spares (hcontent : '>' ∉ content.toList) (hs : Lined s)
    (n : Nat) (more : List Char) :
    Spares content (n + s.length) (commentLength n (s ++ (styleChars content ++ more))) := by
  induction s generalizing n with
  | nil =>
    refine .inr ?_
    have hopening : '>' ∉ ['<', 's', 't', 'y', 'l'] := by decide
    have hclosing : '>' ∉ content.toList ++ ['<', '/', 's', 't', 'y', 'l'] := by
      rw [List.mem_append, not_or]
      exact ⟨hcontent, by decide⟩
    have hsplit : [] ++ (styleChars content ++ more) = ['<', 's', 't', 'y', 'l'] ++ 'e' :: '>' ::
        ((content.toList ++ ['<', '/', 's', 't', 'y', 'l']) ++ 'e' :: '>' :: more) := by
      simp [styleChars_eq]
    rw [hsplit, commentLength_append hopening (by decide) (by decide),
      commentLength_append hclosing (by decide) (by decide), length_styleChars]
    refine Nat.le_trans ?_ (le_commentLength _ more)
    simp only [List.length_cons, List.length_append, List.length_nil]
    omega
  | cons c s ih =>
    rw [List.cons_append, commentLength]
    split
    · next hmark =>
      refine .inl ?_
      have hdash : '-' = c := (List.cons_prefix_cons.1 (List.isPrefixOf_iff_prefix.1 hmark)).1
      obtain ⟨front, rfl⟩ := hs.exists_front (by rw [← hdash]; decide) (by rw [← hdash]; decide)
      simp only [List.length_cons, List.length_append, List.length_nil]
      omega
    · have hrest := ih hs.tail (n + 1)
      rwa [Nat.add_assoc, Nat.add_comm 1, ← List.length_cons] at hrest

/-! Tags -/

/-- Holds inside of quotes and outside, but of no other character that would count as a quote. -/
def Place.Sound : Place → Prop
  | .quoted q => q = '"' ∨ q = '\''
  | .plain _ => True

/-- A tag that is not at its end before a `>` does not end before it. -/
theorem le_tagLength_append (hs : '>' ∉ s) (place : Place) (n : Nat) (more : List Char) :
    n + s.length + 1 ≤ tagLength place n (s ++ '>' :: more) := by
  induction s generalizing place n with
  | nil =>
    cases place with
    | quoted q => exact le_tagLength _ (n + 1) more
    | plain eq =>
      rw [List.nil_append, tagLength]
      cases eq <;> exact Nat.le_refl _
  | cons c s ih =>
    rw [List.mem_cons, not_or] at hs
    rw [List.length_cons, List.cons_append]
    have hrest : ∀ place, n + (s.length + 1) + 1 ≤ tagLength place (n + 1) (s ++ '>' :: more) := by
      intro place
      refine Nat.le_trans ?_ (ih hs.2 place (n + 1))
      omega
    cases place with
    | quoted q => exact hrest _
    | plain eq =>
      rw [tagLength, if_neg (Ne.symm hs.1)]
      split
      · exact hrest _
      · split <;> exact hrest _

/-- A tag that does not end in the last line is inside of quotes when the line ends, for a `>` outside
ends it; so it takes the opening tag of the element for a part of its value. -/
theorem tagLength_spares (hcontent : '>' ∉ content.toList) {place : Place} (hplace : place.Sound)
    (n : Nat) (front more : List Char) :
    Spares content (n + front.length + 2)
      (tagLength place n (front ++ ['>', '\n'] ++ (styleChars content ++ more))) := by
  induction front generalizing place n with
  | nil =>
    cases place with
    | plain eq =>
      refine .inl ?_
      have hend : tagLength (.plain eq) n
          ([] ++ ['>', '\n'] ++ (styleChars content ++ more)) = n + 1 := by
        cases eq <;> rfl
      rw [hend]
      simp
    | quoted q =>
      refine .inr ?_
      have hquote : q ∉ ['>', '\n', '<', 's', 't', 'y', 'l', 'e', '>'] := by
        rcases hplace with rfl | rfl <;> decide
      have hclosing : '>' ∉ content.toList ++ ['<', '/', 's', 't', 'y', 'l', 'e'] := by
        rw [List.mem_append, not_or]
        exact ⟨hcontent, by decide⟩
      have hsplit : [] ++ ['>', '\n'] ++ (styleChars content ++ more) =
          ['>', '\n', '<', 's', 't', 'y', 'l', 'e', '>'] ++
            ((content.toList ++ ['<', '/', 's', 't', 'y', 'l', 'e']) ++ '>' :: more) := by
        simp [styleChars_eq]
      rw [hsplit, tagLength_inside hquote, length_styleChars]
      refine Nat.le_trans ?_ (le_tagLength_append hclosing _ _ more)
      simp only [List.length_cons, List.length_append, List.length_nil]
      omega
  | cons c front ih =>
    have hrest : ∀ {place : Place}, place.Sound → Spares content (n + (front.length + 1) + 2)
        (tagLength place (n + 1) (front ++ ['>', '\n'] ++ (styleChars content ++ more))) := by
      intro place hplace
      have hlater := ih hplace (n + 1)
      rwa [Nat.add_right_comm n 1] at hlater
    rw [List.length_cons, List.cons_append, List.cons_append]
    cases place with
    | quoted q =>
      rw [tagLength]
      refine hrest ?_
      split
      · trivial
      · exact hplace
    | plain eq =>
      rw [tagLength]
      split
      · next hopens =>
        refine hrest ?_
        simpa [Place.Sound] using (Bool.and_eq_true_iff.1 hopens).2
      · split
        · exact .inl (by omega)
        · split
          · exact hrest trivial
          · exact hrest trivial

/-! Whole pieces -/

/-- A name is read in front of the first `>`. -/
theorem exists_of_append_eq {u back front more : List Char} (hu : '>' ∉ u)
    (h : u ++ back = front ++ '>' :: more) :
    ∃ rest, front = u ++ rest ∧ back = rest ++ '>' :: more := by
  rcases List.append_eq_append_iff.1 h with ⟨rest, hfront, hback⟩ | ⟨rest, heq, hmore⟩
  · exact ⟨rest, hfront, hback⟩
  · cases rest with
    | nil => exact ⟨[], by simpa using heq.symm, by simpa using hmore.symm⟩
    | cons c rest =>
      obtain rfl := (List.cons.inj hmore).1
      exact (hu (heq ▸ List.mem_append_right _ List.mem_cons_self)).elim

theorem preservedLength?_spares (hcontent : '<' ∉ content.toList) {front more : List Char} {n : Nat}
    (h : preservedLength? (front ++ ['>', '\n'] ++ (styleChars content ++ more)) = some n) :
    Spares content (front.length + 2) n := by
  obtain ⟨⟨name, rest⟩, hread, rfl⟩ := Option.map_eq_some_iff.1 h
  obtain ⟨hname, u, hsplit, hu⟩ := exists_of_preservedName? hread
  have hgt : '>' ∉ u := fun hmem => gt_notMem_of_preserved hname (hu ▸ List.mem_map_of_mem hmem)
  rw [List.append_assoc] at hsplit
  obtain ⟨left, rfl, rfl⟩ := exists_of_append_eq hgt hsplit.symm
  have hspares := throughElement_spares name hcontent (.tag left) name.length more
  have hlength : name.length = u.length := by rw [← hu, List.length_map]
  have hlast : u.length + (left ++ ['>', '\n']).length = (u ++ left).length + 2 := by
    simp only [List.length_append, List.length_cons, List.length_nil]
    omega
  rw [List.append_assoc, hlength, hlast] at hspares
  rw [← hlength] at hspares
  exact hspares

theorem tagLength?_spares (hcontent : '>' ∉ content.toList) {front more : List Char} {n : Nat}
    (h : tagLength? (front ++ ['>', '\n'] ++ (styleChars content ++ more)) = some n) :
    Spares content (front.length + 2) n := by
  unfold tagLength? at h
  split at h
  · cases h
  · next c rest hsplit =>
    split at h
    · split at h
      · next back hback =>
        obtain rfl := Option.some.inj h
        have hback := eq_append_of_after? hback
        rw [List.append_assoc] at hback
        obtain ⟨left, rfl, rfl⟩ := exists_of_append_eq (by decide) hback.symm
        have hspares := commentLength_spares hcontent (.tag left) 3 more
        have hlast : 3 + (left ++ ['>', '\n']).length = (['!', '-', '-'] ++ left).length + 2 := by
          simp only [List.length_append, List.length_cons, List.length_nil]
          omega
        rwa [List.append_assoc, hlast] at hspares
      · obtain rfl := Option.some.inj h
        have houtside : (Place.plain false).Sound := trivial
        have hspares := tagLength_spares hcontent houtside 0 front more
        rwa [Nat.zero_add] at hspares
    · cases h

theorem wholeLength?_spares (hcontent : ∀ c ∈ content.toList, c ≠ '<' ∧ c ≠ '>')
    {front more : List Char} {n : Nat}
    (h : wholeLength? (front ++ ['>', '\n'] ++ (styleChars content ++ more)) = some n) :
    Spares content (front.length + 2) n := by
  rcases Option.or_eq_some_iff.1 h with h | ⟨-, h⟩
  · exact preservedLength?_spares (fun hmem => (hcontent _ hmem).1 rfl) h
  · exact tagLength?_spares (fun hmem => (hcontent _ hmem).2 rfl) h

/-! The minified page -/

theorem exists_joinFrom (done : List Char) (ps : List Piece) :
    ∃ out, joinFrom done ps = done.reverse ++ out := by
  induction ps generalizing done with
  | nil => exact ⟨[], by simp [joinFrom]⟩
  | cons p ps ih =>
    have hlonger : ∀ more : List Char,
        ∃ out, joinFrom (more.reverseAux done) ps = done.reverse ++ out := by
      intro more
      obtain ⟨out, hout⟩ := ih (more.reverseAux done)
      refine ⟨more ++ out, ?_⟩
      rw [hout, List.reverseAux_eq, List.reverse_append, List.reverse_reverse, List.append_assoc]
    cases p with
    | whole s => exact hlonger s
    | visible c => exact hlonger [c]
    | blank run =>
      rw [joinFrom]
      split
      · exact hlonger run
      · split
        · exact ih done
        · exact hlonger [' ']

theorem infix_minifyIn_nil (h : (Fragment.raw .style "" content).Sealed) (done more : List Char) :
    styleChars content <:+: minifyIn none done (styleChars content ++ more) := by
  have hsound : (Part.raw .style "" content).Sound none := ⟨rfl, .nil, h⟩
  have hstep := Part.steps_outside hsound nofun done more
  obtain ⟨out, hout⟩ := exists_joinFrom ((styleChars content).reverseAux done) (cut more)
  refine ⟨done.reverse, out, ?_⟩
  rw [← styleChars] at hstep
  rw [hstep, minifyIn.eq_def]
  simpa [Part.after, List.reverseAux_eq] using hout.symm

/-- The induction over what is left in front of the element: every piece spares it. -/
theorem infix_minifyIn (h : (Fragment.raw .style "" content).Sealed)
    (hcontent : ∀ c ∈ content.toList, c ≠ '<' ∧ c ≠ '>') (hs : Lined s) (done more : List Char) :
    styleChars content <:+: minifyIn none done (s ++ (styleChars content ++ more)) := by
  induction hlength : s.length using Nat.strongRecOn generalizing s done with
  | ind n ih =>
  subst hlength
  cases s with
  | nil => exact infix_minifyIn_nil h done more
  | cons c s =>
    have hshorter : ∀ t, t <:+ s → ∀ done,
        styleChars content <:+: minifyIn none done (t ++ (styleChars content ++ more)) :=
      fun t ht done => ih _ (Nat.lt_succ_of_le ht.length_le) (hs.tail.of_suffix ht) done rfl
    by_cases hblank : isAsciiBlank c = true
    · have hrun : ∀ d ∈ c :: s.takeWhile isAsciiBlank, isAsciiBlank d = true :=
        List.forall_mem_cons.2 ⟨hblank, List.all_eq_true.1 List.all_takeWhile⟩
      have hrest : ∀ d ∈ (s.dropWhile isAsciiBlank ++ (styleChars content ++ more)).head?,
          isAsciiBlank d = false := by
        have hstop := List.head?_dropWhile_not isAsciiBlank s
        cases hleft : s.dropWhile isAsciiBlank with
        | nil =>
          rw [styleChars_eq]
          rintro d ⟨⟩
          rfl
        | cons e rest =>
          rw [hleft] at hstop
          rintro d ⟨⟩
          exact hstop
      obtain ⟨out, -, hskip⟩ := minifyIn_run hrun hrest done
      have hsplit : c :: s ++ (styleChars content ++ more) = (c :: s.takeWhile isAsciiBlank) ++
          (s.dropWhile isAsciiBlank ++ (styleChars content ++ more)) := by
        rw [List.cons_append, List.cons_append, ← List.append_assoc (List.takeWhile _ s),
          List.takeWhile_append_dropWhile]
      rw [hsplit, hskip]
      exact hshorter _ (List.dropWhile_suffix _) _
    · rw [Bool.not_eq_true] at hblank
      by_cases hwhole : c = '<' ∧ (wholeLength? (s ++ (styleChars content ++ more))).isSome = true
      · obtain ⟨rfl, hsome⟩ := hwhole
        obtain ⟨k, hk⟩ := Option.isSome_iff_exists.1 hsome
        obtain ⟨front, rfl⟩ := hs.exists_front (by decide) (by decide)
        rw [List.cons_append, minifyIn, cut_whole hk, joinFrom]
        rcases wholeLength?_spares hcontent hk with hbefore | hbehind
        · have hle : k ≤ (front ++ ['>', '\n']).length := by simpa using hbefore
          rw [List.drop_append_of_le_length hle]
          exact hshorter _ (List.drop_suffix k _) _
        · have hlength : (front ++ ['>', '\n']).length = front.length + 2 := by simp
          rw [← hlength] at hbehind
          obtain ⟨j, rfl⟩ := Nat.exists_eq_add_of_le hbehind
          rw [Nat.add_assoc, List.take_length_add_append, List.take_length_add_append]
          obtain ⟨out, hout⟩ := exists_joinFrom _ _
          rw [hout]
          exact ⟨done.reverse ++ '<' :: (front ++ ['>', '\n']), more.take j ++ out, by
            simp [List.reverseAux_eq]⟩
      · have hnone : c = '<' → wholeLength? (s ++ (styleChars content ++ more)) = none :=
          fun hlt => by simpa [hlt] using hwhole
        rw [List.cons_append, minifyIn_visible hblank hnone]
        exact hshorter s (List.suffix_refl s) _

/-- A style element on a line of its own after markup that ends in a tag stands in the minified
markup as it was written. -/
theorem style_infix_minify {html : String} {front back : List Char}
    (hcontent : Style.IsBare content.toList) (hfront : Lined front)
    (hhtml : html.toList = front ++ (styleChars content ++ back)) :
    styleChars content <:+: (minify html).toList := by
  by_cases hlong : minifyLimit < html.utf8ByteSize
  · rw [minify, if_pos hlong, hhtml]
    exact ⟨front, back, List.append_assoc ..⟩
  · rw [toList_minify (Nat.not_lt.1 hlong), hhtml]
    exact infix_minifyIn (Fragment.sealed_of_isBare hcontent)
      (fun c hc => ⟨(hcontent c hc).1, (hcontent c hc).2.1⟩) hfront [] back

end Folio.Markup
