import Folio.Proofs.Markup.Parts

/-! How the scanner goes through sound parts: outside of preserved elements it keeps every tag and
raw element whole and shrinks white space of texts, inside it keeps everything, and it comes out of a
preserved element where the parts say so. -/
namespace Folio.Markup

open Text (isAsciiBlank IsKebab afterAnyCase?)

/-! Cutting -/

theorem cutFrom_eq (done : List Piece) (s : List Char) :
    cutFrom done s = done.reverse ++ cut s := by
  induction hlength : s.length using Nat.strongRecOn generalizing done s with
  | ind n ih =>
  subst hlength
  cases s with
  | nil => simp [cut, cutFrom]
  | cons c s =>
    have hdrop : ∀ k, (s.drop k).length < (c :: s).length := fun k => by
      rw [List.length_drop, List.length_cons]
      omega
    have hblank : (s.dropWhile isAsciiBlank).length < (c :: s).length :=
      Nat.lt_succ_of_le (List.dropWhile_sublist isAsciiBlank).length_le
    rw [cut, cutFrom, cutFrom]
    split
    · next k _ =>
      rw [ih _ (hdrop k) (_ :: done) _ rfl, ih _ (hdrop k) [_] _ rfl]
      simp
    · split
      · rw [ih _ hblank (_ :: done) _ rfl, ih _ hblank [_] _ rfl]
        simp
      · rw [ih _ (Nat.lt_succ_self _) (_ :: done) _ rfl, ih _ (Nat.lt_succ_self _) [_] _ rfl]
        simp

theorem cut_nil : cut [] = [] := by simp [cut, cutFrom]

theorem cut_whole {n : Nat} {s : List Char} (h : wholeLength? s = some n) :
    cut ('<' :: s) = .whole ('<' :: s.take n) :: cut (s.drop n) := by
  rw [cut, cutFrom, if_pos rfl, h]
  dsimp only
  rw [cutFrom_eq]
  rfl

theorem cut_visible {c : Char} {s : List Char} (hc : isAsciiBlank c = false)
    (h : c = '<' → wholeLength? s = none) : cut (c :: s) = .visible c :: cut s := by
  have hnone : (if c = '<' then wholeLength? s else none) = none := by
    split
    · next hlt => exact h hlt
    · rfl
  rw [cut, cutFrom, hnone]
  dsimp only
  rw [hc, if_neg Bool.false_ne_true, cutFrom_eq]
  rfl

theorem cut_blank {run rest : List Char} (hne : run ≠ [])
    (hrun : ∀ c ∈ run, isAsciiBlank c = true) (hrest : ∀ c ∈ rest.head?, isAsciiBlank c = false) :
    cut (run ++ rest) = .blank run :: cut rest := by
  obtain ⟨c, run, rfl⟩ := List.exists_cons_of_ne_nil hne
  rw [List.forall_mem_cons] at hrun
  have hc : c ≠ '<' := by
    rintro rfl
    exact Bool.false_ne_true hrun.1
  have htake : (run ++ rest).takeWhile isAsciiBlank = run := by
    rw [List.takeWhile_append_of_pos hrun.2]
    cases rest with
    | nil => simp
    | cons d rest => simp [hrest d rfl]
  have hdrop : (run ++ rest).dropWhile isAsciiBlank = rest := by
    rw [List.dropWhile_append_of_pos hrun.2]
    cases rest with
    | nil => rfl
    | cons d rest => simp [hrest d rfl]
  rw [List.cons_append, cut, cutFrom, if_neg hc]
  dsimp only
  rw [if_pos hrun.1, cutFrom_eq, htake, hdrop]
  rfl

theorem toList_minify {html : String} (h : html.utf8ByteSize ≤ minifyLimit) :
    (minify html).toList = minifyChars html.toList := by
  rw [minify, if_neg (Nat.not_lt.2 h), Text.toList_via]

/-! The markup that comes out from a place on -/

/-- The minified markup from a place on, inside a preserved element or outside; `done` is what came
out before, reversed. -/
def minifyIn : Option String → List Char → List Char → List Char
  | none, done, s => joinFrom done (cut s)
  | some block, done, s =>
    let n := throughElement ('<' :: '/' :: block.toList) 0 s
    joinFrom ((s.take n).reverseAux done) (cut (s.drop n))

theorem minifyIn_nil (inside : Option String) (done : List Char) :
    minifyIn inside done [] = done.reverse := by
  cases inside <;> simp [minifyIn, cut_nil, joinFrom]

/-- A run of white space in front of something else, or at the end. -/
theorem minifyIn_run {run rest : List Char} (hrun : ∀ c ∈ run, isAsciiBlank c = true)
    (hrest : ∀ c ∈ rest.head?, isAsciiBlank c = false) (done : List Char) :
    ∃ out, Squeezed run out ∧
      minifyIn none done (run ++ rest) = minifyIn none (out.reverseAux done) rest := by
  by_cases hne : run = []
  · subst hne
    exact ⟨[], .kept, rfl⟩
  · rw [minifyIn, cut_blank hne hrun hrest, joinFrom]
    split
    · exact ⟨run, .kept, rfl⟩
    · split
      · exact ⟨[], .gone, rfl⟩
      · exact ⟨[' '], .space hne, rfl⟩

theorem minifyIn_visible {c : Char} {s : List Char} (hc : isAsciiBlank c = false)
    (h : c = '<' → wholeLength? s = none) (done : List Char) :
    minifyIn none done (c :: s) = minifyIn none (c :: done) s := by
  rw [minifyIn, cut_visible hc h, joinFrom, minifyIn]

theorem minifyIn_whole {body more : List Char}
    (h : wholeLength? (body ++ more) = some body.length) (done : List Char) :
    minifyIn none done ('<' :: (body ++ more)) =
      minifyIn none (('<' :: body).reverseAux done) more := by
  rw [minifyIn, cut_whole h, List.take_left, List.drop_left, joinFrom, minifyIn]

/-! What the name of a tag says -/

theorem preservedNames_lower {name : List Char} (h : name ∈ preservedNames) :
    name ≠ [] ∧ ∀ c ∈ name, c.isLower = true := by
  have hall : (preservedNames.all fun name => !name.isEmpty && name.all Char.isLower) = true := by
    decide
  have hname := List.all_eq_true.1 hall name h
  rw [Bool.and_eq_true, Bool.not_eq_true', List.isEmpty_eq_false_iff, List.all_eq_true] at hname
  exact hname

theorem not_mem_of_isNameChar {name : List Char} (h : ∀ c ∈ name, Tag.isNameChar c = true) {d : Char}
    (hd : Tag.isNameChar d = false) : d ∉ name := fun hmem =>
  Bool.false_ne_true (hd.symm.trans (h d hmem))

theorem toLower_of_isNameChar {c : Char} (h : Tag.isNameChar c = true) : c.toLower = c := by
  refine Text.toLower_of_not_isUpper (Bool.eq_false_iff.2 fun hupper => ?_)
  have hup := Text.toNat_of_isUpper hupper
  rw [Tag.isNameChar, Bool.or_eq_true, Bool.or_eq_true] at h
  rcases h with (h | h) | h
  · have hlow := Text.toNat_of_isLower h
    omega
  · have hdigit := Text.toNat_of_isDigit h
    omega
  · rw [eq_of_beq h] at hupper
    exact Bool.false_ne_true hupper

/-- No preserved name is read where no letter stands. -/
theorem preservedName?_of_not_isAlpha {c : Char} (h : c.isAlpha = false) (s : List Char) :
    preservedName? (c :: s) = none := by
  obtain ⟨hupper, hlow⟩ := Bool.or_eq_false_iff.1 h
  refine List.findSome?_eq_none_iff.2 fun name hname => ?_
  obtain ⟨hne, hlower⟩ := preservedNames_lower hname
  obtain ⟨d, name, rfl⟩ := List.exists_cons_of_ne_nil hne
  have hd : d ≠ c.toLower := by
    rintro rfl
    have hc := hlower _ List.mem_cons_self
    rw [Text.toLower_of_not_isUpper hupper, hlow] at hc
    exact Bool.false_ne_true hc
  rw [afterAnyCase?, if_neg hd]
  rfl

theorem afterAnyCase?_append_self {name : List Char} (h : ∀ c ∈ name, c.toLower = c)
    (rest : List Char) : afterAnyCase? name (name ++ rest) = some rest := by
  induction name with
  | nil => rfl
  | cons c name ih =>
    rw [List.forall_mem_cons] at h
    rw [List.cons_append, afterAnyCase?, if_pos h.1.symm, ih h.2]

theorem endsName_of_isNameChar {c : Char} (h : Tag.isNameChar c = true) (s : List Char) :
    endsName (c :: s) = false := by
  refine Bool.eq_false_iff.2 fun hend => ?_
  simp only [endsName, isAsciiBlank, Bool.or_eq_true, beq_iff_eq] at hend
  rcases hend with (rfl | rfl) | (((rfl | rfl) | rfl) | rfl) | rfl
  all_goals exact Bool.false_ne_true h

/-- A preserved name that is read, and may end where it ends, is the name of the tag. -/
theorem eq_of_afterAnyCase? {block name s rest : List Char} {c : Char}
    (hblock : ∀ d ∈ block, d.isLower = true) (hname : ∀ d ∈ name, Tag.isNameChar d = true)
    (hc : c = ' ' ∨ c = '>') (h : afterAnyCase? block (name ++ c :: s) = some rest)
    (hend : endsName rest = true) : block = name ∧ rest = c :: s := by
  induction block generalizing name with
  | nil =>
    obtain rfl := Option.some.inj h
    cases name with
    | nil => exact ⟨rfl, rfl⟩
    | cons d name =>
      rw [List.cons_append, endsName_of_isNameChar (hname d List.mem_cons_self)] at hend
      cases hend
  | cons d block ih =>
    rw [List.forall_mem_cons] at hblock
    cases name with
    | nil =>
      have hd : d ≠ c.toLower := by
        rintro rfl
        rcases hc with rfl | rfl
        all_goals exact Bool.false_ne_true hblock.1
      rw [List.nil_append, afterAnyCase?, if_neg hd] at h
      cases h
    | cons e name =>
      rw [List.forall_mem_cons] at hname
      rw [List.cons_append, afterAnyCase?] at h
      split at h
      · next hd =>
        obtain ⟨rfl, hrest⟩ := ih hblock.2 hname.2 h
        exact ⟨by rw [hd, toLower_of_isNameChar hname.1], hrest⟩
      · cases h

/-- The name of a tag decides whether a preserved element starts. -/
theorem preservedName?_of_isName {name s : List Char} {c : Char} (hname : Tag.isName name = true)
    (hc : c = ' ' ∨ c = '>') :
    preservedName? (name ++ c :: s) = if name ∈ preservedNames then some (name, c :: s) else none := by
  have hchars := Tag.isNameChar_of_isName hname
  have hends : endsName (c :: s) = true := by rcases hc with rfl | rfl <;> rfl
  have honly : ∀ block ∈ preservedNames, ∀ r,
      ((afterAnyCase? block (name ++ c :: s)).bind fun rest =>
        if endsName rest then some (block, rest) else none) = some r →
      block = name ∧ r = (name, c :: s) := by
    intro block hblock r hr
    obtain ⟨rest, hrest, hr⟩ := Option.bind_eq_some_iff.1 hr
    split at hr
    · next hend =>
      obtain ⟨rfl, rfl⟩ := eq_of_afterAnyCase? (preservedNames_lower hblock).2 hchars hc
        hrest hend
      exact ⟨rfl, (Option.some.inj hr).symm⟩
    · cases hr
  split
  · next hmem =>
    have hself := afterAnyCase?_append_self (fun d hd => toLower_of_isNameChar (hchars d hd)) (c :: s)
    cases hread : preservedName? (name ++ c :: s) with
    | none =>
      have hnone := List.findSome?_eq_none_iff.1 hread name hmem
      rw [hself, Option.bind_some, if_pos hends] at hnone
      cases hnone
    | some r =>
      obtain ⟨block, hblock, hr⟩ := List.exists_of_findSome?_eq_some hread
      rw [(honly block hblock r hr).2]
  · next hnot =>
    refine List.findSome?_eq_none_iff.2 fun block hblock => ?_
    refine Option.eq_none_iff_forall_ne_some.2 fun r hr => hnot ?_
    exact (honly block hblock r hr).1 ▸ hblock

/-! Where a tag ends -/

variable {s : List Char}

theorem tagLength_plain (heq : '=' ∉ s) (hgt : '>' ∉ s) (n : Nat) (more : List Char) :
    tagLength (.plain false) n (s ++ more) = tagLength (.plain false) (n + s.length) more := by
  induction s generalizing n with
  | nil => rfl
  | cons c s ih =>
    rw [List.mem_cons, not_or] at heq hgt
    have hc : (c == '=') = false := beq_eq_false_iff_ne.2 (Ne.symm heq.1)
    rw [List.cons_append, tagLength, Bool.false_and, if_neg Bool.false_ne_true,
      if_neg (Ne.symm hgt.1), hc, ite_self, ih heq.2 hgt.2, List.length_cons]
    congr 1
    omega

theorem tagLength_inside {q : Char} (h : q ∉ s) (n : Nat) (more : List Char) :
    tagLength (.quoted q) n (s ++ more) = tagLength (.quoted q) (n + s.length) more := by
  induction s generalizing n with
  | nil => rfl
  | cons c s ih =>
    rw [List.mem_cons, not_or] at h
    rw [List.cons_append, tagLength, if_neg (Ne.symm h.1), ih h.2, List.length_cons]
    congr 1
    omega

theorem tagLength_quoted (h : '"' ∉ s) (n : Nat) (more : List Char) :
    tagLength (.quoted '"') n (s ++ '"' :: more) =
      tagLength (.plain false) (n + s.length + 1) more := by
  rw [tagLength_inside h, tagLength, if_pos rfl]

namespace IsAttributes

theorem not_mem (h : IsAttributes s) : '<' ∉ s := by
  induction h with
  | nil => exact nofun
  | cons hname hvalue _ ih =>
    have hname : '<' ∉ _ := hname.not_mem rfl
    have hvalue : '<' ∉ _ := fun hmem => (hvalue _ hmem).1 rfl
    simp [hname, hvalue, ih]

theorem cases_head (h : IsAttributes s) : s = [] ∨ ∃ t, s = ' ' :: t := by
  cases h with
  | nil => exact .inl rfl
  | cons _ _ _ => exact .inr ⟨_, rfl⟩

/-- Attributes do not end their tag, whatever their values are. -/
theorem tagLength_append (h : IsAttributes s) (n : Nat) (more : List Char) :
    tagLength (.plain false) n (s ++ more) = tagLength (.plain false) (n + s.length) more := by
  induction h generalizing n with
  | nil => rfl
  | @cons name value rest hname hvalue _ ih =>
    have heq : '=' ∉ ' ' :: name := List.not_mem_cons_of_ne_of_not_mem (by decide) (hname.not_mem rfl)
    have hgt : '>' ∉ ' ' :: name := List.not_mem_cons_of_ne_of_not_mem (by decide) (hname.not_mem rfl)
    have hquote : '"' ∉ value := fun hmem => (hvalue _ hmem).2 rfl
    have hsplit : (' ' :: (name ++ '=' :: '"' :: (value ++ '"' :: rest))) ++ more =
        (' ' :: name) ++ ('=' :: '"' :: (value ++ '"' :: (rest ++ more))) := by simp
    have hopen : ∀ k t, tagLength (.plain false) k ('=' :: '"' :: t) =
        tagLength (.quoted '"') (k + 2) t := fun _ _ => rfl
    rw [hsplit, tagLength_plain heq hgt, hopen, tagLength_quoted hquote, ih]
    congr 1
    simp only [List.length_cons, List.length_append]
    omega

end IsAttributes

/-! Going through a preserved element -/

theorem throughClose_eq (n : Nat) (s : List Char) : throughClose n s = n + throughClose 0 s := by
  induction s generalizing n with
  | nil => rfl
  | cons c s ih =>
    rw [throughClose, throughClose]
    split
    · omega
    · rw [ih (n + 1), ih (0 + 1)]
      omega

theorem throughElement_eq (closing : List Char) (n : Nat) (s : List Char) :
    throughElement closing n s = n + throughElement closing 0 s := by
  induction s generalizing n with
  | nil => rfl
  | cons c s ih =>
    rw [throughElement, throughElement]
    split
    · exact throughClose_eq n _
    · rw [ih (n + 1), ih (0 + 1)]
      omega

/-- The closing tag that is looked for starts nowhere in the text, whatever follows it. -/
def Passes (block s : List Char) : Prop :=
  ∀ n more, throughElement ('<' :: '/' :: block) n (s ++ more) =
    throughElement ('<' :: '/' :: block) (n + s.length) more

namespace Passes

variable {block s : List Char} {c : Char}

theorem nil (block : List Char) : Passes block [] := fun _ _ => rfl

/-- A character that does not start the closing tag with what follows it. -/
theorem cons (hc : ∀ more, afterAnyCase? ('<' :: '/' :: block) (c :: (s ++ more)) = none)
    (hs : Passes block s) : Passes block (c :: s) := by
  intro n more
  rw [List.cons_append, throughElement, hc, Option.isSome_none, if_neg Bool.false_ne_true, hs,
    List.length_cons]
  congr 1
  omega

theorem cons_of_ne (hc : c ≠ '<') (hs : Passes block s) : Passes block (c :: s) := by
  refine hs.cons fun more => ?_
  have hlower : '<' ≠ c.toLower := fun heq => hc (Text.eq_of_toLower_eq heq.symm rfl)
  rw [afterAnyCase?, if_neg hlower]

theorem of_not_mem (h : '<' ∉ s) : Passes block s := by
  induction s with
  | nil => exact .nil block
  | cons c s ih =>
    rw [List.mem_cons, not_or] at h
    exact (ih h.2).cons_of_ne (Ne.symm h.1)

/-- A `<` that is not the one of a closing tag. -/
theorem stray (hc : c ≠ '/') (hs : Passes block (c :: s)) : Passes block ('<' :: c :: s) := by
  refine hs.cons fun more => ?_
  have hlower : '/' ≠ c.toLower := fun heq => hc (Text.eq_of_toLower_eq heq.symm rfl)
  have hfirst : '<' = '<'.toLower := rfl
  rw [List.cons_append, afterAnyCase?, if_pos hfirst, afterAnyCase?, if_neg hlower]

end Passes

theorem TagFree.passes (h : TagFree s) (block : List Char) : Passes block s := by
  induction h with
  | nil => exact .nil block
  | char hc _ ih => exact ih.cons_of_ne hc
  | stray hd _ ih =>
    refine ih.stray ?_
    rintro rfl
    cases hd

/-- Which names a preserved element takes for its own. -/
theorem isSome_afterAnyCase? {block name : List Char} (hblock : ∀ c ∈ block, c.isLower = true)
    (hname : ∀ c ∈ name, Tag.isNameChar c = true) (more : List Char) :
    (afterAnyCase? block (name ++ '>' :: more)).isSome = block.isPrefixOf name := by
  induction block generalizing name with
  | nil => simp [afterAnyCase?]
  | cons d block ih =>
    rw [List.forall_mem_cons] at hblock
    cases name with
    | nil =>
      have hd : d ≠ '>'.toLower := by
        rintro rfl
        exact Bool.false_ne_true hblock.1
      rw [List.nil_append, afterAnyCase?, if_neg hd]
      rfl
    | cons e name =>
      rw [List.forall_mem_cons] at hname
      rw [List.cons_append, afterAnyCase?, toLower_of_isNameChar hname.1, List.isPrefixOf]
      by_cases hd : d = e
      · rw [if_pos hd, ih hblock.2 hname.2, beq_iff_eq.2 hd, Bool.true_and]
      · rw [if_neg hd, beq_eq_false_iff_ne.2 hd, Bool.false_and]
        rfl

/-- The start of a closing tag is found, up to the name. -/
theorem afterAnyCase?_closing (block s : List Char) :
    afterAnyCase? ('<' :: '/' :: block) ('<' :: '/' :: s) = afterAnyCase? block s := by
  have hfirst : '<' = '<'.toLower := rfl
  have hsecond : '/' = '/'.toLower := rfl
  rw [afterAnyCase?, if_pos hfirst, afterAnyCase?, if_pos hsecond]

variable {block name : List Char}

theorem Passes.closing (hblock : ∀ c ∈ block, c.isLower = true)
    (hname : ∀ c ∈ name, Tag.isNameChar c = true) (h : block.isPrefixOf name = false) :
    Passes block ('<' :: '/' :: (name ++ ['>'])) := by
  have hlt : '<' ∉ '/' :: (name ++ ['>']) := by
    have hfree : '<' ∉ name := not_mem_of_isNameChar hname rfl
    simp [hfree]
  refine (Passes.of_not_mem hlt).cons fun more => ?_
  rw [List.cons_append, List.append_assoc, afterAnyCase?_closing, ← Option.isNone_iff_eq_none,
    ← Option.isSome_eq_false_iff]
  exact (isSome_afterAnyCase? hblock hname more).trans h

theorem throughElement_closing (hblock : ∀ c ∈ block, c.isLower = true)
    (hname : ∀ c ∈ name, Tag.isNameChar c = true) (h : block.isPrefixOf name = true)
    (more : List Char) :
    throughElement ('<' :: '/' :: block) 0 ('<' :: '/' :: (name ++ '>' :: more)) =
      name.length + 3 := by
  have hgt : '>' ∉ '<' :: '/' :: name := by
    have hfree : '>' ∉ name := not_mem_of_isNameChar hname rfl
    simp [hfree]
  have hfound : (afterAnyCase? ('<' :: '/' :: block) ('<' :: '/' :: (name ++ '>' :: more))).isSome =
      true := by
    rw [afterAnyCase?_closing, isSome_afterAnyCase? hblock hname, h]
  have hend := throughClose_append hgt 0 more
  rw [throughElement, if_pos hfound]
  rw [List.cons_append, List.cons_append, List.length_cons, List.length_cons] at hend
  omega

/-! One part -/

theorem minifyIn_passes {block : String} {s : List Char} (h : Passes block.toList s)
    (done more : List Char) :
    minifyIn (some block) done (s ++ more) = minifyIn (some block) (s.reverseAux done) more := by
  have hlength : throughElement ('<' :: '/' :: block.toList) 0 (s ++ more) =
      s.length + throughElement ('<' :: '/' :: block.toList) 0 more := by
    rw [h, throughElement_eq, Nat.zero_add]
  rw [minifyIn, minifyIn, hlength, List.take_length_add_append, List.drop_length_add_append]
  simp [List.reverseAux_eq]

theorem minifyIn_leaves {block : String} {s more : List Char}
    (h : throughElement ('<' :: '/' :: block.toList) 0 (s ++ more) = s.length) (done : List Char) :
    minifyIn (some block) done (s ++ more) = minifyIn none (s.reverseAux done) more := by
  rw [minifyIn, minifyIn, h, List.take_left, List.drop_left]

/-- The opening tag of a preserved element. -/
theorem minifyIn_enters {block : String} {body more : List Char}
    (h : wholeLength? (body ++ more) =
      some (body.length + throughElement ('<' :: '/' :: block.toList) 0 more)) (done : List Char) :
    minifyIn none done ('<' :: (body ++ more)) =
      minifyIn (some block) (('<' :: body).reverseAux done) more := by
  rw [minifyIn, cut_whole h, joinFrom, minifyIn, List.take_length_add_append,
    List.drop_length_add_append]
  simp [List.reverseAux_eq]

/-! The lengths of whole pieces -/

variable {attributes : List Char}

theorem preservedLength?_of_isName (hname : Tag.isName name = true)
    (hattributes : IsAttributes attributes) (more : List Char) :
    preservedLength? (name ++ (attributes ++ '>' :: more)) =
      if name ∈ preservedNames then
        some (name.length + attributes.length + 1 +
          throughElement ('<' :: '/' :: name) 0 more)
      else none := by
  have hhead : ∃ c t, attributes ++ '>' :: more = c :: t ∧ (c = ' ' ∨ c = '>') := by
    rcases hattributes.cases_head with rfl | ⟨t, rfl⟩
    · exact ⟨'>', more, rfl, .inr rfl⟩
    · exact ⟨' ', t ++ '>' :: more, rfl, .inl rfl⟩
  obtain ⟨c, t, ht, hc⟩ := hhead
  have hpasses : Passes name (attributes ++ ['>']) :=
    Passes.of_not_mem (by simp [hattributes.not_mem])
  have hend := hpasses name.length more
  rw [List.append_assoc, List.singleton_append, throughElement_eq _ (_ + _)] at hend
  rw [ht] at hend ⊢
  rw [preservedLength?, preservedName?_of_isName hname hc]
  split
  · rw [Option.map_some]
    dsimp only
    rw [hend, List.length_append, List.length_singleton, ← Nat.add_assoc]
  · rfl

theorem tagLength?_opening (hname : Tag.isName name = true) (hattributes : IsAttributes attributes)
    (more : List Char) :
    tagLength? (name ++ (attributes ++ '>' :: more)) =
      some (name.length + attributes.length + 1) := by
  have heq : '=' ∉ name := (Tag.isKebab_of_isName hname).not_mem rfl
  have hgt : '>' ∉ name := (Tag.isKebab_of_isName hname).not_mem rfl
  have hlength : tagLength (.plain false) 0 (name ++ (attributes ++ '>' :: more)) =
      name.length + attributes.length + 1 := by
    rw [tagLength_plain heq hgt, hattributes.tagLength_append, Nat.zero_add]
    rfl
  cases name with
  | nil => cases hname
  | cons c name =>
    rw [Tag.isName, Bool.and_eq_true] at hname
    have halpha : c.isAlpha = true := Bool.or_eq_true_iff.2 (.inr hname.1)
    have hstarts : (c.isAlpha || c == '/' || c == '!') = true := by
      rw [halpha]
      rfl
    have hbang : '!' ≠ c := by
      rintro rfl
      exact Bool.false_ne_true hname.1
    rw [List.cons_append] at hlength ⊢
    rw [tagLength?, if_pos hstarts, Text.after?, if_neg hbang]
    exact congrArg some hlength

theorem wholeLength?_closing (hname : ∀ c ∈ name, Tag.isNameChar c = true) (more : List Char) :
    wholeLength? ('/' :: (name ++ '>' :: more)) = some (name.length + 2) := by
  have hslash : '/'.isAlpha = false := rfl
  have heq : '=' ∉ '/' :: name :=
    List.not_mem_cons_of_ne_of_not_mem (by decide) (not_mem_of_isNameChar hname rfl)
  have hgt : '>' ∉ '/' :: name :=
    List.not_mem_cons_of_ne_of_not_mem (by decide) (not_mem_of_isNameChar hname rfl)
  have hlength : tagLength (.plain false) 0 ('/' :: (name ++ '>' :: more)) = name.length + 2 := by
    rw [← List.cons_append, tagLength_plain heq hgt, List.length_cons]
    exact congrArg (· + 1) (Nat.zero_add _)
  rw [wholeLength?, preservedLength?, preservedName?_of_not_isAlpha hslash]
  exact congrArg some hlength

/-! Sound parts, one at a time -/

namespace Part

/-- The scanner goes through a part as a whole and knows then what it is inside. -/
def Steps (inside : Option String) (p : Part) : Prop :=
  ∀ done more, minifyIn inside done (p.chars ++ more) =
    minifyIn (p.after inside) (p.chars.reverseAux done) more

variable {p : Part}

theorem isNameChar_of_closing {name : String} (h : name = "" ∨ Tag.isName name.toList = true) :
    ∀ c ∈ name.toList, Tag.isNameChar c = true := by
  rcases h with rfl | h
  · exact nofun
  · exact Tag.isNameChar_of_isName h

theorem steps_inside {block : String} (hblock : block.toList ∈ preservedNames)
    (h : p.Sound (some block)) : p.Steps (some block) := by
  have hlower := (preservedNames_lower hblock).2
  cases p with
  | doctype =>
    have hpasses : Passes block.toList "!DOCTYPE html>".toList := .of_not_mem (by decide)
    exact minifyIn_passes (hpasses.stray (by decide))
  | opening name attributes =>
    obtain ⟨hname, hattributes⟩ := h
    have hlt : '<' ∉ name.toList ++ (attributes.toList ++ ['>']) := by
      have hfree : '<' ∉ name.toList := (Tag.isKebab_of_isName hname).not_mem rfl
      simp [hfree, hattributes.not_mem]
    have hslash : '/' ∉ name.toList := (Tag.isKebab_of_isName hname).not_mem rfl
    refine minifyIn_passes (s := '<' :: (name.toList ++ (attributes.toList ++ ['>']))) ?_
    cases hchars : name.toList with
    | nil =>
      rw [hchars] at hname
      cases hname
    | cons c rest =>
      rw [hchars] at hlt hslash
      exact (Passes.of_not_mem hlt).stray (List.ne_of_not_mem_cons hslash).symm
  | closing name =>
    have hname := isNameChar_of_closing h
    intro done more
    cases hprefix : block.toList.isPrefixOf name.toList with
    | false =>
      rw [after_closing, hprefix, if_neg Bool.false_ne_true]
      exact minifyIn_passes (.closing hlower hname hprefix) done more
    | true =>
      rw [after_closing, hprefix, if_pos rfl]
      refine minifyIn_leaves ?_ done
      have hend := throughElement_closing hlower hname hprefix more
      simpa [chars] using hend
  | text s => exact minifyIn_passes (h.passes _)
  | raw name attributes content => cases h.1

theorem steps_outside (h : p.Sound none) (htext : ∀ s, p ≠ .text s) : p.Steps none := by
  cases p with
  | doctype =>
    intro done more
    have hname : preservedName? ("!DOCTYPE html>".toList ++ more) = none :=
      preservedName?_of_not_isAlpha (c := '!') rfl _
    have hwhole : wholeLength? ("!DOCTYPE html>".toList ++ more) =
        some "!DOCTYPE html>".toList.length := by
      rw [wholeLength?, preservedLength?, hname]
      rfl
    exact minifyIn_whole hwhole done
  | opening name attributes =>
    obtain ⟨hname, hattributes⟩ := h
    intro done more
    have hpreserved := preservedLength?_of_isName hname hattributes more
    have htag := tagLength?_opening hname hattributes more
    have hlength : (name.toList ++ (attributes.toList ++ ['>'])).length =
        name.toList.length + attributes.toList.length + 1 := by
      rw [List.length_append, List.length_append, ← Nat.add_assoc]
      rfl
    have hsplit : (name.toList ++ (attributes.toList ++ ['>'])) ++ more =
        name.toList ++ (attributes.toList ++ '>' :: more) := by simp
    rw [after_opening]
    split
    · next hmem =>
      rw [if_pos hmem] at hpreserved
      refine minifyIn_enters ?_ done
      rw [hsplit, hlength, wholeLength?, hpreserved, Option.some_or]
    · next hmem =>
      rw [if_neg hmem] at hpreserved
      refine minifyIn_whole ?_ done
      rw [hsplit, hlength, wholeLength?, hpreserved, Option.none_or, htag]
  | closing name =>
    intro done more
    have hwhole : wholeLength? (('/' :: (name.toList ++ ['>'])) ++ more) =
        some ('/' :: (name.toList ++ ['>'])).length := by
      simpa using wholeLength?_closing (isNameChar_of_closing h) more
    exact minifyIn_whole hwhole done
  | text s => exact (htext s rfl).elim
  | raw name attributes content =>
    obtain ⟨-, hattributes, -, -, -, hclosing⟩ := h
    intro done more
    have hname : Tag.isName name.text.toList = true := by cases name <;> decide
    have hmem : name.text.toList ∈ preservedNames := by cases name <;> decide
    have hpreserved := preservedLength?_of_isName hname hattributes
      (content.toList ++ (name.closeTag.toList ++ more))
    rw [if_pos hmem, ← RawName.closing, hclosing] at hpreserved
    have hchars : (raw name attributes content).chars = '<' :: (name.text.toList ++
        (attributes.toList ++ '>' :: (content.toList ++ name.closeTag.toList))) := by
      simp [chars, Fragment.text]
    rw [hchars]
    refine minifyIn_whole ?_ done
    have hsplit : name.text.toList ++ (attributes.toList ++
        '>' :: (content.toList ++ name.closeTag.toList)) ++ more = name.text.toList ++
        (attributes.toList ++ '>' :: (content.toList ++ (name.closeTag.toList ++ more))) := by simp
    rw [hsplit, wholeLength?, hpreserved, Option.some_or, ← String.length_toList,
      String.toList_append]
    simp only [List.length_append, List.length_cons]
    congr 1
    omega

theorem chars_of_not_text (h : ∀ s, p ≠ .text s) : ∃ rest, p.chars = '<' :: rest := by
  cases p with
  | doctype | opening | closing => exact ⟨_, rfl⟩
  | text s => exact (h s rfl).elim
  | raw name attributes content => exact ⟨_, by simp [chars, Fragment.text]; rfl⟩

end Part

/-! Texts outside -/

theorem wholeLength?_of_stray {d : Char} (h : startsTag d = false) (s : List Char) :
    wholeLength? (d :: s) = none := by
  have halpha : d.isAlpha = false := by
    rw [startsTag, Bool.or_eq_false_iff, Bool.or_eq_false_iff] at h
    exact h.1.1
  have hstarts : ¬ (d.isAlpha || d == '/' || d == '!') = true := Bool.eq_false_iff.1 h
  rw [wholeLength?, preservedLength?, preservedName?_of_not_isAlpha halpha, tagLength?,
    if_neg hstarts]
  rfl

theorem Squeezed.eq_nil {rest : List Char} (h : Squeezed [] rest) : rest = [] := by
  cases h with
  | kept | gone => rfl
  | space h => exact (h rfl).elim

/-- A text outside and the parts after it come out with less white space, also if a run of white
space in front of the text runs on into it. -/
def Survives (s : List Char) (ps : List Part) : Prop :=
  ∀ run done, (∀ c ∈ run, isAsciiBlank c = true) →
    ∃ rest t qs, Squeezed run rest ∧ Shrunk s t ∧ Kept none ps qs ∧
      minifyIn none done (run ++ (s ++ charsOf ps)) = done.reverse ++ (rest ++ (t ++ charsOf qs))

namespace Survives

variable {s : List Char} {c : Char} {ps : List Part}

theorem blank (hc : isAsciiBlank c = true) (h : Survives s ps) : Survives (c :: s) ps := by
  intro run done hrun
  have hlonger : ∀ d ∈ run ++ [c], isAsciiBlank d = true :=
    List.forall_mem_append.2 ⟨hrun, List.forall_mem_singleton.2 hc⟩
  obtain ⟨rest, t, qs, hrest, ht, hqs, heq⟩ := h (run ++ [c]) done hlonger
  obtain ⟨first, last, rfl, hfirst, hlast⟩ := hrest.concat
  refine ⟨first, last ++ t, qs, hfirst, .run (List.forall_mem_singleton.2 hc) hlast ht, hqs, ?_⟩
  simpa using heq

theorem visible (hc : isAsciiBlank c = false)
    (hwhole : c = '<' → wholeLength? (s ++ charsOf ps) = none) (h : Survives s ps) :
    Survives (c :: s) ps := by
  intro run done hrun
  have hhead : ∀ d ∈ (c :: (s ++ charsOf ps)).head?, isAsciiBlank d = false := by
    rintro d ⟨⟩
    exact hc
  obtain ⟨rest, hrest, hskip⟩ := minifyIn_run hrun hhead done
  obtain ⟨rest', t, qs, hnone, ht, hqs, heq⟩ := h [] (c :: rest.reverseAux done)
    (List.forall_mem_nil _)
  obtain rfl := hnone.eq_nil
  refine ⟨rest, c :: t, qs, hrest, .char c ht, hqs, ?_⟩
  rw [List.cons_append, hskip, minifyIn_visible hc hwhole]
  simpa [List.reverseAux_eq] using heq

theorem of_tagFree (hs : TagFree s) (h : Survives [] ps) : Survives s ps := by
  induction hs with
  | nil => exact h
  | @char c s hne _ ih =>
    cases hc : isAsciiBlank c with
    | true => exact ih.blank hc
    | false => exact ih.visible hc fun hlt => (hne hlt).elim
  | stray hd _ ih => exact ih.visible rfl fun _ => wholeLength?_of_stray hd _

end Survives

/-! All parts -/

variable {inside : Option String} {ps : List Part} {p : Part}

theorem preserved_after (h : ∀ block ∈ inside, block.toList ∈ preservedNames) (p : Part) :
    ∀ block ∈ p.after inside, block.toList ∈ preservedNames := by
  cases p with
  | doctype | text _ | raw _ _ _ => exact h
  | opening name attributes =>
    cases inside with
    | some outer => exact h
    | none =>
      rw [Part.after_opening]
      split
      · next hname =>
        rintro block ⟨⟩
        exact hname
      · exact nofun
  | closing name =>
    intro block hblock
    exact h block (Option.filter_eq_some_iff.1 hblock).1

theorem preserved_afterAll (h : ∀ block ∈ inside, block.toList ∈ preservedNames)
    (ps : List Part) : ∀ block ∈ afterAll inside ps, block.toList ∈ preservedNames := by
  induction ps generalizing inside with
  | nil => exact h
  | cons p ps ih => exact ih (preserved_after h p)

/-- The induction over parts: a run of white space before them is squeezed, and they come out as
they are kept. Inside a preserved element there is no such run. -/
theorem exists_kept (h : Sound inside ps)
    (hinside : ∀ block ∈ inside, block.toList ∈ preservedNames) (run done : List Char)
    (hrun : ∀ c ∈ run, isAsciiBlank c = true) (hnone : inside.isSome = true → run = []) :
    ∃ rest qs, Squeezed run rest ∧ Kept inside ps qs ∧
      minifyIn inside done (run ++ charsOf ps) = done.reverse ++ (rest ++ charsOf qs) := by
  induction ps generalizing inside run done with
  | nil =>
    cases inside with
    | none =>
      have hend : ∀ c ∈ ([] : List Char).head?, isAsciiBlank c = false := nofun
      obtain ⟨rest, hrest, heq⟩ := minifyIn_run hrun hend done
      refine ⟨rest, [], hrest, .nil none, heq.trans ?_⟩
      simp [minifyIn_nil, List.reverseAux_eq]
    | some block =>
      obtain rfl := hnone rfl
      refine ⟨[], [], .kept, .nil _, ?_⟩
      simp [minifyIn_nil]
  | cons p ps ih =>
    have hafter := preserved_after hinside p
    cases inside with
    | some block =>
      obtain rfl := hnone rfl
      have hstep := Part.steps_inside (hinside block rfl) h.1 done (charsOf ps)
      obtain ⟨rest, qs, hrest, hqs, heq⟩ :=
        ih h.2 hafter [] (p.chars.reverseAux done) (List.forall_mem_nil _) fun _ => rfl
      obtain rfl := hrest.eq_nil
      refine ⟨[], p :: qs, .kept, .same p hqs, ?_⟩
      rw [List.nil_append, charsOf_cons, hstep]
      simpa [List.reverseAux_eq] using heq
    | none =>
      by_cases htext : ∃ s, p = .text s
      · obtain ⟨s, rfl⟩ := htext
        have hps : Survives [] ps := by
          intro run done hrun
          obtain ⟨rest, qs, hrest, hqs, heq⟩ := ih h.2 hafter run done hrun nofun
          exact ⟨rest, [], qs, hrest, .nil, hqs, heq⟩
        obtain ⟨rest, t, qs, hrest, ht, hqs, heq⟩ := hps.of_tagFree h.1 run done hrun
        exact ⟨rest, .text t :: qs, hrest, .text ht hqs, heq⟩
      · rw [not_exists] at htext
        have hstep := Part.steps_outside h.1 htext
        obtain ⟨front, hchars⟩ := Part.chars_of_not_text htext
        have hhead : ∀ c ∈ (p.chars ++ charsOf ps).head?, isAsciiBlank c = false := by
          rw [hchars]
          rintro c ⟨⟩
          rfl
        obtain ⟨rest, hrest, hskip⟩ := minifyIn_run hrun hhead done
        obtain ⟨rest', qs, hrest', hqs, heq⟩ := ih h.2 hafter []
          (p.chars.reverseAux (rest.reverseAux done)) (List.forall_mem_nil _) fun _ => rfl
        obtain rfl := hrest'.eq_nil
        refine ⟨rest, p :: qs, hrest, .same p hqs, ?_⟩
        rw [charsOf_cons, hskip, hstep]
        simpa [List.reverseAux_eq] using heq

/-- Minified markup has the same parts, and only texts outside of preserved elements can have lost
white space. -/
theorem exists_minify {html : String} (h : Sound none ps) (hhtml : html.toList = charsOf ps) :
    ∃ qs, Kept none ps qs ∧ (minify html).toList = charsOf qs := by
  by_cases hlong : minifyLimit < html.utf8ByteSize
  · refine ⟨ps, .refl none ps, ?_⟩
    rw [minify, if_pos hlong, hhtml]
  · obtain ⟨rest, qs, hrest, hqs, heq⟩ := exists_kept h nofun [] [] (List.forall_mem_nil _) nofun
    obtain rfl := hrest.eq_nil
    refine ⟨qs, hqs, ?_⟩
    rw [toList_minify (Nat.not_lt.1 hlong), hhtml]
    exact heq

end Folio.Markup
