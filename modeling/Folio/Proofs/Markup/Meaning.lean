import Folio.Proofs.Markup.Cutting

/-! What minified markup is, said of the markup that goes in: a long or line-breaking run of white
space shrinks by the characters on its two sides, and nothing else changes. The scanner, which looks
at what it has put out so far, comes to the same; and what comes out is cut as what went in was, so a
second time nothing changes. -/
namespace Folio.Markup

open Text (isAsciiBlank)

/-- What is left of a maximal run of white space between two characters, each of which may be
missing; `none` if nothing is. -/
def squeezed? (before after : Option Char) (run : List Char) : Option (List Char) :=
  if '\n' ∈ run ∨ 3 < run.length then
    if (before = none ∨ before = some '>') ∧ (after = none ∨ after = some '<') then none
    else some [' ']
  else some run

/-- What is left of a piece between two characters. -/
def Piece.squeeze? (before after : Option Char) : Piece → Option Piece
  | .blank run => (squeezed? before after run).map .blank
  | p => some p

/-- What is left of pieces, each between the characters that it stands between; `before` is the
character in front of them. -/
def squeezeAll (before : Option Char) : List Piece → List Piece
  | [] => []
  | p :: ps =>
    (p.squeeze? before (uncut ps).head?).toList ++ squeezeAll p.chars.getLast? ps

variable {s : List Char} {p : Piece} {ps : List Piece}

theorem squeezed?_cases (before after : Option Char) (run : List Char) :
    squeezed? before after run = some run ∨ squeezed? before after run = some [' '] ∨
      squeezed? before after run = none ∧ (before = none ∨ before = some '>') ∧
        (after = none ∨ after = some '<') := by
  unfold squeezed?
  split
  · split
    · next h => exact .inr (.inr ⟨rfl, h⟩)
    · exact .inr (.inl rfl)
  · exact .inl rfl

theorem squeezed?_space (before after : Option Char) : squeezed? before after [' '] = some [' '] :=
  rfl

theorem squeezeAll_whole (before : Option Char) (s : List Char) (ps : List Piece) :
    squeezeAll before (.whole s :: ps) = .whole s :: squeezeAll s.getLast? ps := rfl

theorem squeezeAll_visible (before : Option Char) (c : Char) (ps : List Piece) :
    squeezeAll before (.visible c :: ps) = .visible c :: squeezeAll (some c) ps := rfl

theorem squeezeAll_of_some {before : Option Char} {run left : List Char}
    (h : squeezed? before (uncut ps).head? run = some left) :
    squeezeAll before (.blank run :: ps) = .blank left :: squeezeAll run.getLast? ps := by
  rw [squeezeAll, Piece.squeeze?, h]
  rfl

theorem squeezeAll_of_none {before : Option Char} {run : List Char}
    (h : squeezed? before (uncut ps).head? run = none) :
    squeezeAll before (.blank run :: ps) = squeezeAll run.getLast? ps := by
  rw [squeezeAll, Piece.squeeze?, h]
  rfl

/-! Where no run of white space comes first -/

/-- Holds of texts that do not start with white space. -/
def StartsVisible (s : List Char) : Prop := ∀ c ∈ s.head?, isAsciiBlank c = false

theorem not_startsVisible_blank {run rest : List Char} (h : (Piece.blank run).Fits rest) :
    ¬ StartsVisible (run ++ rest) := by
  obtain ⟨hne, hrun, -⟩ := h
  obtain ⟨c, run, rfl⟩ := List.exists_cons_of_ne_nil hne
  intro hstarts
  have hblank := hrun c List.mem_cons_self
  rw [hstarts c rfl] at hblank
  cases hblank

/-- What stands in front does not matter. -/
theorem squeezeAll_congr (h : Fitting ps) (hstarts : StartsVisible (uncut ps))
    (before before' : Option Char) : squeezeAll before ps = squeezeAll before' ps := by
  cases ps with
  | nil => rfl
  | cons p ps =>
    cases p with
    | whole s => rfl
    | visible c => rfl
    | blank run => exact (not_startsVisible_blank (fitting_cons.1 h).1 hstarts).elim

theorem head?_squeezeAll (h : Fitting ps) (hstarts : StartsVisible (uncut ps))
    (before : Option Char) : (uncut (squeezeAll before ps)).head? = (uncut ps).head? := by
  cases ps with
  | nil => rfl
  | cons p ps =>
    have hne := (fitting_cons.1 h).1.chars_ne_nil
    obtain ⟨c, t, hchars⟩ := List.exists_cons_of_ne_nil hne
    cases p with
    | whole s => rw [squeezeAll_whole, uncut_cons, uncut_cons, hchars]; rfl
    | visible d => rfl
    | blank run => exact (not_startsVisible_blank (fitting_cons.1 h).1 hstarts).elim

theorem startsVisible_or_blank (h : Fitting ps) :
    StartsVisible (uncut ps) ∨ ∃ run rest, ps = .blank run :: rest := by
  cases ps with
  | nil => exact .inl nofun
  | cons p ps =>
    have hfits := (fitting_cons.1 h).1
    cases p with
    | whole s =>
      obtain ⟨body, rfl, -⟩ := hfits
      refine .inl fun c hc => ?_
      obtain rfl := Option.some.inj hc
      rfl
    | visible c =>
      refine .inl fun d hd => ?_
      obtain rfl := Option.some.inj hd
      exact hfits.1
    | blank run => exact .inr ⟨run, ps, rfl⟩

/-- What is left of a run is white space, and there is some of it. -/
theorem blank_of_squeezed? {before after : Option Char} {run left rest : List Char}
    (h : squeezed? before after run = some left) (hrun : (Piece.blank run).Fits rest) :
    left ≠ [] ∧ ∀ c ∈ left, isAsciiBlank c = true := by
  rcases squeezed?_cases before after run with hkept | hspace | ⟨hgone, -⟩
  · rw [hkept] at h
    obtain rfl := Option.some.inj h
    exact ⟨hrun.1, hrun.2.1⟩
  · rw [hspace] at h
    obtain rfl := Option.some.inj h
    exact ⟨List.cons_ne_nil _ _, List.forall_mem_singleton.2 rfl⟩
  · rw [hgone] at h
    cases h

theorem startsTag_of_isAsciiBlank {c : Char} (h : isAsciiBlank c = true) : startsTag c = false := by
  simp only [isAsciiBlank, Bool.or_eq_true, beq_iff_eq] at h
  rcases h with (((rfl | rfl) | rfl) | rfl) | rfl <;> rfl

/-- A stray `<` stays one: a run of white space behind it does not vanish. -/
theorem wholeLength?_squeezeAll (h : Fitting ps) (hnone : wholeLength? (uncut ps) = none) :
    wholeLength? (uncut (squeezeAll (some '<') ps)) = none := by
  rw [wholeLength?_eq_none_iff] at hnone ⊢
  rcases startsVisible_or_blank h with hstarts | ⟨run, rest, rfl⟩
  · rwa [head?_squeezeAll h hstarts]
  · cases hleft : squeezed? (some '<') (uncut rest).head? run with
    | none =>
      rcases squeezed?_cases (some '<') (uncut rest).head? run with hkept | hspace | ⟨-, hfront, -⟩
      · rw [hkept] at hleft
        cases hleft
      · rw [hspace] at hleft
        cases hleft
      · simp at hfront
    | some left =>
      obtain ⟨hne, hblank⟩ := blank_of_squeezed? hleft (fitting_cons.1 h).1
      obtain ⟨c, left, rfl⟩ := List.exists_cons_of_ne_nil hne
      rw [squeezeAll_of_some hleft]
      intro d hd
      obtain rfl := Option.some.inj hd
      exact startsTag_of_isAsciiBlank (hblank c List.mem_cons_self)

/-! What is left is cut as before -/

theorem squeezeAll_eq_nil (h : Fitting ps) (hnil : uncut ps = []) (before : Option Char) :
    squeezeAll before ps = [] := by
  cases ps with
  | nil => rfl
  | cons p ps =>
    rw [uncut_cons, List.append_eq_nil_iff] at hnil
    exact ((fitting_cons.1 h).1.chars_ne_nil hnil.1).elim

theorem fitting_squeezeAll (h : Fitting ps) (before : Option Char) :
    Fitting (squeezeAll before ps) := by
  induction ps generalizing before with
  | nil => exact fitting_nil
  | cons p ps ih =>
    obtain ⟨hp, hps⟩ := fitting_cons.1 h
    cases p with
    | whole s =>
      rw [squeezeAll_whole]
      refine fitting_cons.2 ⟨?_, ih hps _⟩
      obtain ⟨body, rfl, hbody⟩ := hp
      refine ⟨body, rfl, ?_⟩
      by_cases hnil : uncut ps = []
      · rwa [squeezeAll_eq_nil hps hnil, uncut_nil, ← hnil]
      · exact wholeLength?_append hbody hnil _
    | visible c =>
      rw [squeezeAll_visible]
      refine fitting_cons.2 ⟨⟨hp.1, ?_⟩, ih hps _⟩
      rintro rfl
      exact wholeLength?_squeezeAll hps (hp.2 rfl)
    | blank run =>
      cases hleft : squeezed? before (uncut ps).head? run with
      | none =>
        rw [squeezeAll_of_none hleft]
        exact ih hps _
      | some left =>
        obtain ⟨hne, hblank⟩ := blank_of_squeezed? hleft hp
        rw [squeezeAll_of_some hleft]
        refine fitting_cons.2 ⟨⟨hne, hblank, ?_⟩, ih hps _⟩
        rw [head?_squeezeAll hps hp.2.2]
        exact hp.2.2

theorem squeezeAll_squeezeAll (h : Fitting ps) (before : Option Char) :
    squeezeAll before (squeezeAll before ps) = squeezeAll before ps := by
  induction ps generalizing before with
  | nil => rfl
  | cons p ps ih =>
    obtain ⟨hp, hps⟩ := fitting_cons.1 h
    cases p with
    | whole s => rw [squeezeAll_whole, squeezeAll_whole, ih hps]
    | visible c => rw [squeezeAll_visible, squeezeAll_visible, ih hps]
    | blank run =>
      have hhead := head?_squeezeAll hps hp.2.2 run.getLast?
      have hstarts : StartsVisible (uncut (squeezeAll run.getLast? ps)) := by
        rw [StartsVisible, hhead]
        exact hp.2.2
      -- no run comes next, so it does not matter what the first one has become
      have hrest : ∀ front, squeezeAll front (squeezeAll run.getLast? ps) =
          squeezeAll run.getLast? ps := fun front =>
        (squeezeAll_congr (fitting_squeezeAll hps _) hstarts front _).trans (ih hps _)
      rcases squeezed?_cases before (uncut ps).head? run with hkept | hspace | ⟨hgone, -⟩
      · rw [squeezeAll_of_some hkept, squeezeAll_of_some (by rw [hhead, hkept]), hrest]
      · rw [squeezeAll_of_some hspace, squeezeAll_of_some (squeezed?_space ..), hrest]
      · rw [squeezeAll_of_none hgone, hrest]

/-! The scanner -/

theorem afterTag_eq_true_iff {done : List Char} :
    afterTag done = true ↔ done.head? = none ∨ done.head? = some '>' := by
  cases done with
  | nil => simp [afterTag]
  | cons c done => simp [afterTag]

theorem beforeTag_eq_true_iff (h : Fitting ps) (hstarts : StartsVisible (uncut ps)) :
    beforeTag ps = true ↔ (uncut ps).head? = none ∨ (uncut ps).head? = some '<' := by
  cases ps with
  | nil => simp [beforeTag]
  | cons p ps =>
    have hp := (fitting_cons.1 h).1
    cases p with
    | whole s =>
      obtain ⟨body, rfl, -⟩ := hp
      exact ⟨fun _ => .inr rfl, fun _ => rfl⟩
    | visible c => simp [beforeTag, Piece.chars]
    | blank run => exact (not_startsVisible_blank hp hstarts).elim

theorem isShort_eq (run : List Char) : isShort run = !decide ('\n' ∈ run ∨ 3 < run.length) := by
  rw [isShort, shortRun, Bool.eq_iff_iff]
  simp

/-- The scanner, which looks at what it has put out, squeezes every run by what stands in front of it
in the text. -/
theorem joinFrom_eq (h : Fitting ps) {before : Option Char} {done : List Char}
    (hdone : ¬ StartsVisible (uncut ps) → done.head? = before) :
    joinFrom done ps = done.reverse ++ uncut (squeezeAll before ps) := by
  induction ps generalizing before done with
  | nil => simp [joinFrom, squeezeAll]
  | cons p ps ih =>
    obtain ⟨hp, hps⟩ := fitting_cons.1 h
    cases p with
    | whole s =>
      have hlast : (s.reverseAux done).head? = s.getLast? := by
        have hne : s ≠ [] := hp.chars_ne_nil
        rw [List.reverseAux_eq, List.head?_append_of_ne_nil _ (by simpa using hne),
          List.head?_reverse]
      rw [joinFrom, squeezeAll_whole, ih hps fun _ => hlast]
      simp [List.reverseAux_eq, Piece.chars]
    | visible c =>
      rw [joinFrom, squeezeAll_visible, ih hps fun _ => rfl]
      simp [Piece.chars]
    | blank run =>
      have hfront := hdone (not_startsVisible_blank hp)
      have hstarts : StartsVisible (uncut ps) := hp.2.2
      have hnext : ∀ done, joinFrom done ps =
          done.reverse ++ uncut (squeezeAll run.getLast? ps) :=
        fun done => ih hps fun hnot => (hnot hstarts).elim
      rw [joinFrom, isShort_eq]
      by_cases hlong : '\n' ∈ run ∨ 3 < run.length
      · rw [decide_eq_true hlong, if_neg (by decide)]
        have hends : (afterTag done && beforeTag ps) = true ↔
            (before = none ∨ before = some '>') ∧
              ((uncut ps).head? = none ∨ (uncut ps).head? = some '<') := by
          rw [Bool.and_eq_true, afterTag_eq_true_iff, beforeTag_eq_true_iff hps hstarts, hfront]
        by_cases hgone : (afterTag done && beforeTag ps) = true
        · have hnone : squeezed? before (uncut ps).head? run = none := by
            rw [squeezed?, if_pos hlong, if_pos (hends.1 hgone)]
          rw [if_pos hgone, squeezeAll_of_none hnone, hnext]
        · have hspace : squeezed? before (uncut ps).head? run = some [' '] := by
            rw [squeezed?, if_pos hlong, if_neg fun hboth => hgone (hends.2 hboth)]
          rw [if_neg hgone, squeezeAll_of_some hspace, hnext]
          simp [Piece.chars]
      · have hkept : squeezed? before (uncut ps).head? run = some run := by
          rw [squeezed?, if_neg hlong]
        rw [decide_eq_false hlong, Bool.not_false, if_pos rfl, squeezeAll_of_some hkept, hnext]
        simp [List.reverseAux_eq, Piece.chars]

theorem minifyChars_eq (s : List Char) : minifyChars s = uncut (squeezeAll none (cut s)) :=
  joinFrom_eq (fitting_cut s) fun _ => rfl

/-- Nothing but white space goes. -/
theorem visible_squeezeAll (h : Fitting ps) (before : Option Char) :
    visible (uncut (squeezeAll before ps)) = visible (uncut ps) := by
  induction ps generalizing before with
  | nil => rfl
  | cons p ps ih =>
    obtain ⟨hp, hps⟩ := fitting_cons.1 h
    cases p with
    | whole s => rw [squeezeAll_whole, uncut_cons, uncut_cons, visible_append, visible_append, ih hps]
    | visible c =>
      rw [squeezeAll_visible, uncut_cons, uncut_cons, visible_append, visible_append, ih hps]
    | blank run =>
      have hrun : visible run = [] := visible_eq_nil hp.2.1
      rw [uncut_cons, visible_append, Piece.chars, hrun, List.nil_append]
      cases hleft : squeezed? before (uncut ps).head? run with
      | none => rw [squeezeAll_of_none hleft, ih hps]
      | some left =>
        have hblank := visible_eq_nil (blank_of_squeezed? hleft hp).2
        rw [squeezeAll_of_some hleft, uncut_cons, visible_append, Piece.chars, hblank,
          List.nil_append, ih hps]

/-- The places between the pieces of a text are places between its characters. -/
theorem isValid_of_cutting {html : String} {front back : List Piece}
    (h : Cutting html.toList (front ++ back)) :
    (String.ofList (uncut front)).rawEndPos.IsValid html := by
  refine String.Pos.Raw.isValid_iff_exists_append.2 ⟨_, String.ofList (uncut back), ?_, rfl⟩
  rw [← String.ofList_append, ← uncut_append, h.uncut_eq, String.ofList_toList]

/-- Markup of no more than a mebibyte can be cut in one way into pieces that are kept whole, runs of
white space and other characters, and minified it is what is left of the pieces: a run that is longer
than three characters or breaks a line vanishes between a `>` or nothing and a `<` or nothing, and is
one space elsewhere; any other piece stays. So only white space goes. Every piece takes a character
at least, and the offsets between pieces are boundaries of characters. -/
theorem minify_eq_squeezed {html : String} (h : html.utf8ByteSize ≤ 1024 * 1024) :
    ∃ ps, (∀ qs, Cutting html.toList qs ↔ qs = ps) ∧
      (minify html).toList = uncut (squeezeAll none ps) ∧
      visible (minify html).toList = visible html.toList ∧
      (∀ p ∈ ps, p.chars ≠ []) ∧
      ∀ front back, ps = front ++ back →
        (String.ofList (uncut front)).rawEndPos.IsValid html := by
  have hfitting := fitting_cut html.toList
  have heq : (minify html).toList = uncut (squeezeAll none (cut html.toList)) := by
    rw [toList_minify h, minifyChars_eq]
  refine ⟨cut html.toList, fun qs => cutting_iff, heq, ?_, ?_, ?_⟩
  · rw [heq, visible_squeezeAll hfitting, uncut_cut]
  · intro p hp
    obtain ⟨front, back, hsplit⟩ := List.append_of_mem hp
    exact (hfitting front p back hsplit).chars_ne_nil
  · intro front back hsplit
    exact isValid_of_cutting (cutting_iff.2 hsplit.symm)

/-- Markup with a stray `<`, a `>` in quotes, white space that may not go, letters of several bytes
and a comment that does not end. -/
def ragged : String := "  <p title=\"a > b\">\n\n  1 <   2 é\n</p>    <PRE>\n\n</pre >\n<!-- ö\n\n"

theorem minify_eq_squeezed_ragged :
    ragged.utf8ByteSize ≤ 1024 * 1024 ∧
      ∃ ps, (∀ qs, Cutting ragged.toList qs ↔ qs = ps) ∧
        (minify ragged).toList = uncut (squeezeAll none ps) ∧
        visible (minify ragged).toList = visible ragged.toList ∧
        (∀ p ∈ ps, p.chars ≠ []) ∧
        ∀ front back, ps = front ++ back →
          (String.ofList (uncut front)).rawEndPos.IsValid ragged :=
  have hsize : ragged.utf8ByteSize ≤ 1024 * 1024 := by decide
  ⟨hsize, minify_eq_squeezed hsize⟩

example : minifyChars ragged.toList =
    "  <p title=\"a > b\"> 1 <   2 é </p><PRE>\n\n</pre ><!-- ö\n\n".toList := by cbv

/-- Minified markup is minified already, whatever it is. -/
theorem minify_minify (html : String) : minify (minify html) = minify html := by
  by_cases hlong : minifyLimit < html.utf8ByteSize
  · have hsame : minify html = html := if_pos hlong
    rw [hsame, hsame]
  by_cases hstill : minifyLimit < (minify html).utf8ByteSize
  · exact if_pos hstill
  have hfitting := fitting_cut html.toList
  have hleft : cut (minify html).toList = squeezeAll none (cut html.toList) := by
    rw [toList_minify (Nat.not_lt.1 hlong), minifyChars_eq, cut_uncut (fitting_squeezeAll hfitting _)]
  apply String.toList_injective
  rw [toList_minify (Nat.not_lt.1 hstill), minifyChars_eq, hleft, squeezeAll_squeezeAll hfitting,
    toList_minify (Nat.not_lt.1 hlong), minifyChars_eq]

end Folio.Markup
