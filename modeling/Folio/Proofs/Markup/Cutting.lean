import Folio.Proofs.Markup.Delimited

/-! What it means to cut markup from left to right, and that the pieces of a text are the only cutting
of it. -/
namespace Folio.Markup

open Text (isAsciiBlank)

/-- The markup that a piece was cut from. -/
def Piece.chars : Piece → List Char
  | .whole s | .blank s => s
  | .visible c => [c]

/-- The markup that pieces were cut from. -/
def uncut (ps : List Piece) : List Char := ps.flatMap Piece.chars

@[simp] theorem uncut_nil : uncut [] = [] := rfl

@[simp] theorem uncut_cons (p : Piece) (ps : List Piece) : uncut (p :: ps) = p.chars ++ uncut ps :=
  List.flatMap_cons

@[simp] theorem uncut_append (ps qs : List Piece) : uncut (ps ++ qs) = uncut ps ++ uncut qs :=
  List.flatMap_append

/-- What a piece must be if `rest` stands behind it: a preserved element, a tag or a comment that ends
where the piece ends; white space that does not go on; or one other character, which is no `<` that
starts something that is kept whole. -/
def Piece.Fits (rest : List Char) : Piece → Prop
  | .whole s => ∃ body, s = '<' :: body ∧ wholeLength? (body ++ rest) = some body.length
  | .blank run => run ≠ [] ∧ (∀ c ∈ run, isAsciiBlank c = true) ∧
    ∀ c ∈ rest.head?, isAsciiBlank c = false
  | .visible c => isAsciiBlank c = false ∧ (c = '<' → wholeLength? rest = none)

/-- Pieces each of which fits in front of those that follow it. -/
def Fitting (ps : List Piece) : Prop :=
  ∀ front p back, ps = front ++ p :: back → p.Fits (uncut back)

/-- A text cut from left to right: nothing is lost or moved, and every piece fits. -/
structure Cutting (s : List Char) (ps : List Piece) : Prop where
  uncut_eq : uncut ps = s
  fitting : Fitting ps

variable {s rest : List Char} {p : Piece} {ps : List Piece}

theorem fitting_nil : Fitting [] := by
  intro front p back h
  cases front <;> cases h

theorem fitting_cons : Fitting (p :: ps) ↔ p.Fits (uncut ps) ∧ Fitting ps := by
  constructor
  · intro h
    refine ⟨h [] p ps rfl, fun front q back heq => ?_⟩
    exact h (p :: front) q back (by rw [heq, List.cons_append])
  · rintro ⟨hp, hps⟩ front q back heq
    cases front with
    | nil =>
      obtain ⟨rfl, rfl⟩ := List.cons.inj heq
      exact hp
    | cons r front => exact hps front q back (List.cons.inj heq).2

/-- Every piece takes at least one character. -/
theorem Piece.Fits.chars_ne_nil (h : p.Fits rest) : p.chars ≠ [] := by
  cases p with
  | whole s =>
    obtain ⟨body, rfl, -⟩ := h
    exact List.cons_ne_nil _ _
  | blank run => exact h.1
  | visible c => exact List.cons_ne_nil _ _

theorem cut_cons_of_fits (h : p.Fits (uncut ps)) : cut (uncut (p :: ps)) = p :: cut (uncut ps) := by
  rw [uncut_cons]
  cases p with
  | whole s =>
    obtain ⟨body, rfl, hbody⟩ := h
    rw [Piece.chars, List.cons_append, cut_whole hbody, List.take_left, List.drop_left]
  | blank run => exact cut_blank h.1 h.2.1 h.2.2
  | visible c => exact cut_visible h.1 h.2

/-- A cutting is found again from its text. -/
theorem cut_uncut (h : Fitting ps) : cut (uncut ps) = ps := by
  induction ps with
  | nil => exact cut_nil
  | cons p ps ih =>
    obtain ⟨hp, hps⟩ := fitting_cons.1 h
    rw [cut_cons_of_fits hp, ih hps]

theorem Cutting.cons (hp : p.Fits rest) (h : Cutting rest ps) :
    Cutting (p.chars ++ rest) (p :: ps) := by
  obtain ⟨rfl, hfitting⟩ := h
  exact ⟨uncut_cons p ps, fitting_cons.2 ⟨hp, hfitting⟩⟩

/-- The induction along a text: its first piece, and the cutting of what that leaves. -/
theorem exists_cutting (s : List Char) : ∃ ps, Cutting s ps := by
  induction hlength : s.length using Nat.strongRecOn generalizing s with
  | ind n ih =>
  subst hlength
  cases s with
  | nil => exact ⟨[], rfl, fitting_nil⟩
  | cons c s =>
    by_cases hblank : isAsciiBlank c = true
    · have hrun : ∀ d ∈ c :: s.takeWhile isAsciiBlank, isAsciiBlank d = true :=
        List.forall_mem_cons.2 ⟨hblank, List.all_eq_true.1 List.all_takeWhile⟩
      have hstop : ∀ d ∈ (s.dropWhile isAsciiBlank).head?, isAsciiBlank d = false := by
        have hnot := List.head?_dropWhile_not isAsciiBlank s
        rintro d hd
        rw [hd] at hnot
        exact hnot
      have hfits : (Piece.blank (c :: s.takeWhile isAsciiBlank)).Fits (s.dropWhile isAsciiBlank) :=
        ⟨List.cons_ne_nil _ _, hrun, hstop⟩
      have hshorter : (s.dropWhile isAsciiBlank).length < (c :: s).length :=
        Nat.lt_succ_of_le (List.dropWhile_sublist isAsciiBlank).length_le
      obtain ⟨ps, hps⟩ := ih _ hshorter _ rfl
      have hcut := hps.cons hfits
      rw [Piece.chars, List.cons_append, List.takeWhile_append_dropWhile] at hcut
      exact ⟨_, hcut⟩
    · rw [Bool.not_eq_true] at hblank
      by_cases hwhole : c = '<' ∧ (wholeLength? s).isSome = true
      · obtain ⟨rfl, hsome⟩ := hwhole
        obtain ⟨k, hk⟩ := Option.isSome_iff_exists.1 hsome
        have hlength : (s.take k).length = k := List.length_take_of_le (wholeLength?_le hk)
        have hfits : (Piece.whole ('<' :: s.take k)).Fits (s.drop k) :=
          ⟨s.take k, rfl, by rw [List.take_append_drop, hlength, hk]⟩
        have hshorter : (s.drop k).length < ('<' :: s).length := by
          rw [List.length_drop, List.length_cons]
          omega
        obtain ⟨ps, hps⟩ := ih _ hshorter _ rfl
        have hcut := hps.cons hfits
        rw [Piece.chars, List.cons_append, List.take_append_drop] at hcut
        exact ⟨_, hcut⟩
      · have hfits : (Piece.visible c).Fits s :=
          ⟨hblank, fun hlt => by simpa [hlt] using hwhole⟩
        obtain ⟨ps, hps⟩ := ih _ (Nat.lt_succ_self s.length) s rfl
        exact ⟨_, hps.cons hfits⟩

/-- The scanner cuts a text in the one way in which it can be cut. -/
theorem cutting_iff : Cutting s ps ↔ ps = cut s := by
  have honly : ∀ {ps}, Cutting s ps → ps = cut s := by
    rintro ps ⟨rfl, hfitting⟩
    exact (cut_uncut hfitting).symm
  constructor
  · exact honly
  · rintro rfl
    obtain ⟨ps, hps⟩ := exists_cutting s
    exact honly hps ▸ hps

theorem fitting_cut (s : List Char) : Fitting (cut s) := (cutting_iff.2 rfl).fitting

theorem uncut_cut (s : List Char) : uncut (cut s) = s := (cutting_iff.2 rfl).uncut_eq

end Folio.Markup
