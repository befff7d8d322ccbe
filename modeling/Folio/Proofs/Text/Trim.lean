import Folio.Text.Blank
import Mathlib.Data.List.TakeWhile

/-! Texts without white space at their ends, which trimming makes and leaves alone. -/
namespace Folio.Text

variable {s : List Char}

/-- The visible characters of ASCII are no white space. -/
theorem isBlank_of_ascii {c : Char} (hlow : 0x20 < c.toNat) (hhigh : c.toNat < 0x7f) :
    isBlank c = false := by
  simp only [isBlank, Bool.or_eq_false_iff, Bool.and_eq_false_iff, decide_eq_false_iff_not,
    beq_eq_false_iff_ne]
  omega

/-- Holds of texts that neither start nor end with white space. -/
structure IsTrimmed (s : List Char) : Prop where
  first : ∀ c ∈ s.head?, isBlank c = false
  last : ∀ c ∈ s.getLast?, isBlank c = false

theorem dropWhile_isBlank_eq_self (h : ∀ c ∈ s.head?, isBlank c = false) :
    s.dropWhile isBlank = s := by
  cases s with
  | nil => rfl
  | cons c s => rw [List.dropWhile_cons_of_neg (by simp [h c rfl])]

theorem trimEnd_eq_self (h : ∀ c ∈ s.getLast?, isBlank c = false) : trimEnd s = s := by
  rw [← List.head?_reverse] at h
  rw [trimEnd, dropWhile_isBlank_eq_self h, List.reverse_reverse]

theorem IsTrimmed.trim_eq (h : IsTrimmed s) : trim s = s := by
  rw [trim, dropWhile_isBlank_eq_self h.first, trimEnd_eq_self h.last]

theorem isTrimmed_of_forall (h : ∀ c ∈ s, isBlank c = false) : IsTrimmed s :=
  ⟨fun c hc => h c (List.mem_of_mem_head? hc), fun c hc => h c (List.mem_of_getLast? hc)⟩

theorem isBlank_of_mem_head?_dropWhile {c : Char} (h : c ∈ (s.dropWhile isBlank).head?) :
    isBlank c = false := by
  have := List.head?_dropWhile_not isBlank s
  rw [Option.mem_def.1 h] at this
  simpa using this

theorem trimEnd_isPrefix (s : List Char) : trimEnd s <+: s := by
  rw [trimEnd, ← List.reverse_suffix, List.reverse_reverse]
  exact List.dropWhile_suffix isBlank

theorem trim_isInfix (s : List Char) : trim s <:+: s :=
  (trimEnd_isPrefix _).isInfix.trans (List.dropWhile_suffix isBlank).isInfix

theorem isBlank_of_mem_getLast?_trimEnd {c : Char} (h : c ∈ (trimEnd s).getLast?) :
    isBlank c = false := by
  rw [trimEnd, List.getLast?_reverse] at h
  exact isBlank_of_mem_head?_dropWhile h

theorem trimEnd_trimEnd (s : List Char) : trimEnd (trimEnd s) = trimEnd s :=
  trimEnd_eq_self fun _ hc => isBlank_of_mem_getLast?_trimEnd hc

theorem trimEnd_eq_self_iff : trimEnd s = s ↔ ∀ c ∈ s.getLast?, isBlank c = false := by
  refine ⟨fun h c hc => ?_, trimEnd_eq_self⟩
  rw [← h] at hc
  exact isBlank_of_mem_getLast?_trimEnd hc

/-- Trimming the end does not come to a visible character at the start. -/
theorem trimEnd_ne_nil (hsome : s ≠ []) (h : ∀ c ∈ s.head?, isBlank c = false) :
    trimEnd s ≠ [] := by
  intro hnil
  obtain ⟨c, rest, rfl⟩ := List.exists_cons_of_ne_nil hsome
  rw [trimEnd, List.reverse_eq_nil_iff, List.dropWhile_eq_nil_iff] at hnil
  have hblank := hnil c (List.mem_reverse.2 List.mem_cons_self)
  rw [h c rfl] at hblank
  cases hblank

/-- The end is trimmed last, and what is left then still starts as it did. -/
theorem isTrimmed_trim (s : List Char) : IsTrimmed (trim s) := by
  refine ⟨fun c hc => ?_, fun c hc => ?_⟩
  · obtain ⟨rest, hrest⟩ := trimEnd_isPrefix (s.dropWhile isBlank)
    obtain ⟨tail, htail⟩ := List.head?_eq_some_iff.1 hc
    have hfirst : c ∈ (s.dropWhile isBlank).head? := by
      rw [← hrest, ← trim, htail]
      rfl
    exact isBlank_of_mem_head?_dropWhile hfirst
  · exact isBlank_of_mem_getLast?_trimEnd hc

end Folio.Text
