import Folio.Proofs.Style.Rules
import Folio.Proofs.Text.Words
import Mathlib.Data.Nat.Digits.Lemmas

/-! Classes named by hashes. A hash is written by its digits of base thirty-six, from which it can
be read again, so two texts of rules share a class only if they share a hash. Such a name is a class
wherever classes are read, in a selector and among the classes of an element. -/
namespace Folio.Style

open Text

/-! Digits -/

theorem base36From_eq (done : List Char) (n : Nat) :
    base36From done n = ((Nat.digits 36 n).map digit36).reverse ++ done := by
  fun_induction base36From done n with
  | case1 done => simp
  | case2 done n hn ih =>
    rw [ih, Nat.digits_def' (by decide) (Nat.pos_of_ne_zero hn)]
    simp

/-- Of a positive number the digits are written from the last one on, and none in front of them. -/
theorem base36_eq {n : Nat} (hn : n ≠ 0) :
    base36 n = ((Nat.digits 36 n).map digit36).reverse := by
  rw [base36, if_neg hn, base36From_eq, List.append_nil]

/-- The value of a digit of base thirty-six. -/
def digitValue36? (c : Char) : Option Nat :=
  if c.isDigit then some (c.toNat - '0'.toNat)
  else if c.isLower then some (c.toNat - 'a'.toNat + 10)
  else none

/-- The number that digits of base thirty-six stand for, if all of a text are such digits. -/
def readBase36? (s : List Char) : Option Nat :=
  s.foldlM (fun n c => (digitValue36? c).map (n * 36 + ·)) 0

theorem digitValue36?_digit36 {n : Nat} (h : n < 36) : digitValue36? (digit36 n) = some n := by
  have hall : ∀ m : Fin 36, digitValue36? (digit36 m) = some m.val := by decide
  exact hall ⟨n, h⟩

theorem readBase36?_digits {ds : List Nat} (h : ∀ d ∈ ds, d < 36) :
    readBase36? (ds.map digit36).reverse = some (Nat.ofDigits 36 ds) := by
  -- the digits are given from the last one on, so the last step of the reader is the first here
  induction ds with
  | nil => rfl
  | cons d ds ih =>
    rw [List.forall_mem_cons] at h
    have hrest := ih h.2
    unfold readBase36? at hrest ⊢
    rw [List.map_cons, List.reverse_cons, List.foldlM_append, hrest, Nat.ofDigits_cons]
    simp [digitValue36?_digit36 h.1]
    omega

/-- A number is read back from its digits. -/
theorem readBase36?_base36 (n : Nat) : readBase36? (base36 n) = some n := by
  by_cases hn : n = 0
  · subst hn
    rfl
  · have hdigits : ∀ d ∈ Nat.digits 36 n, d < 36 := fun d hd => Nat.digits_lt_base (by decide) hd
    rw [base36_eq hn, readBase36?_digits hdigits, Nat.ofDigits_digits]

theorem base36_ne_nil (n : Nat) : base36 n ≠ [] := by
  by_cases hn : n = 0
  · subst hn
    decide
  · simp [base36_eq hn, Nat.digits_ne_nil_iff_ne_zero.2 hn]

/-- Only zero is written with a zero in front. -/
theorem head?_base36_eq_zero_iff {n : Nat} : (base36 n).head? = some '0' ↔ n = 0 := by
  refine ⟨fun h => ?_, fun hn => hn ▸ rfl⟩
  by_contra hn
  have hsome := Nat.digits_ne_nil_iff_ne_zero (b := 36).2 hn
  have hlast := Nat.getLast_digit_ne_zero 36 hn
  have hbound := Nat.digits_lt_base (by decide) (List.getLast_mem hsome)
  have hfirst : digit36 ((Nat.digits 36 n).getLast hsome) = '0' := by
    rw [base36_eq hn, List.head?_reverse, List.getLast?_map, List.getLast?_eq_some_getLast hsome]
      at h
    exact Option.some.inj h
  have hvalue := digitValue36?_digit36 hbound
  rw [hfirst] at hvalue
  exact hlast (Option.some.inj hvalue).symm

theorem length_base36_le {n k : Nat} (hk : 0 < k) (h : n < 36 ^ k) : (base36 n).length ≤ k := by
  by_cases hn : n = 0
  · subst hn
    exact hk
  · rw [base36_eq hn, List.length_reverse, List.length_map]
    exact (Nat.digits_length_le_iff (by decide) n).2 h

theorem base36_injective : Function.Injective base36 := by
  intro m n h
  have hread := readBase36?_base36 m
  rw [h, readBase36?_base36] at hread
  exact (Option.some.inj hread).symm

/-! Classes -/

/-- The class of a hash. -/
def classOfHash (h : UInt32) : String := "w-" ++ String.ofList (base36 h.toNat)

variable {limit : Nat}

theorem toList_classOfHash (h : UInt32) :
    (classOfHash h).toList = 'w' :: '-' :: base36 h.toNat := by
  simp [classOfHash]

theorem classOfHash_injective : Function.Injective classOfHash := by
  intro g h heq
  have hdigits : base36 g.toNat = base36 h.toNat := by
    simpa [toList_classOfHash] using congrArg String.toList heq
  exact UInt32.toNat_inj.1 (base36_injective hdigits)

theorem isClassChar_of_mem_classOfHash (h : UInt32) :
    ∀ c ∈ (classOfHash h).toList, isClassChar c = true := by
  rw [toList_classOfHash, List.forall_mem_cons, List.forall_mem_cons]
  exact ⟨rfl, rfl, isClassChar_of_mem_base36 _⟩

/-- A rule for a class at the start of a fragment is kept, under that class, if any of its
declarations is left. -/
theorem cleanFragment_ruleText_append {className body : String} (hsome : className ≠ "")
    (hname : ∀ c ∈ className.toList, isClassChar c = true) (hbody : '\x7d' ∉ body.toList)
    (rest : String) :
    cleanFragment limit (ruleText className body ++ rest) =
      (if (declarations limit (bodyDeclarations body.toList)).isEmpty then ""
        else ruleText className (declarations limit (bodyDeclarations body.toList)))
        ++ cleanFragment limit rest := by
  have htext : (ruleText className body ++ rest).toList =
      partText ('.' :: className.toList, body.toList) ++ rest.toList := by
    simp [toList_ruleText, partText]
  have hrule : rebuildRule limit ('.' :: className.toList) body.toList =
      if (declarations limit (bodyDeclarations body.toList)).isEmpty then ""
        else ruleText className (declarations limit (bodyDeclarations body.toList)) := by
    rw [rebuildRule, classOf?_dot (by simpa using hsome) hname]
    simp only [String.ofList_toList]
  rw [← hrule, cleanFragment, htext,
    rules_partText_append (not_mem_dot hname rfl (by decide)) hbody, List.map_cons,
    String.join_cons, cleanFragment]

/-- Two texts of rules share a class exactly if they share a hash, for a hash is read back from the
digits that its class is made of. They are one to seven, with no zero in front unless the hash is
zero. The class is one word without white space, and the selector of it is accepted in a fragment:
a rule for it is dropped only if none of its declarations is left. -/
theorem scopedClass_names_hash :
    (∀ a b : String, scopedClass a = scopedClass b ↔ hash a = hash b) ∧
    (∀ rules : String, scopedClass rules = classOfHash (hash rules)) ∧
    base36 0 = ['0'] ∧
    ∀ h : UInt32,
      readBase36? (base36 h.toNat) = some h.toNat ∧
      ((base36 h.toNat).head? = some '0' ↔ h = 0) ∧
      1 ≤ (base36 h.toNat).length ∧ (base36 h.toNat).length ≤ 7 ∧
      (∀ c ∈ (classOfHash h).toList, isBlank c = false) ∧
      words (classOfHash h).toList = [(classOfHash h).toList] ∧
      classOf? ('.' :: (classOfHash h).toList) = some (classOfHash h).toList ∧
      ∀ limit body rest, '\x7d' ∉ body.toList →
        cleanFragment limit (ruleText (classOfHash h) body ++ rest) =
          (if (declarations limit (bodyDeclarations body.toList)).isEmpty then ""
            else ruleText (classOfHash h) (declarations limit (bodyDeclarations body.toList)))
            ++ cleanFragment limit rest := by
  refine ⟨fun a b => ?_, fun _ => rfl, rfl, fun h => ?_⟩
  · exact classOfHash_injective.eq_iff (a := hash a) (b := hash b)
  · have hname := isClassChar_of_mem_classOfHash h
    have hsome : classOfHash h ≠ "" := by simp [classOfHash]
    have hchars : (classOfHash h).toList ≠ [] := by simpa using hsome
    have hvisible : ∀ c ∈ (classOfHash h).toList, isBlank c = false :=
      fun c hc => isBlank_of_isClassChar (hname c hc)
    have hbound : h.toNat < 36 ^ 7 := Nat.lt_trans h.toNat_lt (by decide)
    refine ⟨readBase36?_base36 _, ?_, ?_, length_base36_le (by decide) hbound,
      hvisible, words_of_visible hchars hvisible, classOf?_dot hchars hname, ?_⟩
    · rw [head?_base36_eq_zero_iff, ← UInt32.toNat_inj]
      rfl
    · exact List.length_pos_iff.2 (base36_ne_nil _)
    · exact fun limit body rest hbody => cleanFragment_ruleText_append hsome hname hbody rest

/-- Two texts of rules with different hashes, and the largest hash, with a rule for its class in
front of another rule. -/
theorem scopedClass_names_hash_largest :
    scopedClass "color:red;" ≠ scopedClass "color:blue;" ∧
      classOfHash 0xFFFFFFFF = "w-1z141z3" ∧
      readBase36? "1z141z3".toList = some (0xFFFFFFFF : UInt32).toNat ∧
      '\x7d' ∉ "color: red;</style>".toList ∧
      cleanFragment 9 ".w-1z141z3\x7bcolor: red;</style>\x7d.b\x7btop:0\x7d" =
        ".w-1z141z3\x7bcolor:red;\x7d.b\x7btop:0;\x7d" := by
  obtain ⟨hshared, -, -, hhashes⟩ := scopedClass_names_hash
  obtain ⟨hread, -, -, -, -, -, -, hfragment⟩ := hhashes 0xFFFFFFFF
  have hdiffer : hash "color:red;" ≠ hash "color:blue;" := by decide +kernel
  have hdigits : base36 (0xFFFFFFFF : UInt32).toNat = "1z141z3".toList := by decide +kernel
  have hclass : classOfHash 0xFFFFFFFF = "w-1z141z3" := by decide +kernel
  have hbody : '\x7d' ∉ "color: red;</style>".toList := by decide
  have hkept := hfragment 9 "color: red;</style>" ".b\x7btop:0\x7d" hbody
  rw [hdigits] at hread
  rw [hclass] at hkept
  refine ⟨fun h => hdiffer ((hshared _ _).1 h), hclass, hread, hbody, hkept.trans ?_⟩
  decide +kernel

end Folio.Style
