import Folio.Client.Script
import Folio.Proofs.Text.Occurrence

/-! Texts without a denied sequence, and how clean texts are put between fixed pieces so that no
denied sequence forms where they meet. -/
namespace Folio.Client

variable {s t : List Char}

/-- Holds of texts in which no denied sequence occurs, in any letter case. -/
def IsClean (s : List Char) : Prop :=
  ∀ sequence ∈ denied, ¬ sequence.toList <:+: s.map Char.toLower

instance (s : List Char) : Decidable (IsClean s) :=
  decidable_of_iff
    (denied.all fun sequence => !Text.occurs sequence.toList (s.map Char.toLower)) <| by
      simp only [List.all_eq_true, Bool.not_eq_true', ← Bool.not_eq_true,
        Text.occurs_iff_infix, IsClean]

theorem isClean_of_check {kind : Kind} {limits : Limits} {source : String}
    (h : check kind limits source = .ok ()) : IsClean source.toList := by
  unfold check at h
  dsimp only at h
  split at h
  · cases h
  · split at h
    · cases h
    · split at h
      · cases h
      · next hnone =>
        intro sequence hsequence hin
        have hno := List.find?_eq_none.1 hnone sequence hsequence
        exact hno (Text.occurs_iff_infix.2 hin)

theorem isClean_of_accepts {kind : Kind} {limits : Limits} {source : String}
    (h : accepts kind limits source = true) : IsClean source.toList := by
  unfold accepts at h
  split at h
  · next hcheck => exact isClean_of_check hcheck
  · cases h

/-- An embedded text is clean: every denied sequence starts with one that is broken up. -/
theorem isClean_embedChars (s : List Char) : IsClean (Text.embedChars s) := by
  intro sequence hsequence hin
  have hsequences : sequence = "</script" ∨ sequence = "<!--" := by
    simpa [denied] using hsequence
  rcases hsequences with rfl | rfl
  · have hclosing : ['<', '/'] <:+: (Text.embedChars s).map Char.toLower :=
      List.IsInfix.trans ⟨[], "script".toList, rfl⟩ hin
    exact Text.not_infix_embedChars_closing s
      (Text.infix_of_infix_map_toLower (by simp) hclosing)
  · exact Text.not_infix_embedChars_comment s (Text.infix_of_infix_map_toLower (by simp) hin)

theorem isClean_embed (s : String) : IsClean (Text.embed s).toList := by
  rw [Text.embed, String.toList_ofList]
  exact isClean_embedChars s.toList

/-! Joining -/

/-- Characters of which no denied sequence is made. -/
def isNeutral (c : Char) : Bool := denied.all fun sequence => !sequence.toList.contains c.toLower

theorem not_mem_of_isNeutral {c : Char} (h : isNeutral c = true) {sequence : String}
    (hsequence : sequence ∈ denied) : c.toLower ∉ sequence.toList := by
  have hnot := List.all_eq_true.1 h sequence hsequence
  simpa using hnot

theorem IsClean.append (hs : IsClean s) (ht : IsClean t)
    (hborder : (∀ c ∈ s.getLast?, isNeutral c = true) ∨ ∀ c ∈ t.head?, isNeutral c = true) :
    IsClean (s ++ t) := by
  intro sequence hsequence
  rw [List.map_append]
  refine Text.not_infix_append (hs sequence hsequence) (ht sequence hsequence) ?_
  rcases hborder with hborder | hborder
  · left
    intro d hd
    rw [List.getLast?_map] at hd
    obtain ⟨c, hc, rfl⟩ := Option.map_eq_some_iff.1 hd
    exact not_mem_of_isNeutral (hborder c hc) hsequence
  · right
    intro d hd
    rw [List.head?_map] at hd
    obtain ⟨c, hc, rfl⟩ := Option.map_eq_some_iff.1 hd
    exact not_mem_of_isNeutral (hborder c hc) hsequence

/-- Clean texts that anything clean may follow. -/
structure IsTight (s : List Char) : Prop where
  clean : IsClean s
  last : ∀ c ∈ s.getLast?, isNeutral c = true

instance (s : List Char) : Decidable (IsTight s) :=
  decidable_of_iff (IsClean s ∧ s.getLast?.all isNeutral = true)
    ⟨fun h => ⟨h.1, (Option.all_eq_true ..).1 h.2⟩,
      fun h => ⟨h.clean, (Option.all_eq_true ..).2 h.last⟩⟩

/-- Fixed pieces that anything clean may stand next to. -/
def isJoint (s : String) : Bool :=
  decide (IsClean s.toList) && s.toList.head?.any isNeutral && s.toList.getLast?.any isNeutral

/-- A fixed text is looked at character by character. -/
theorem isJoint_ofList {cs : List Char}
    (h : (decide (IsClean cs) && cs.head?.any isNeutral && cs.getLast?.any isNeutral) = true) :
    isJoint (String.ofList cs) = true := by
  rw [isJoint, String.toList_ofList]
  exact h

theorem isTight_ofList {cs : List Char} (h : IsTight cs) : IsTight (String.ofList cs).toList := by
  rwa [String.toList_ofList]

theorem isTight_nil : IsTight [] := ⟨by decide, nofun⟩

theorem IsTight.append (hs : IsTight s) (ht : IsTight t) : IsTight (s ++ t) := by
  refine ⟨hs.clean.append ht.clean (.inl hs.last), fun c hc => ?_⟩
  rw [List.getLast?_append] at hc
  rcases Option.or_eq_some_iff.1 hc with hc | ⟨-, hc⟩
  · exact ht.last c hc
  · exact hs.last c hc

/-- A joint closes what is put in front of it. -/
theorem IsTight.append_joint (hs : IsTight s) (ht : IsClean t) {joint : String}
    (h : isJoint joint = true) : IsTight (s ++ (t ++ joint.toList)) := by
  unfold isJoint at h
  simp only [Bool.and_eq_true, decide_eq_true_eq, Option.any_eq_true] at h
  obtain ⟨⟨hclean, ⟨first, hfirst, hneutral⟩⟩, ⟨last, hlast, hend⟩⟩ := h
  have hhead : ∀ c ∈ joint.toList.head?, isNeutral c = true := by
    intro c hc
    obtain rfl := Option.some.inj (hfirst.symm.trans hc)
    exact hneutral
  have hmore : IsClean (t ++ joint.toList) := ht.append hclean (.inr hhead)
  refine hs.append ⟨hmore, fun c hc => ?_⟩
  rw [List.getLast?_append, hlast] at hc
  obtain rfl := Option.some.inj hc
  exact hend

/-- Clean texts, each followed by a joint, can be woven onto a tight one. -/
theorem isTight_weave (lead : String) (parts : List (String × String))
    (hlead : IsTight lead.toList) (hclean : ∀ part ∈ parts, IsClean part.1.toList)
    (hjoint : ∀ part ∈ parts, isJoint part.2 = true) :
    IsTight (String.join (lead :: parts.flatMap fun part => [part.1, part.2])).toList := by
  rw [String.toList_join, List.flatMap_cons]
  generalize lead.toList = s at hlead
  induction parts generalizing s with
  | nil => simpa using hlead
  | cons part parts ih =>
    rw [List.forall_mem_cons] at hclean hjoint
    have hmore := hlead.append_joint hclean.1 hjoint.1
    have hrest := ih hclean.2 hjoint.2 _ hmore
    simpa [List.append_assoc] using hrest

theorem isTight_join {parts : List String} (h : ∀ part ∈ parts, IsTight part.toList) :
    IsTight (String.join parts).toList := by
  rw [String.toList_join]
  induction parts with
  | nil => exact isTight_nil
  | cons part parts ih =>
    rw [List.forall_mem_cons] at h
    rw [List.flatMap_cons]
    exact h.1.append (ih h.2)

end Folio.Client
