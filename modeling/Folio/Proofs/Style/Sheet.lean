import Folio.Proofs.Style.Values
import Folio.Proofs.Text.KebabForm
import Folio.Proofs.Text.Pieces
import Mathlib.Data.List.Basic

/-! Style fragments as sheets of rules. What is made of a fragment from elsewhere is the text of
well-formed rules for classes, and a text of such rules is read as these rules, so it is left alone
when it is cleaned, unless one of its values was cut. -/
namespace Folio.Text

variable {c : Char} {s before after : List Char}

theorem not_mem_of_splitAt? (h : splitAt? c s = some (before, after)) : c ∉ before := by
  induction s generalizing before with
  | nil => cases h
  | cons d s ih =>
    unfold splitAt? at h
    split at h
    · obtain rfl := (Prod.mk.inj (Option.some.inj h)).1
      exact List.not_mem_nil
    · next hd =>
      obtain ⟨⟨b, a⟩, hs, heq⟩ := Option.map_eq_some_iff.1 h
      obtain ⟨rfl, rfl⟩ := Prod.mk.inj heq
      rw [List.mem_cons, not_or]
      exact ⟨Ne.symm hd, ih hs⟩

theorem colon_mem_of_kebabFrom {previous : Option Char} {out : List Char}
    (h : ':' ∈ kebabFrom previous out s) : ':' ∈ s ∨ ':' ∈ out := by
  induction s generalizing previous out with
  | nil => exact .inr h
  | cons d s ih =>
    have hdash : ∀ out, ':' ∈ joinDash out → ':' ∈ out := by
      intro out hout
      unfold joinDash at hout
      split at hout
      · exact hout
      · exact hout
      · simpa using hout
    rcases ih h with hs | hstep
    · exact .inl (List.mem_cons_of_mem _ hs)
    · unfold kebabStep at hstep
      split at hstep
      · next hupper =>
        have hlower := isLower_toLower hupper
        rcases List.mem_cons.1 hstep with heq | hout
        · rw [← heq] at hlower
          cases hlower
        · split at hout
          · exact .inr (hdash out hout)
          · exact .inr hout
      · split at hstep
        · rcases List.mem_cons.1 hstep with rfl | hout
          · exact .inl List.mem_cons_self
          · exact .inr hout
        · split at hstep
          · exact .inr (hdash out hstep)
          · exact .inr hstep

/-- A colon in a kebab name was there before. -/
theorem colon_not_mem_kebabChars (h : ':' ∉ s) : ':' ∉ kebabChars s := by
  obtain ⟨start, body, hstart, hsplit, -, heq⟩ := kebabChars_cases s
  have hbody : ':' ∉ body := by
    intro hmem
    have htrim : ':' ∈ trim s := hsplit ▸ List.mem_append_right start hmem
    exact h ((trim_isInfix s).subset htrim)
  have hdrop : ∀ out : List Char, dropLastDash out ⊆ out := by
    intro out
    unfold dropLastDash
    split
    · exact List.Subset.refl _
    · exact List.subset_cons_self ..
    · exact List.Subset.refl _
  rw [heq, List.mem_reverse]
  intro hmem
  rcases colon_mem_of_kebabFrom (hdrop _ hmem) with hmem | hmem
  · exact hbody hmem
  · rcases hstart with rfl | rfl <;> simp at hmem

end Folio.Text

namespace Folio.Style

open Text

variable {limit : Nat}

/-! Declarations -/

/-- A declaration, by property and value. -/
def declarationText (d : String × String) : String := d.1 ++ ":" ++ d.2 ++ ";"

/-- What is declared of declarations: those of which something is left, under their kebab names and
with clean values. -/
def kept (limit : Nat) (ds : List (String × String)) : List (String × String) :=
  (ds.map fun d => (kebab d.1, clean limit d.2)).filter fun d => !(d.1.isEmpty || d.2.isEmpty)

theorem declarations_eq_join (limit : Nat) (ds : List (String × String)) :
    declarations limit ds = String.join ((kept limit ds).map declarationText) := by
  induction ds with
  | nil => simp [declarations, kept]
  | cons d ds ih =>
    have hcons : declarations limit (d :: ds) = declaration limit d ++ declarations limit ds := by
      simp [declarations]
    rw [hcons, ih]
    simp only [declaration, kept, List.map_cons, List.filter_cons]
    by_cases hempty : ((kebab d.1).isEmpty || (clean limit d.2).isEmpty) = true
    · simp [hempty]
    · simp [hempty, declarationText]

theorem toList_declarationText (d : String × String) :
    (declarationText d).toList = d.1.toList ++ ':' :: d.2.toList ++ [';'] := by
  simp [declarationText]

/-- A declaration that is well-formed as a text: a property of kebab characters and a value. -/
structure IsDeclared (d : String × String) : Prop where
  named : d.1 ≠ ""
  property : IsKebab d.1.toList
  valued : d.2 ≠ ""
  value : IsValue d.2.toList

theorem isDeclared_of_mem_kept {ds : List (String × String)} {d : String × String}
    (h : d ∈ kept limit ds) : IsDeclared d := by
  obtain ⟨hmem, hsome⟩ := List.mem_filter.1 h
  obtain ⟨e, -, rfl⟩ := List.mem_map.1 hmem
  simp only [Bool.not_eq_true', Bool.or_eq_false_iff, String.isEmpty_eq_false_iff] at hsome
  have hvalue : (clean limit e.2).toList = cleanChars limit e.2.toList := toList_via _ _
  refine ⟨hsome.1, isKebab_kebab e.1, hsome.2, ?_⟩
  rw [hvalue]
  exact isValue_cleanChars limit _

namespace IsDeclared

variable {d : String × String} {ds : List (String × String)}

/-- The text of a declaration has no delimiter of rules in it but the one it ends with. -/
theorem not_mem_front (h : IsDeclared d) {c : Char} (hc : isForbidden c = true) :
    c ∉ d.1.toList ++ ':' :: d.2.toList := by
  have hkebab : isKebabChar c = false := by
    simp only [isForbidden, Bool.or_eq_true, beq_iff_eq] at hc
    rcases hc with ((((rfl | rfl) | rfl) | rfl) | rfl) | rfl <;> rfl
  rw [List.mem_append, List.mem_cons, not_or, not_or]
  refine ⟨h.property.not_mem hkebab, ?_, fun hmem => ?_⟩
  · rintro rfl
    cases hc
  · have hallowed := h.value.allowed c hmem
    rw [hc] at hallowed
    cases hallowed

theorem hasCommentMark_front (h : IsDeclared d) :
    hasCommentMark (d.1.toList ++ ':' :: d.2.toList) = false :=
  hasCommentMark_append_cons (hasCommentMark_of_not_mem (h.property.not_mem rfl))
    h.value.uncommented (by decide) (by decide)

/-- No delimiter of rules stands in declarations, but for the ends of the declarations. -/
theorem not_mem_join (h : ∀ d ∈ ds, IsDeclared d) {c : Char} (hc : isForbidden c = true)
    (hend : c ≠ ';') : c ∉ (String.join (ds.map declarationText)).toList := by
  rw [String.toList_join, List.flatMap_map]
  intro hmem
  obtain ⟨d, hd, hmem⟩ := List.mem_flatMap.1 hmem
  rw [toList_declarationText, List.mem_append, List.mem_singleton] at hmem
  exact hmem.elim ((h d hd).not_mem_front hc) hend

theorem hasCommentMark_join (h : ∀ d ∈ ds, IsDeclared d) :
    hasCommentMark (String.join (ds.map declarationText)).toList = false := by
  induction ds with
  | nil => rfl
  | cons d ds ih =>
    rw [List.forall_mem_cons] at h
    have hsplit := hasCommentMark_append_cons (c := ';') h.1.hasCommentMark_front (ih h.2)
      (by decide) (by decide)
    simpa [toList_declarationText] using hsplit

end IsDeclared

/-- A declaration that can stand in a rule. -/
structure IsDeclaration (limit : Nat) (d : String × String) : Prop where
  property : kebab d.1 = d.1
  named : d.1 ≠ ""
  colon : ':' ∉ d.1.toList
  value : IsValue d.2.toList
  valued : d.2 ≠ ""
  short : d.2.toList.length ≤ limit

theorem isDeclaration_of_mem_kept {ds : List (String × String)}
    (hcolon : ∀ d ∈ ds, ':' ∉ (kebab d.1).toList) {d : String × String}
    (h : d ∈ kept limit ds) : IsDeclaration limit d := by
  have hdeclared := isDeclared_of_mem_kept h
  obtain ⟨e, he, rfl⟩ := List.mem_map.1 (List.mem_filter.1 h).1
  have hvalue : (clean limit e.2).toList = cleanChars limit e.2.toList := toList_via _ _
  refine ⟨kebab_kebab e.1, hdeclared.named, hcolon e he, hdeclared.value, hdeclared.valued, ?_⟩
  rw [hvalue]
  exact length_cleanChars_le limit _

theorem IsDeclaration.isDeclared {d : String × String} (h : IsDeclaration limit d) :
    IsDeclared d :=
  ⟨h.named, h.property ▸ isKebab_kebab d.1, h.valued, h.value⟩

/-- A body of declarations is read as they are. -/
theorem bodyDeclarations_join {ds : List (String × String)}
    (h : ∀ d ∈ ds, IsDeclaration limit d) :
    bodyDeclarations (String.join (ds.map declarationText)).toList = ds := by
  induction ds with
  | nil => rfl
  | cons d ds ih =>
    rw [List.forall_mem_cons] at h
    have hfront : ';' ∉ d.1.toList ++ ':' :: d.2.toList := h.1.isDeclared.not_mem_front rfl
    have hbody : (String.join ((d :: ds).map declarationText)).toList =
        (d.1.toList ++ ':' :: d.2.toList) ++
          ';' :: (String.join (ds.map declarationText)).toList := by
      simp [toList_declarationText]
    have hrest := ih h.2
    unfold bodyDeclarations at hrest ⊢
    rw [hbody, splitOn_append_cons hfront, List.filterMap_cons, splitAt?_append_cons h.1.colon,
      hrest]
    simp

/-! Rules -/

/-- The selector of a class has no characters but its dot and those of classes. -/
theorem not_mem_dot {name : List Char} (hname : ∀ c ∈ name, isClassChar c = true) {c : Char}
    (hc : isClassChar c = false) (hdot : c ≠ '.') : c ∉ '.' :: name := by
  rw [List.mem_cons, not_or]
  refine ⟨hdot, fun hmem => ?_⟩
  rw [hname c hmem] at hc
  cases hc

/-- A rule for a class. -/
structure Rule where
  className : String
  declarations : List (String × String)
  deriving DecidableEq

namespace Rule

def body (r : Rule) : String := String.join (r.declarations.map declarationText)

def text (r : Rule) : String := ruleText r.className r.body

/-- A rule that stands for itself: for a class, and with declarations that can stand in it. -/
structure WellFormed (limit : Nat) (r : Rule) : Prop where
  named : r.className ≠ ""
  className : ∀ c ∈ r.className.toList, isClassChar c = true
  declared : r.declarations ≠ []
  declarations : ∀ d ∈ r.declarations, IsDeclaration limit d

/-- A well-formed rule without values that end in white space, as a cut can leave them. -/
structure Settled (limit : Nat) (r : Rule) : Prop extends WellFormed limit r where
  trimmed : ∀ d ∈ r.declarations, IsTrimmed d.2.toList

/-- Holds of rules without values that start with white space. -/
def Led (r : Rule) : Prop := ∀ d ∈ r.declarations, ∀ c ∈ d.2.toList.head?, isBlank c = false

/-- The rule without the white space that its values end in. -/
def trimEnds (r : Rule) : Rule :=
  { r with declarations := r.declarations.map fun d => (d.1, via trimEnd d.2) }

theorem Settled.led {r : Rule} (h : r.Settled limit) : r.Led :=
  fun d hd => (h.trimmed d hd).first

theorem Settled.trimEnds_eq {r : Rule} (h : r.Settled limit) : r.trimEnds = r := by
  have hsame : r.declarations.map (fun d => (d.1, via trimEnd d.2)) = r.declarations := by
    refine (List.map_congr_left fun d hd => ?_).trans (List.map_id r.declarations)
    refine Prod.ext rfl ?_
    rw [via, trimEnd_eq_self (h.trimmed d hd).last, String.ofList_toList]
    rfl
  rw [trimEnds, hsame]

end Rule

/-- Rules one after another. -/
def sheetText (rs : List Rule) : String := String.join (rs.map Rule.text)

theorem sheetText_append (rs more : List Rule) :
    sheetText (rs ++ more) = sheetText rs ++ sheetText more := by
  simp [sheetText]

variable {r : Rule}

theorem Rule.toList_text (r : Rule) :
    r.text.toList = '.' :: r.className.toList ++ '\x7b' :: (r.body.toList ++ ['\x7d']) := by
  simp [text, ruleText]

theorem isEmpty_body {ds : List (String × String)} :
    (String.join (ds.map declarationText)).isEmpty = ds.isEmpty := by
  cases ds with
  | nil => rfl
  | cons d ds => simp [declarationText]

namespace Rule.WellFormed

theorem not_mem_body (h : r.WellFormed limit) {c : Char} (hc : isForbidden c = true)
    (hend : c ≠ ';') : c ∉ r.body.toList :=
  IsDeclared.not_mem_join (fun d hd => (h.declarations d hd).isDeclared) hc hend

theorem hasCommentMark_body (h : r.WellFormed limit) : hasCommentMark r.body.toList = false :=
  IsDeclared.hasCommentMark_join fun d hd => (h.declarations d hd).isDeclared

end Rule.WellFormed

/-- No mark of a comment forms in a sheet, neither in a rule nor between two of them. -/
theorem hasCommentMark_sheetText {rs : List Rule} (h : ∀ r ∈ rs, r.WellFormed limit) :
    hasCommentMark (sheetText rs).toList = false := by
  induction rs with
  | nil => rfl
  | cons r rs ih =>
    rw [List.forall_mem_cons] at h
    have hclass : hasCommentMark ('.' :: r.className.toList) = false :=
      hasCommentMark_of_not_mem (not_mem_dot h.1.className rfl (by decide))
    have hclosed := hasCommentMark_append_cons (c := '\x7d') h.1.hasCommentMark_body (ih h.2)
      (by decide) (by decide)
    have hwhole := hasCommentMark_append_cons (c := '\x7b') hclass hclosed (by decide) (by decide)
    simpa [sheetText, Rule.toList_text] using hwhole

/-! Cleaning a fragment -/

/-- A rule of a fragment that is for a class and of which some declarations are left. -/
def rebuiltRule? (limit : Nat) (part : List Char × List Char) : Option Rule :=
  match classOf? part.1 with
  | none => none
  | some name =>
    let ds := kept limit (bodyDeclarations part.2)
    if ds.isEmpty then none else some ⟨String.ofList name, ds⟩

/-- The rules of a cleaned fragment. -/
def rebuilt (limit : Nat) (fragment : String) : List Rule :=
  (rules fragment.toList).filterMap (rebuiltRule? limit)

theorem rebuildRule_eq (limit : Nat) (part : List Char × List Char) :
    rebuildRule limit part.1 part.2 = ((rebuiltRule? limit part).map Rule.text).getD "" := by
  unfold rebuildRule rebuiltRule?
  cases classOf? part.1 with
  | none => rfl
  | some name =>
    simp only [declarations_eq_join, isEmpty_body]
    split <;> rfl

theorem cleanFragment_eq_sheetText (limit : Nat) (fragment : String) :
    cleanFragment limit fragment = sheetText (rebuilt limit fragment) := by
  have hparts : cleanFragment limit fragment =
      String.join ((rules fragment.toList).map fun part => rebuildRule limit part.1 part.2) := rfl
  rw [hparts, sheetText, rebuilt]
  induction rules fragment.toList with
  | nil => rfl
  | cons part parts ih =>
    rw [List.map_cons, String.join_cons, ih, rebuildRule_eq, List.filterMap_cons]
    cases rebuiltRule? limit part with
    | none => simp
    | some r => simp

theorem wellFormed_of_rebuiltRule? {part : List Char × List Char}
    (h : rebuiltRule? limit part = some r) : r.WellFormed limit := by
  unfold rebuiltRule? at h
  split at h
  · cases h
  · next name hname =>
    simp only at h
    split at h
    · cases h
    · next hsome =>
      obtain rfl := Option.some.inj h
      have hclass := isClassChar_of_classOf? hname
      refine ⟨by simpa using hclass.1, by simpa using hclass.2, by simpa using hsome, ?_⟩
      intro d hd
      refine isDeclaration_of_mem_kept (fun e he => ?_) hd
      obtain ⟨piece, -, hpiece⟩ := List.mem_filterMap.1 he
      obtain ⟨⟨name, value⟩, hsplit, rfl⟩ := Option.map_eq_some_iff.1 hpiece
      rw [kebab, String.toList_ofList, String.toList_ofList]
      exact colon_not_mem_kebabChars (not_mem_of_splitAt? hsplit)

/-- Whatever a fragment holds, what is made of it is well-formed. -/
theorem wellFormed_of_mem_rebuilt {fragment : String} (h : r ∈ rebuilt limit fragment) :
    r.WellFormed limit := by
  obtain ⟨part, -, hpart⟩ := List.mem_filterMap.1 h
  exact wellFormed_of_rebuiltRule? hpart

/-! Cleaning a sheet -/

/-- The next rule of a text goes up to its first closing brace. -/
theorem nextRule?_append {selector body : List Char} (hselector : '\x7b' ∉ selector)
    (hbody : '\x7d' ∉ body) (rest : List Char) :
    nextRule? (selector ++ '\x7b' :: (body ++ '\x7d' :: rest)) = some (selector, body, rest) := by
  simp only [nextRule?, splitAt?_append_cons hselector, splitAt?_append_cons hbody]

theorem rules_of_nextRule? {s selector body rest : List Char}
    (h : nextRule? s = some (selector, body, rest)) : rules s = (selector, body) :: rules rest := by
  rw [rules]
  split
  · next hnone =>
    rw [h] at hnone
    cases hnone
  · next hsome =>
    rw [h] at hsome
    cases hsome
    rfl

/-- A rule as text, by selector and body. -/
def partText (part : List Char × List Char) : List Char :=
  part.1 ++ '\x7b' :: (part.2 ++ ['\x7d'])

/-- A rule in front of a text is read as it is, whatever it is for, if its selector holds no opening
brace and its body no closing one. -/
theorem rules_partText_append {part : List Char × List Char} (hselector : '\x7b' ∉ part.1)
    (hbody : '\x7d' ∉ part.2) (rest : List Char) :
    rules (partText part ++ rest) = part :: rules rest := by
  have hsplit : partText part ++ rest = part.1 ++ '\x7b' :: (part.2 ++ '\x7d' :: rest) := by
    simp [partText]
  rw [hsplit, rules_of_nextRule? (nextRule?_append hselector hbody rest)]

theorem rules_flatMap {parts : List (List Char × List Char)}
    (h : ∀ part ∈ parts, '\x7b' ∉ part.1 ∧ '\x7d' ∉ part.2) :
    rules (parts.flatMap partText) = parts := by
  induction parts with
  | nil =>
    unfold rules
    rfl
  | cons part parts ih =>
    rw [List.forall_mem_cons] at h
    rw [List.flatMap_cons, rules_partText_append h.1.1 h.1.2, ih h.2]

/-- A sheet is read as its rules. -/
theorem rules_sheetText {rs : List Rule} (h : ∀ r ∈ rs, r.WellFormed limit) :
    rules (sheetText rs).toList = rs.map fun r => ('.' :: r.className.toList, r.body.toList) := by
  have hparts : (sheetText rs).toList =
      (rs.map fun r => ('.' :: r.className.toList, r.body.toList)).flatMap partText := by
    rw [sheetText, String.toList_join, List.flatMap_map, List.flatMap_map]
    exact List.flatMap_congr fun r _ => Rule.toList_text r
  rw [hparts]
  refine rules_flatMap fun part hpart => ?_
  obtain ⟨r, hr, rfl⟩ := List.mem_map.1 hpart
  exact ⟨not_mem_dot (h r hr).className rfl (by decide), (h r hr).not_mem_body rfl (by decide)⟩

theorem isBlank_of_isClassChar {c : Char} (h : isClassChar c = true) : isBlank c = false := by
  have hkind : (((c.isUpper || c.isLower) || c.isDigit) || c == '-') || c == '_' := h
  simp only [Bool.or_eq_true, beq_iff_eq] at hkind
  rcases hkind with (((h | h) | h) | rfl) | rfl
  · have hrange := toNat_of_isUpper h
    exact isBlank_of_ascii (by omega) (by omega)
  · have hrange := toNat_of_isLower h
    exact isBlank_of_ascii (by omega) (by omega)
  · have hrange := toNat_of_isDigit h
    exact isBlank_of_ascii (by omega) (by omega)
  · decide
  · decide

/-- A dot and the name of a class are the selector of that class. -/
theorem classOf?_dot {name : List Char} (hsome : name ≠ [])
    (hname : ∀ c ∈ name, isClassChar c = true) : classOf? ('.' :: name) = some name := by
  have hblank : ∀ c ∈ '.' :: name, isBlank c = false := by
    refine List.forall_mem_cons.2 ⟨by decide, fun c hc => ?_⟩
    exact isBlank_of_isClassChar (hname c hc)
  have hall : name.all isClassChar = true := List.all_eq_true.2 hname
  rw [classOf?, (isTrimmed_of_forall hblank).trim_eq]
  simp [hall, hsome]

theorem classOf?_selector (h : r.WellFormed limit) :
    classOf? ('.' :: r.className.toList) = some r.className.toList :=
  classOf?_dot (by simpa using h.named) h.className

/-- Declarations that are declared again keep all but the white space that their values end in. -/
theorem kept_eq_map {ds : List (String × String)} (h : ∀ d ∈ ds, IsDeclaration limit d)
    (hled : ∀ d ∈ ds, ∀ c ∈ d.2.toList.head?, isBlank c = false) :
    kept limit ds = ds.map fun d => (d.1, via trimEnd d.2) := by
  have hmap : ds.map (fun d => (kebab d.1, clean limit d.2)) =
      ds.map fun d => (d.1, via trimEnd d.2) := by
    refine List.map_congr_left fun d hd => Prod.ext (h d hd).property ?_
    have hvalue := (h d hd).value.cleanChars_eq (hled d hd) (h d hd).short
    simp only [clean, via, hvalue]
  rw [kept, hmap, List.filter_eq_self]
  intro e he
  obtain ⟨d, hd, rfl⟩ := List.mem_map.1 he
  have hvalued : d.2.toList ≠ [] := by simpa using (h d hd).valued
  have hleft := trimEnd_ne_nil hvalued (hled d hd)
  simp [(h d hd).named, via, hleft]

theorem rebuiltRule?_parts (h : r.WellFormed limit) (hled : r.Led) :
    rebuiltRule? limit ('.' :: r.className.toList, r.body.toList) = some r.trimEnds := by
  have hread : bodyDeclarations r.body.toList = r.declarations :=
    bodyDeclarations_join h.declarations
  have hsome : r.declarations ≠ [] := h.declared
  rw [rebuiltRule?, classOf?_selector h]
  simp [hread, kept_eq_map h.declarations hled, hsome, Rule.trimEnds]

/-- A sheet that is cleaned loses the white space that its values end in. -/
theorem cleanFragment_sheetText {rs : List Rule} (h : ∀ r ∈ rs, r.WellFormed limit)
    (hled : ∀ r ∈ rs, r.Led) :
    cleanFragment limit (sheetText rs) = sheetText (rs.map Rule.trimEnds) := by
  have hrebuilt : rebuilt limit (sheetText rs) = rs.map Rule.trimEnds := by
    rw [rebuilt, rules_sheetText h, List.filterMap_map, ← List.filterMap_eq_map]
    exact List.filterMap_congr fun r hr => rebuiltRule?_parts (h r hr) (hled r hr)
  rw [cleanFragment_eq_sheetText, hrebuilt]

/-- A sheet of settled rules is clean already. -/
theorem cleanFragment_settled {rs : List Rule} (h : ∀ r ∈ rs, r.Settled limit) :
    cleanFragment limit (sheetText rs) = sheetText rs := by
  have hsame : rs.map Rule.trimEnds = rs :=
    (List.map_congr_left fun r hr => (h r hr).trimEnds_eq).trans (List.map_id rs)
  rw [cleanFragment_sheetText (fun r hr => (h r hr).toWellFormed) (fun r hr => (h r hr).led), hsame]

/-! Scoped styles -/

/-- Holds of declarations that stay whole when they are declared: no property keeps a colon, and no
value is cut. -/
def Whole (limit : Nat) (ds : List (String × String)) : Prop :=
  ∀ d ∈ ds, ':' ∉ (kebab d.1).toList ∧ (cleanedChars d.2.toList).length ≤ limit

/-- The rule that declarations make, if any of them survives. -/
def scopedRule? (limit : Nat) (ds : List (String × String)) : Option Rule :=
  (scope limit ds).map fun style => ⟨style.className, kept limit ds⟩

theorem led_of_mem_kept {ds : List (String × String)} {d : String × String}
    (hd : d ∈ kept limit ds) : ∀ c ∈ d.2.toList.head?, isBlank c = false := by
  obtain ⟨e, he, rfl⟩ := List.mem_map.1 (List.mem_filter.1 hd).1
  have hvalue : (clean limit e.2).toList = cleanChars limit e.2.toList := toList_via _ _
  rw [hvalue]
  exact fun _ hc => isBlank_of_mem_head?_cleanChars hc

/-- A scoped style is a rule of the declarations that are kept. -/
theorem scopedRule?_of_scope {ds : List (String × String)} {style : Scoped}
    (h : scope limit ds = some style) :
    scopedRule? limit ds = some ⟨style.className, kept limit ds⟩ ∧
      style.fragment = (⟨style.className, kept limit ds⟩ : Rule).text := by
  refine ⟨by rw [scopedRule?, h, Option.map_some], ?_⟩
  obtain ⟨-, rfl⟩ := eq_of_scope h
  rw [Scoped.fragment, declarations_eq_join]
  rfl

theorem wellFormed_of_scopedRule? {ds : List (String × String)} {r : Rule}
    (hcolon : ∀ d ∈ ds, ':' ∉ (kebab d.1).toList) (h : scopedRule? limit ds = some r) :
    r.WellFormed limit ∧ r.Led := by
  obtain ⟨style, hstyle, rfl⟩ := Option.map_eq_some_iff.1 h
  obtain ⟨hsome, rfl⟩ := eq_of_scope hstyle
  have hdeclared : kept limit ds ≠ [] := by
    rintro hnone
    rw [declarations_eq_join, hnone] at hsome
    exact hsome rfl
  refine ⟨⟨by simp [scopedClass], isClassChar_of_mem_scopedClass _, hdeclared, ?_⟩, ?_⟩
  · exact fun d hd => isDeclaration_of_mem_kept hcolon hd
  · exact fun d hd => led_of_mem_kept hd

theorem isTrimmed_of_mem_kept {ds : List (String × String)} (h : Whole limit ds)
    {d : String × String} (hd : d ∈ kept limit ds) : IsTrimmed d.2.toList := by
  obtain ⟨e, he, rfl⟩ := List.mem_map.1 (List.mem_filter.1 hd).1
  have hvalue : (clean limit e.2).toList = cleanChars limit e.2.toList := toList_via _ _
  rw [hvalue]
  exact isTrimmed_cleanChars (h e he).2

/-- A scoped style is a settled rule, if its declarations stayed whole. -/
theorem exists_settled_of_scope {ds : List (String × String)} {style : Scoped}
    (hwhole : Whole limit ds) (h : scope limit ds = some style) :
    ∃ r : Rule, r.Settled limit ∧ style.fragment = r.text := by
  obtain ⟨hrule, htext⟩ := scopedRule?_of_scope h
  have hformed := wellFormed_of_scopedRule? (fun d hd => (hwhole d hd).1) hrule
  exact ⟨_, ⟨hformed.1, fun d hd => isTrimmed_of_mem_kept hwhole hd⟩, htext⟩

end Folio.Style
