import Folio.Proofs.Page.Fragments
import Folio.Proofs.Text.KebabForm
import Mathlib.Data.List.Forall2

/-! Markup as the parts it was written from: tags, texts and raw elements. A part is inside a
preserved element from the opening tag of that element to the first closing tag whose name starts
with the name of the element. What may change of a part is the white space of a text outside. -/
namespace Folio.Markup

open Text (isAsciiBlank IsKebab)

/-! White space that shrinks -/

/-- What is left of a run of white space: the run, one space or nothing. -/
inductive Squeezed (run : List Char) : List Char → Prop
  | kept : Squeezed run run
  | space (h : run ≠ []) : Squeezed run [' ']
  | gone : Squeezed run []

/-- A text and what is left of it when runs of white space shrink. -/
inductive Shrunk : List Char → List Char → Prop
  | nil : Shrunk [] []
  | char (c : Char) {s t : List Char} (h : Shrunk s t) : Shrunk (c :: s) (c :: t)
  | run {run rest s t : List Char} (hrun : ∀ c ∈ run, isAsciiBlank c = true)
    (hrest : Squeezed run rest) (h : Shrunk s t) : Shrunk (run ++ s) (rest ++ t)

theorem Squeezed.isAsciiBlank {run rest : List Char} (h : Squeezed run rest)
    (hrun : ∀ c ∈ run, isAsciiBlank c = true) : ∀ c ∈ rest, isAsciiBlank c = true := by
  cases h with
  | kept => exact hrun
  | space _ => exact List.forall_mem_singleton.2 rfl
  | gone => exact List.forall_mem_nil _

/-- A run that goes on: what is left of its first part and what is left of its last character. -/
theorem Squeezed.concat {run rest : List Char} {c : Char} (h : Squeezed (run ++ [c]) rest) :
    ∃ first last, rest = first ++ last ∧ Squeezed run first ∧ Squeezed [c] last := by
  cases h with
  | kept => exact ⟨run, [c], rfl, .kept, .kept⟩
  | gone => exact ⟨[], [], rfl, .gone, .gone⟩
  | space _ =>
    cases run with
    | nil => exact ⟨[], [' '], rfl, .kept, .space (List.cons_ne_nil _ _)⟩
    | cons d run => exact ⟨[' '], [], rfl, .space (List.cons_ne_nil _ _), .gone⟩

/-- The characters that are no white space. -/
def visible (s : List Char) : List Char := s.filter (!isAsciiBlank ·)

@[simp] theorem visible_append (s t : List Char) : visible (s ++ t) = visible s ++ visible t :=
  List.filter_append ..

theorem visible_eq_nil {s : List Char} (h : ∀ c ∈ s, isAsciiBlank c = true) : visible s = [] :=
  List.filter_eq_nil_iff.2 fun c hc => by simp [h c hc]

theorem Shrunk.visible_eq {s t : List Char} (h : Shrunk s t) : visible t = visible s := by
  induction h with
  | nil => rfl
  | @char c s t _ ih =>
    have happend : ∀ u, visible (c :: u) = visible [c] ++ visible u := visible_append [c]
    rw [happend s, happend t, ih]
  | run hrun hrest _ ih =>
    rw [visible_append, visible_append, ih, visible_eq_nil hrun,
      visible_eq_nil (hrest.isAsciiBlank hrun)]

/-! Parts -/

/-- A part of markup. -/
inductive Part where
  | doctype
  | opening (name attributes : String)
  | closing (name : String)
  | text (s : List Char)
  /-- A raw element of the frame of a page. -/
  | raw (name : RawName) (attributes content : String)

/-- The first tag of every page. -/
def doctypeTag : String := "<!DOCTYPE html>"

namespace Part

def chars : Part → List Char
  | .doctype => doctypeTag.toList
  | .opening name attributes => '<' :: (name.toList ++ (attributes.toList ++ ['>']))
  | .closing name => '<' :: ('/' :: (name.toList ++ ['>']))
  | .text s => s
  | .raw name attributes content => (Fragment.raw name attributes content).text.toList

/-- The preserved element that one is inside after a part. -/
def after (inside : Option String) : Part → Option String
  | .opening name _ => inside.or (if preservedNames.contains name.toList then some name else none)
  | .closing name => inside.filter fun block => !block.toList.isPrefixOf name.toList
  | .doctype | .text _ | .raw _ _ _ => inside

theorem after_opening (name attributes : String) : after none (.opening name attributes) =
    if name.toList ∈ preservedNames then some name else none := by
  rw [after, Option.none_or]
  simp only [List.contains_iff_mem]

theorem after_closing (block name : String) : after (some block) (.closing name) =
    if block.toList.isPrefixOf name.toList then none else some block := by
  rw [after, Option.filter_some]
  cases block.toList.isPrefixOf name.toList <;> rfl

/-- A part as it comes out: only a text can have changed, in white space. -/
inductive Keeps : Part → Part → Prop
  | same (p : Part) : Keeps p p
  | text {s t : List Char} (h : Shrunk s t) : Keeps (.text s) (.text t)

theorem Keeps.visible_eq {p q : Part} (h : Keeps p q) : visible q.chars = visible p.chars := by
  cases h with
  | same => rfl
  | text h => exact h.visible_eq

end Part

/-- The markup of parts. -/
def charsOf (ps : List Part) : List Char := ps.flatMap Part.chars

@[simp] theorem charsOf_nil : charsOf [] = [] := rfl

@[simp] theorem charsOf_cons (p : Part) (ps : List Part) :
    charsOf (p :: ps) = p.chars ++ charsOf ps := List.flatMap_cons

@[simp] theorem charsOf_append (ps qs : List Part) :
    charsOf (ps ++ qs) = charsOf ps ++ charsOf qs := List.flatMap_append

/-- The preserved element that one is inside after parts. -/
def afterAll (inside : Option String) (ps : List Part) : Option String := ps.foldl Part.after inside

/-- Parts as they come out, from inside a preserved element on or from outside: only texts outside
can have changed. -/
inductive Kept : Option String → List Part → List Part → Prop
  | nil (inside : Option String) : Kept inside [] []
  | same {inside : Option String} (p : Part) {ps qs : List Part} (h : Kept (p.after inside) ps qs) :
    Kept inside (p :: ps) (p :: qs)
  | text {s t : List Char} {ps qs : List Part} (hs : Shrunk s t) (h : Kept none ps qs) :
    Kept none (.text s :: ps) (.text t :: qs)

theorem afterAll_append (inside : Option String) (ps qs : List Part) :
    afterAll inside (ps ++ qs) = afterAll (afterAll inside ps) qs := List.foldl_append

variable {inside : Option String} {ps qs rs : List Part}

theorem Kept.refl (inside : Option String) (ps : List Part) : Kept inside ps ps := by
  induction ps generalizing inside with
  | nil => exact .nil inside
  | cons p ps ih => exact .same p (ih _)

theorem Kept.keeps (h : Kept inside ps qs) : List.Forall₂ Part.Keeps ps qs := by
  induction h with
  | nil inside => exact .nil
  | same p _ ih => exact .cons (.same p) ih
  | text hs _ ih => exact .cons (.text hs) ih

theorem visible_charsOf (h : List.Forall₂ Part.Keeps ps qs) :
    visible (charsOf qs) = visible (charsOf ps) := by
  induction h with
  | nil => rfl
  | cons hp _ ih => rw [charsOf_cons, charsOf_cons, visible_append, visible_append, hp.visible_eq, ih]

theorem Kept.of_cons {p : Part} (h : Kept inside (p :: ps) rs) (hp : ∀ s, p ≠ .text s) :
    ∃ qs, rs = p :: qs ∧ Kept (p.after inside) ps qs := by
  cases h with
  | same p h => exact ⟨_, rfl, h⟩
  | text hs h => exact (hp _ rfl).elim

theorem Kept.of_nil (h : Kept inside [] rs) : rs = [] := by
  cases h
  rfl

/-- What became of parts in front and of the parts that follow. -/
theorem Kept.of_append (h : Kept inside (ps ++ qs) rs) :
    ∃ us vs, rs = us ++ vs ∧ Kept inside ps us ∧ Kept (afterAll inside ps) qs vs := by
  induction ps generalizing inside rs with
  | nil => exact ⟨[], rs, rfl, .nil inside, h⟩
  | cons p ps ih =>
    cases h with
    | same p h =>
      obtain ⟨us, vs, rfl, hus, hvs⟩ := ih h
      exact ⟨p :: us, vs, rfl, .same p hus, hvs⟩
    | text hs h =>
      obtain ⟨us, vs, rfl, hus, hvs⟩ := ih h
      exact ⟨_ :: us, vs, rfl, .text hs hus, hvs⟩

/-- No closing tag among the parts ends the preserved element. -/
def Stays (block : String) (ps : List Part) : Prop :=
  ∀ name, .closing name ∈ ps → ¬ block.toList <+: name.toList

/-- Inside a preserved element that does not end, nothing changes. -/
theorem Kept.eq_of_stays {block : String} (hps : Stays block ps) (h : Kept (some block) ps qs) :
    qs = ps ∧ afterAll (some block) ps = some block := by
  induction ps generalizing qs with
  | nil =>
    cases h
    exact ⟨rfl, rfl⟩
  | cons p ps ih =>
    have hrest : Stays block ps := fun name hname => hps name (List.mem_cons_of_mem _ hname)
    cases h with
    | same _ h =>
      have hp : p.after (some block) = some block := by
        cases p with
        | closing name =>
          have hname : block.toList.isPrefixOf name.toList = false :=
            Bool.eq_false_iff.2 fun h => hps name List.mem_cons_self (List.isPrefixOf_iff_prefix.1 h)
          rw [Part.after_closing, hname, if_neg Bool.false_ne_true]
        | doctype | opening | text | raw => rfl
      rw [hp] at h
      obtain ⟨rfl, hafter⟩ := ih hrest h
      exact ⟨rfl, by rw [afterAll, List.foldl_cons, hp, ← afterAll, hafter]⟩

/-! Parts as renderers write them -/

/-- Attributes as they are written into a tag. -/
inductive IsAttributes : List Char → Prop
  | nil : IsAttributes []
  | cons {name value rest : List Char} (hname : IsKebab name)
    (hvalue : ∀ c ∈ value, c ≠ '<' ∧ c ≠ '"') (h : IsAttributes rest) :
    IsAttributes (' ' :: (name ++ '=' :: '"' :: (value ++ '"' :: rest)))

/-- Whether a tag or comment may start with a `<` before this character. -/
def startsTag (c : Char) : Bool := c.isAlpha || c == '/' || c == '!'

/-- Holds of texts in which no tag starts. -/
inductive TagFree : List Char → Prop
  | nil : TagFree []
  | char {c : Char} {s : List Char} (hc : c ≠ '<') (h : TagFree s) : TagFree (c :: s)
  | stray {d : Char} {s : List Char} (hd : startsTag d = false) (h : TagFree (d :: s)) :
    TagFree ('<' :: d :: s)

/-- Holds of parts that are what they seem to be. Raw elements of a page stand outside of preserved
elements. -/
def Part.Sound (inside : Option String) : Part → Prop
  | .doctype => True
  | .opening name attributes => Tag.isName name.toList = true ∧ IsAttributes attributes.toList
  | .closing name => name = "" ∨ Tag.isName name.toList = true
  | .text s => TagFree s
  | .raw name attributes content =>
    inside = none ∧ IsAttributes attributes.toList ∧ (Fragment.raw name attributes content).Sealed

/-- Holds of sequences of sound parts. -/
def Sound : Option String → List Part → Prop
  | _, [] => True
  | inside, p :: ps => p.Sound inside ∧ Sound (p.after inside) ps

theorem sound_append : Sound inside (ps ++ qs) ↔ Sound inside ps ∧ Sound (afterAll inside ps) qs := by
  induction ps generalizing inside with
  | nil => simp [Sound, afterAll]
  | cons p ps ih => simp only [List.cons_append, Sound, ih, afterAll, List.foldl_cons, and_assoc]

/-- Holds of sound parts before and after which one is outside of preserved elements. -/
structure Balanced (ps : List Part) : Prop where
  sound : Sound none ps
  outside : afterAll none ps = none

theorem balanced_nil : Balanced [] := ⟨trivial, rfl⟩

theorem Balanced.append (hps : Balanced ps) (hqs : Balanced qs) : Balanced (ps ++ qs) where
  sound := sound_append.2 ⟨hps.sound, hps.outside.symm ▸ hqs.sound⟩
  outside := by rw [afterAll_append, hps.outside, hqs.outside]

theorem balanced_flatMap {α : Type} {f : α → List Part} {as : List α} (h : ∀ a ∈ as, Balanced (f a)) :
    Balanced (as.flatMap f) := by
  induction as with
  | nil => exact balanced_nil
  | cons a as ih =>
    rw [List.forall_mem_cons] at h
    rw [List.flatMap_cons]
    exact h.1.append (ih h.2)

end Folio.Markup
