import Folio.Proofs.Markup.Scanning
import Folio.Proofs.Page.Rendered
import Folio.Proofs.Page.RoundTrip

/-! The markup of a tree as parts. The parts of proper children are sound wherever they stand, and
who is outside of preserved elements in front of them is outside again after them: each preserved
element ends at its own closing tag at the latest. -/
namespace Folio

open Markup (Part charsOf Sound Stays Kept afterAll preservedNames IsAttributes TagFree)

/-! Tags -/

theorem Markup.isAttributes_append {a : String × String} {s : List Char}
    (hname : Text.IsKebab a.1.toList) (h : IsAttributes s) :
    IsAttributes ((attributeText a).toList ++ s) := by
  have hvalue : ∀ c ∈ Text.escapeChars a.2.toList, c ≠ '<' ∧ c ≠ '"' := fun c hc =>
    ⟨(Text.ne_of_mem_escapeChars hc).1, (Text.ne_of_mem_escapeChars hc).2.2.1⟩
  have hcons := IsAttributes.cons hname hvalue h
  rw [toList_attributeText]
  simpa using hcons

theorem Markup.isAttributes_attributesText {attributes : Ordered String String}
    (h : ∀ name ∈ attributes.keys, Text.IsKebab name.toList) :
    IsAttributes (attributesText attributes).toList := by
  rw [toList_attributesText]
  have hentries : ∀ a ∈ attributes.entries, Text.IsKebab a.1.toList := fun a ha =>
    h a.1 (List.mem_map_of_mem ha)
  generalize attributes.entries = as at hentries
  induction as with
  | nil => exact .nil
  | cons a as ih =>
    rw [List.forall_mem_cons] at hentries
    exact Markup.isAttributes_append hentries.1 (ih hentries.2)

theorem Markup.tagFree_of_not_mem {s : List Char} (h : '<' ∉ s) : TagFree s := by
  induction s with
  | nil => exact .nil
  | cons c s ih =>
    rw [List.mem_cons, not_or] at h
    exact .char (Ne.symm h.1) (ih h.2)

namespace Element

variable {e : Element}

/-- The opening tag. A cleared node has no name, and what is written for it opens no tag. -/
def openPart (e : Element) : Part :=
  if e.tag = "" then .text e.openTag.toList else .opening e.tag (attributesText e.attributes)

theorem chars_openPart (e : Element) : e.openPart.chars = e.openTag.toList := by
  unfold openPart
  split
  · rfl
  · simp [Part.chars, openTag]

theorem openPart_ne_closing (e : Element) (name : String) : e.openPart ≠ .closing name := by
  unfold openPart
  split <;> exact nofun

theorem Named.sound_openPart (h : e.Named) (inside : Option String) :
    e.openPart.Sound inside := by
  have hattributes := Markup.isAttributes_attributesText h.attributes
  unfold openPart
  split
  · next htag =>
    have hopen : e.openTag.toList = '<' :: ((attributesText e.attributes).toList ++ ['>']) := by
      simp [openTag, htag]
    have hfree : '<' ∉ (attributesText e.attributes).toList ++ ['>'] := by
      simp [hattributes.not_mem]
    rw [Part.Sound, hopen]
    rcases hattributes.cases_head with hnil | ⟨t, ht⟩
    · rw [hnil]
      exact .stray rfl (Markup.tagFree_of_not_mem (by decide))
    · rw [ht] at hfree ⊢
      exact .stray rfl (Markup.tagFree_of_not_mem hfree)
  · next htag => exact ⟨h.tag.resolve_left htag, hattributes⟩

theorem after_openPart_none (e : Element) :
    e.openPart.after none = none ∨
      (e.tag.toList ∈ preservedNames ∧ e.openPart.after none = some e.tag) := by
  unfold openPart
  split
  · exact .inl rfl
  · rw [Part.after_opening]
    split
    · next hname => exact .inr ⟨hname, rfl⟩
    · exact .inl rfl

theorem after_openPart_some (e : Element) (block : String) :
    e.openPart.after (some block) = some block := by
  unfold openPart
  split <;> rfl

theorem after_openPart_cases (e : Element) (inside : Option String) :
    e.openPart.after inside = inside ∨ e.openPart.after inside = some e.tag := by
  cases inside with
  | none => exact e.after_openPart_none.imp_right And.right
  | some block => exact .inl (e.after_openPart_some block)

theorem openPart_of_preserved {e : Element} (h : e.tag.toList ∈ preservedNames) :
    e.openPart = .opening e.tag (attributesText e.attributes) := by
  refine if_neg fun htag => ?_
  rw [htag] at h
  exact absurd h (by decide)

end Element

/-! Trees -/

namespace Child

mutual

/-- The parts that a child is written as. Trusted markup counts as a text. -/
def written : Child → List Part
  | .text s => [.text (Text.escapeChars s.toList)]
  | .markup s => [.text s.toList]
  | .element e children =>
    e.openPart :: if Tag.isVoid e.tag then [] else writtenAll children ++ [.closing e.tag]

def writtenAll : List Child → List Part
  | [] => []
  | c :: cs => c.written ++ writtenAll cs

end

theorem writtenAll_append (cs ds : List Child) :
    writtenAll (cs ++ ds) = writtenAll cs ++ writtenAll ds := by
  induction cs with
  | nil => rfl
  | cons c cs ih => rw [List.cons_append, writtenAll, ih, writtenAll, List.append_assoc]

mutual

theorem charsOf_written (c : Child) : charsOf c.written = (c.write "").toList := by
  match c with
  | .text s => simp [written, write, Part.chars, Text.toList_escape]
  | .markup s => simp [written, write, Part.chars]
  | .element e children =>
    rw [written, write, Markup.charsOf_cons, e.chars_openPart]
    split
    · simp
    · rw [Markup.charsOf_append, charsOf_writtenAll children,
        writeAll_eq ("" ++ e.openTag)]
      simp [Part.chars, Element.closeTag]

theorem charsOf_writtenAll (cs : List Child) : charsOf (writtenAll cs) = (writeAll "" cs).toList := by
  match cs with
  | [] => rfl
  | c :: cs =>
    rw [writtenAll, Markup.charsOf_append, charsOf_written c, charsOf_writtenAll cs, writeAll,
      writeAll_eq (c.write ""), String.toList_append]

end

mutual

/-- Closing tags are those of elements that a rendering comes to. -/
theorem mem_entered_of_closing {name : String} {c : Child} (h : .closing name ∈ c.written) :
    ∃ e ∈ c.entered, e.tag = name := by
  match c with
  | .text s | .markup s => simp [written] at h
  | .element e children =>
    rw [written, List.mem_cons] at h
    rcases h with h | h
    · exact (e.openPart_ne_closing name h.symm).elim
    · rw [entered]
      split at h
      · cases h
      · next hvoid =>
        rw [if_neg hvoid]
        rcases List.mem_append.1 h with h | h
        · obtain ⟨f, hf, hname⟩ := mem_enteredAll_of_closing h
          exact ⟨f, List.mem_cons_of_mem _ hf, hname⟩
        · obtain ⟨rfl⟩ := List.mem_singleton.1 h
          exact ⟨e, List.mem_cons_self, rfl⟩

theorem mem_enteredAll_of_closing {name : String} {cs : List Child}
    (h : .closing name ∈ writtenAll cs) : ∃ e ∈ enteredAll cs, e.tag = name := by
  match cs with
  | [] => cases h
  | c :: cs =>
    rw [enteredAll]
    rcases List.mem_append.1 h with h | h
    · obtain ⟨e, he, hname⟩ := mem_entered_of_closing h
      exact ⟨e, List.mem_append_left _ he, hname⟩
    · obtain ⟨e, he, hname⟩ := mem_enteredAll_of_closing h
      exact ⟨e, List.mem_append_right _ he, hname⟩

end

variable {cs : List Child}

/-- The parts of proper children are sound, inside of preserved elements and outside. -/
theorem Proper.sound (h : Proper cs) (inside : Option String) : Sound inside (writtenAll cs) := by
  induction h generalizing inside with
  | nil => trivial
  | text s _ ih =>
    have hlt : '<' ∉ Text.escapeChars s.toList := fun hmem =>
      (Text.ne_of_mem_escapeChars hmem).1 rfl
    exact ⟨Markup.tagFree_of_not_mem hlt, ih _⟩
  | @element e children cs he _ _ ihchildren ih =>
    rw [writtenAll, Markup.sound_append, written]
    refine ⟨⟨he.sound_openPart inside, ?_⟩, ih _⟩
    split
    · trivial
    · exact Markup.sound_append.2 ⟨ihchildren _, he.tag, trivial⟩

theorem not_mem_preservedNames_of_isVoid {tag : String} (h : Tag.isVoid tag = true) :
    tag.toList ∉ preservedNames := by
  have hall : ∀ name ∈ Tag.voidNames, name.toList ∉ preservedNames := by decide
  exact hall tag (of_decide_eq_true h)

theorem after_closing_cases (inside : Option String) (name : String) :
    (Part.closing name).after inside = inside ∨ (Part.closing name).after inside = none := by
  cases inside with
  | none => exact .inl rfl
  | some block =>
    rw [Part.after_closing]
    split
    · exact .inr rfl
    · exact .inl rfl

theorem after_own_closing (tag : String) : (Part.closing tag).after (some tag) = none := by
  have hself : tag.toList.isPrefixOf tag.toList = true :=
    List.isPrefixOf_iff_prefix.2 (List.prefix_refl _)
  rw [Part.after_closing, if_pos hself]

mutual

/-- After a child one is where one was before, or outside: a preserved element that its opening tag
starts ends at its own closing tag at the latest. -/
theorem afterAll_written (c : Child) (inside : Option String) :
    afterAll inside c.written = inside ∨ afterAll inside c.written = none := by
  match c with
  | .text s | .markup s => exact .inl rfl
  | .element e children =>
    rw [written]
    cases hvoid : Tag.isVoid e.tag with
    | true =>
      rw [if_pos rfl]
      cases inside with
      | some block => exact .inl (e.after_openPart_some block)
      | none =>
        have hname := not_mem_preservedNames_of_isVoid hvoid
        exact .inl (e.after_openPart_none.resolve_right fun h => hname h.1)
    | false =>
      have hparts : afterAll inside (e.openPart :: (writtenAll children ++ [.closing e.tag])) =
          (Part.closing e.tag).after
            (afterAll (e.openPart.after inside) (writtenAll children)) := by
        simp [afterAll]
      rw [if_neg Bool.false_ne_true, hparts]
      cases inside with
      | some block =>
        rw [e.after_openPart_some]
        rcases afterAll_writtenAll children (some block) with h | h
        · rw [h]
          exact after_closing_cases _ _
        · rw [h]
          exact .inr rfl
      | none =>
        refine .inl ?_
        rcases e.after_openPart_none with hopen | ⟨-, hopen⟩
        · rw [hopen]
          rcases afterAll_writtenAll children none with h | h <;> rw [h] <;> rfl
        · rw [hopen]
          rcases afterAll_writtenAll children (some e.tag) with h | h
          · rw [h, after_own_closing]
          · rw [h]
            rfl

theorem afterAll_writtenAll (cs : List Child) (inside : Option String) :
    afterAll inside (writtenAll cs) = inside ∨ afterAll inside (writtenAll cs) = none := by
  match cs with
  | [] => exact .inl rfl
  | c :: cs =>
    rw [writtenAll, Markup.afterAll_append]
    rcases afterAll_written c inside with h | h
    · rw [h]
      exact afterAll_writtenAll cs inside
    · rw [h]
      exact .inr ((afterAll_writtenAll cs none).elim id id)

end

/-! An element in its place -/

/-- A rendering comes to an element with these children; `above` are the tags of the elements around
it, the outermost first. -/
inductive Renders : List Child → List String → Element → List Child → Prop
  | here {cs : List Child} {e : Element} {children : List Child} (h : .element e children ∈ cs) :
    Renders cs [] e children
  | within {cs inner children : List Child} {f e : Element} {above : List String}
    (h : .element f inner ∈ cs) (hf : Tag.isVoid f.tag = false)
    (hin : Renders inner above e children) : Renders cs (f.tag :: above) e children

/-- The parts of an element that is rendered stand among the parts of the tree, and what one is inside
in front of them is an element around it, if one was outside before. -/
theorem Renders.exists_parts {above : List String} {e : Element} {children : List Child}
    (h : Renders cs above e children) (inside : Option String) :
    ∃ front back, writtenAll cs = front ++ ((Child.element e children).written ++ back) ∧
      (afterAll inside front = inside ∨ afterAll inside front = none ∨
        ∃ tag ∈ above, afterAll inside front = some tag) := by
  induction h generalizing inside with
  | here h =>
    obtain ⟨before, after, rfl⟩ := List.append_of_mem h
    refine ⟨writtenAll before, writtenAll after, ?_, ?_⟩
    · rw [writtenAll_append, writtenAll]
    · exact (afterAll_writtenAll before inside).imp_right .inl
  | @within cs inner children f e above h hf _ ih =>
    obtain ⟨before, after, rfl⟩ := List.append_of_mem h
    obtain ⟨front, back, hparts, hinside⟩ :=
      ih (f.openPart.after (afterAll inside (writtenAll before)))
    refine ⟨writtenAll before ++ f.openPart :: front,
      back ++ .closing f.tag :: writtenAll after, ?_, ?_⟩
    · rw [writtenAll_append, writtenAll, written, hf, if_neg Bool.false_ne_true, hparts]
      simp
    · rw [Markup.afterAll_append, afterAll, List.foldl_cons, ← afterAll]
      rcases hinside with hsame | hnone | ⟨tag, htag, hsome⟩
      · rw [hsame]
        rcases f.after_openPart_cases (afterAll inside (writtenAll before)) with hopen | hopen
        · rw [hopen]
          exact (afterAll_writtenAll before inside).imp_right .inl
        · exact .inr (.inr ⟨f.tag, List.mem_cons_self, hopen⟩)
      · exact .inr (.inl hnone)
      · exact .inr (.inr ⟨tag, List.mem_cons_of_mem _ htag, hsome⟩)

/-- What becomes of the parts of a preserved element when no element below it is taken for the end of
this element or of one around it. -/
theorem eq_of_kept {e : Element} {children : List Child} {inside : Option String} {qs : List Part}
    (he : e.tag.toList ∈ preservedNames) (hown : Stays e.tag (writtenAll children))
    (hinside : ∀ block ∈ inside, Stays block (writtenAll children))
    (h : Kept inside (Child.element e children).written qs) :
    qs = (Child.element e children).written := by
  have hvoid : Tag.isVoid e.tag = false :=
    Bool.eq_false_iff.2 fun hvoid => not_mem_preservedNames_of_isVoid hvoid he
  rw [written, hvoid, if_neg Bool.false_ne_true, e.openPart_of_preserved he] at h ⊢
  -- inside or outside before, one is inside after the opening tag
  have hblock : ∃ block, (Part.opening e.tag (attributesText e.attributes)).after inside =
      some block ∧ Stays block (writtenAll children) := by
    cases inside with
    | none => exact ⟨e.tag, (Part.after_opening _ _).trans (if_pos he), hown⟩
    | some block => exact ⟨block, rfl, hinside block rfl⟩
  obtain ⟨block, hafter, hstays⟩ := hblock
  obtain ⟨rs, rfl, hrest⟩ := h.of_cons nofun
  rw [hafter] at hrest
  obtain ⟨us, vs, rfl, hus, hvs⟩ := hrest.of_append
  obtain ⟨rfl, -⟩ := hus.eq_of_stays hstays
  obtain ⟨ws, rfl, hws⟩ := hvs.of_cons nofun
  rw [hws.of_nil]

end Child

end Folio
