import Folio.Markup.Minify
import Folio.Page.Envelope
import Folio.Proofs.Client.Clean
import Folio.Proofs.Style.Bare
import Folio.Proofs.Text.Escape

/-! A page as the fragments that its frame writes. A raw element ends at the first closing tag of its
name, so its content must not hold one; no content that the frame writes does. -/
namespace Folio

open Client (IsClean)

/-- The elements whose content is raw text. -/
inductive RawName where
  | style
  | script
  deriving DecidableEq, Repr

namespace RawName

def text : RawName → String
  | .style => "style"
  | .script => "script"

/-- What the closing tag starts with. -/
def closing (name : RawName) : List Char := '<' :: '/' :: name.text.toList

def closeTag (name : RawName) : String := "</" ++ name.text ++ ">"

theorem toList_closeTag (name : RawName) : name.closeTag.toList = name.closing ++ ['>'] := by
  simp [closeTag, closing]

end RawName

/-- A part of a page: a raw element, or markup that is none. -/
inductive Fragment where
  | markup (s : String)
  /-- The attributes are as they stand in the opening tag. -/
  | raw (name : RawName) (attributes content : String)
  deriving DecidableEq, Repr

namespace Fragment

def text : Fragment → String
  | .markup s => s
  | .raw name attributes content =>
    "<" ++ name.text ++ attributes ++ ">" ++ content ++ name.closeTag

/-- Holds of raw elements that begin and end at their own tags: the attributes do not end the opening
tag, the content holds neither the start of a closing tag, in any letter case, nor that of a comment,
and who looks for the end finds the closing tag that was written, whatever follows it. -/
def Sealed : Fragment → Prop
  | .markup _ => True
  | .raw name attributes content =>
    '>' ∉ attributes.toList ∧ ¬ name.closing <:+: content.toList.map Char.toLower ∧
      ¬ "<!--".toList <:+: content.toList ∧
      ∀ rest, Markup.throughElement name.closing 0 (content.toList ++ (name.closeTag.toList ++ rest))
        = (content ++ name.closeTag).length

end Fragment

/-! The end of a raw element -/

namespace Text

theorem isSome_afterAnyCase?_iff {p s : List Char} :
    (afterAnyCase? p s).isSome = true ↔ p <+: s.map Char.toLower := by
  induction p generalizing s with
  | nil => simp [afterAnyCase?]
  | cons c p ih =>
    cases s with
    | nil => simp [afterAnyCase?]
    | cons d s =>
      rw [List.map_cons, List.cons_prefix_cons, afterAnyCase?]
      split
      · next h => simp [h, ih]
      · next h => simp [h]

/-- A pattern that holds its first character once does not start before the second of two texts and
run on into it, if the second starts with that character too. -/
theorem not_prefix_append_cons {a : Char} {p front back : List Char} (hp : a ∉ p)
    (hfront : front ≠ []) (h : ¬ a :: p <:+: front) : ¬ a :: p <+: front ++ a :: back := by
  intro hprefix
  rcases List.prefix_or_prefix_of_prefix hprefix (List.prefix_append ..) with hin | hover
  · exact h hin.isInfix
  · obtain ⟨tail, htail⟩ := hover
    cases tail with
    | nil => exact h ⟨[], [], by simpa using htail.symm⟩
    | cons d tail =>
      rw [← htail, List.prefix_append_right_inj] at hprefix
      obtain rfl := (List.cons_prefix_cons.1 hprefix).1
      obtain ⟨f, front, rfl⟩ := List.exists_cons_of_ne_nil hfront
      have hrest : front ++ d :: tail = p := (List.cons.inj htail).2
      exact hp (hrest ▸ List.mem_append_right _ List.mem_cons_self)

end Text

namespace Markup

theorem throughClose_append {s : List Char} (h : '>' ∉ s) (n : Nat) (rest : List Char) :
    throughClose n (s ++ '>' :: rest) = n + s.length + 1 := by
  induction s generalizing n with
  | nil => simp [throughClose]
  | cons c s ih =>
    rw [List.mem_cons, not_or] at h
    rw [List.cons_append, throughClose, if_neg (Ne.symm h.1), ih h.2, List.length_cons]
    omega

variable {name content : List Char}

/-- The first closing tag after a content without one is where the content ends: one that began
earlier would have a second `<` in it. -/
theorem throughElement_append (hlower : ∀ c ∈ name, c.toLower = c) (hlt : '<' ∉ name)
    (hgt : '>' ∉ name) (h : ¬ '<' :: '/' :: name <:+: content.map Char.toLower) (n : Nat)
    (rest : List Char) :
    throughElement ('<' :: '/' :: name) n (content ++ ('<' :: '/' :: name ++ '>' :: rest)) =
      n + content.length + name.length + 3 := by
  induction content generalizing n with
  | nil =>
    have hfound : (Text.afterAnyCase? ('<' :: '/' :: name)
        ('<' :: '/' :: name ++ '>' :: rest)).isSome = true := by
      have hname : name.map Char.toLower = name :=
        (List.map_congr_left hlower).trans (List.map_id name)
      rw [Text.isSome_afterAnyCase?_iff, List.map_append, List.map_cons, List.map_cons, hname]
      exact List.prefix_append ..
    have hbody : '>' ∉ '<' :: '/' :: name := by simp [hgt]
    rw [List.nil_append, List.cons_append, throughElement, ← List.cons_append, if_pos hfound,
      throughClose_append hbody]
    simp only [List.length_cons, List.length_nil]
    omega
  | cons c content ih =>
    have hnot : ¬ (Text.afterAnyCase? ('<' :: '/' :: name)
        (c :: (content ++ ('<' :: '/' :: name ++ '>' :: rest)))).isSome = true := by
      have hsecond : '<' ∉ '/' :: name := by simp [hlt]
      rw [Text.isSome_afterAnyCase?_iff, ← List.cons_append, List.map_append]
      exact Text.not_prefix_append_cons hsecond (by simp) h
    have hrest : ¬ '<' :: '/' :: name <:+: content.map Char.toLower :=
      fun hin => h (hin.trans (List.suffix_cons ..).isInfix)
    rw [List.cons_append, throughElement, if_neg hnot, ih hrest, List.length_cons]
    omega

end Markup

namespace Fragment

/-- Two facts on the content are enough. -/
theorem sealed_raw {name : RawName} {attributes content : String}
    (hopening : '>' ∉ attributes.toList)
    (hclosing : ¬ name.closing <:+: content.toList.map Char.toLower)
    (hcomment : ¬ "<!--".toList <:+: content.toList) : (raw name attributes content).Sealed := by
  refine ⟨hopening, hclosing, hcomment, fun rest => ?_⟩
  have hlower : ∀ c ∈ name.text.toList, c.toLower = c := by
    cases name <;> simp [RawName.text]
  have hlt : '<' ∉ name.text.toList := by cases name <;> decide
  have hgt : '>' ∉ name.text.toList := by cases name <;> decide
  have hend := Markup.throughElement_append hlower hlt hgt hclosing 0 rest
  have hlength : (content ++ name.closeTag).length =
      0 + content.toList.length + name.text.toList.length + 3 := by
    rw [String.length_append, ← String.length_toList, ← String.length_toList,
      RawName.toList_closeTag, List.length_append]
    simp only [RawName.closing, List.length_cons, List.length_nil]
    omega
  rw [RawName.toList_closeTag, List.append_assoc, hlength]
  exact hend

theorem sealed_script {content : String} (h : IsClean content.toList) :
    (raw .script "" content).Sealed := by
  refine sealed_raw nofun (h "</script" (by decide)) fun hin => ?_
  exact h "<!--" (by decide) (hin.map Char.toLower)

theorem sealed_embed (name : RawName) {attributes : String} (h : '>' ∉ attributes.toList)
    (s : String) : (raw name attributes (Text.embed s)).Sealed := by
  have htext : (Text.embed s).toList = Text.embedChars s.toList := String.toList_ofList
  refine sealed_raw h (fun hin => ?_) ?_
  · have hclosing : ['<', '/'] <:+: (Text.embed s).toList.map Char.toLower :=
      List.IsInfix.trans ⟨[], name.text.toList, rfl⟩ hin
    rw [htext] at hclosing
    exact Text.not_infix_embedChars_closing s.toList
      (Text.infix_of_infix_map_toLower (by simp) hclosing)
  · rw [htext]
    exact Text.not_infix_embedChars_comment s.toList

theorem sealed_of_isBare {name : RawName} {content : String}
    (h : Style.IsBare content.toList) : (raw name "" content).Sealed := by
  have hlt : '<' ∉ content.toList := fun hin => (h '<' hin).1 rfl
  refine sealed_raw nofun (fun hin => ?_) fun hin => hlt (hin.subset (by decide))
  obtain ⟨c, hc, hlower⟩ := List.mem_map.1 (hin.subset List.mem_cons_self)
  exact hlt (Text.eq_of_toLower_eq hlower rfl ▸ hc)

end Fragment

/-! The frame of a page -/

/-- The text of fragments one after another. -/
def Fragment.textOf (fs : List Fragment) : String := String.join (fs.map Fragment.text)

@[simp] theorem Fragment.textOf_nil : textOf [] = "" := rfl

@[simp] theorem Fragment.textOf_cons (f : Fragment) (fs : List Fragment) :
    textOf (f :: fs) = f.text ++ textOf fs := String.join_cons

@[simp] theorem Fragment.textOf_append (fs gs : List Fragment) :
    textOf (fs ++ gs) = textOf fs ++ textOf gs := by
  rw [textOf, List.map_append, String.join_append, textOf, textOf]

theorem Fragment.textOf_flatMap {α : Type} (f : α → List Fragment) (as : List α) :
    textOf (as.flatMap f) = String.join (as.map fun a => textOf (f a)) := by
  induction as with
  | nil => rfl
  | cons a as ih => rw [List.flatMap_cons, textOf_append, ih, List.map_cons, String.join_cons]

open Fragment

/-- The attributes of a script element. -/
def HeadTag.scriptAttributes (src : Option String) (isModule : Bool) : String :=
  (if isModule then " type=\"module\"" else "")
    ++ (match src with
      | some src => attributeText ("src", src)
      | none => "")

theorem HeadTag.not_mem_scriptAttributes (src : Option String) (isModule : Bool) :
    '>' ∉ (scriptAttributes src isModule).toList := by
  have hmodule : '>' ∉ (if isModule then " type=\"module\"" else "").toList := by
    cases isModule <;> decide
  unfold scriptAttributes
  rw [String.toList_append, List.mem_append, not_or]
  refine ⟨hmodule, ?_⟩
  cases src with
  | none => exact nofun
  | some src =>
    have hescaped : '>' ∉ (Text.escape src).toList := by
      rw [Text.toList_escape]
      exact fun h => (Text.ne_of_mem_escapeChars h).2.1 rfl
    simpa [attributeText] using hescaped

def HeadTag.fragments : HeadTag → List Fragment
  | .metaTag attributes => [.markup ("<meta" ++ attributesText attributes ++ ">\n")]
  | .linkTag attributes => [.markup ("<link" ++ attributesText attributes ++ ">\n")]
  | .styleTag css => [.raw .style "" (Text.embed css), .markup "\n"]
  | .scriptTag src body isModule =>
    [.raw .script (scriptAttributes src isModule) (Text.embed (body.getD "")), .markup "\n"]

theorem HeadTag.textOf_fragments (t : HeadTag) : textOf t.fragments = t.html := by
  cases t with
  | metaTag attributes => simp [fragments, html, text]
  | linkTag attributes => simp [fragments, html, text]
  | styleTag css => simp [fragments, html, text, RawName.text, RawName.closeTag, String.append_assoc]
  | scriptTag src body isModule =>
    have hembed : Text.embed "" = "" := rfl
    cases src <;> cases body <;>
      simp [fragments, html, text, scriptAttributes, RawName.text, RawName.closeTag,
        String.append_assoc, hembed]

theorem HeadTag.sealed_fragments (t : HeadTag) : ∀ f ∈ t.fragments, f.Sealed := by
  cases t with
  | metaTag attributes => simp [fragments, Sealed]
  | linkTag attributes => simp [fragments, Sealed]
  | styleTag css =>
    rintro f (_ | ⟨_, _ | ⟨_, ⟨⟩⟩⟩)
    · exact sealed_embed .style (by decide) css
    · trivial
  | scriptTag src body isModule =>
    rintro f (_ | ⟨_, _ | ⟨_, ⟨⟩⟩⟩)
    · exact sealed_embed .script (not_mem_scriptAttributes src isModule) (body.getD "")
    · trivial

/-- The title and the declarations. -/
def Head.fragments (h : Head) : List Fragment :=
  (match h.title with
    | some title => [.markup ("<title>" ++ Text.escape title ++ "</title>\n")]
    | none => []) ++ h.tags.flatMap HeadTag.fragments

theorem Head.textOf_fragments (h : Head) : textOf h.fragments = h.html := by
  have htags : textOf (h.tags.flatMap HeadTag.fragments) = String.join (h.tags.map HeadTag.html) := by
    rw [textOf_flatMap]
    exact congrArg String.join (List.map_congr_left fun t _ => t.textOf_fragments)
  rw [fragments, textOf_append, htags, html]
  cases h.title with
  | none => rfl
  | some title => simp [text]

theorem Head.sealed_fragments (h : Head) : ∀ f ∈ h.fragments, f.Sealed := by
  intro f hf
  rcases List.mem_append.1 hf with hf | hf
  · cases htitle : h.title with
    | none => simp [htitle] at hf
    | some title =>
      obtain rfl : f = .markup _ := by simpa [htitle] using hf
      trivial
  · obtain ⟨t, -, hf⟩ := List.mem_flatMap.1 hf
    exact t.sealed_fragments f hf

namespace PageParts

variable (p : PageParts)

/-- A raw element on a line of its own, unless there is nothing to say. -/
def rawLine (name : RawName) (content : String) (isAbsent : Bool) : List Fragment :=
  if isAbsent then [] else [.raw name "" content, .markup "\n"]

theorem textOf_rawLine (name : RawName) (content : String) (isAbsent : Bool) :
    textOf (rawLine name content isAbsent) =
      if isAbsent then ""
      else "<" ++ name.text ++ ">" ++ content ++ ("</" ++ name.text ++ ">\n") := by
  cases isAbsent <;> simp [rawLine, text, RawName.closeTag, String.append_assoc]

theorem sealed_rawLine {name : RawName} {content : String} (isAbsent : Bool)
    (h : (raw name "" content).Sealed) : ∀ f ∈ rawLine name content isAbsent, f.Sealed := by
  cases isAbsent with
  | true => exact nofun
  | false =>
    rintro f (_ | ⟨_, _ | ⟨_, ⟨⟩⟩⟩)
    · exact h
    · trivial

/-- The page in a language, from its first fragment to the last. -/
def fragments (lang : String) : List Fragment :=
  [.markup "<!DOCTYPE html>\n", .markup "<html lang=\"", .markup (Text.escape lang),
      .markup "\">\n", .markup "<head>\n", .markup "<meta charset=\"UTF-8\">\n",
      .markup "<meta name=\"viewport\" content=\"width=device-width, initial-scale=1.0\">\n"]
    ++ p.head.fragments
    ++ rawLine .style (Text.embed p.head.css) p.head.css.isEmpty
    ++ rawLine .style (String.join p.styles) p.styles.isEmpty
    ++ [.markup "</head>\n", .markup "<body>\n", .markup p.body, .markup "\n"]
    ++ rawLine .script p.script p.script.isEmpty
    ++ [.markup "</body>\n", .markup "</html>"]

theorem textOf_fragments (lang : String) : textOf (p.fragments lang) = p.wrap lang := by
  have hstyles : textOf (rawLine .style (Text.embed p.head.css) p.head.css.isEmpty)
      ++ textOf (rawLine .style (String.join p.styles) p.styles.isEmpty) = p.styleElements := by
    rw [textOf_rawLine, textOf_rawLine]
    rfl
  have hscript : textOf (rawLine .script p.script p.script.isEmpty) = p.scriptElement := by
    rw [textOf_rawLine]
    rfl
  simp only [fragments, wrap, textOf_append, textOf_cons, textOf_nil, Head.textOf_fragments,
    hscript, ← hstyles, text, String.join_cons, String.join_nil, String.append_assoc,
    String.empty_append]

/-- The frame seals every raw element, if the scoped rules are bare and the script is clean. -/
theorem sealed_fragments (hstyles : ∀ rule ∈ p.styles, Style.IsBare rule.toList)
    (hscript : IsClean p.script.toList) (lang : String) :
    ∀ f ∈ p.fragments lang, f.Sealed := by
  have hrules : Style.IsBare (String.join p.styles).toList := Style.isBare_join hstyles
  have hcss := sealed_rawLine p.head.css.isEmpty (sealed_embed .style (by decide) p.head.css)
  have hscoped : ∀ f ∈ rawLine .style (String.join p.styles) p.styles.isEmpty, f.Sealed :=
    sealed_rawLine _ (sealed_of_isBare hrules)
  have hcompiled := sealed_rawLine p.script.isEmpty (sealed_script hscript)
  simp only [fragments, List.forall_mem_append]
  refine ⟨⟨⟨⟨⟨⟨?_, p.head.sealed_fragments⟩, hcss⟩, hscoped⟩, ?_⟩, hcompiled⟩, ?_⟩
  all_goals simp [Sealed]

end PageParts

end Folio
