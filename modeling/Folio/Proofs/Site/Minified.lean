import Folio.Proofs.Page.Written
import Folio.Proofs.Site.HeadLines

/-! Minified pages of documents that authors write: the parts of the page are all there, and only
texts outside of preserved elements can have lost white space. -/
namespace Folio

open Markup (Part charsOf Balanced IsAttributes preservedNames visible)

/-! The frame of a page -/

/-- A part and the end of its line. -/
def Markup.Part.line (p : Part) : List Part := [p, .text ['\n']]

theorem Markup.charsOf_line (p : Part) : charsOf p.line = p.chars ++ ['\n'] := by
  simp [Part.line, Part.chars]

theorem Markup.balanced_line {p : Part} (hsound : p.Sound none) (hout : p.after none = none) :
    Balanced p.line :=
  ⟨⟨hsound, tagFree_of_not_mem (by decide), trivial⟩, hout⟩

theorem Markup.balanced_opening {name attributes : String} (hname : Tag.isName name.toList = true)
    (hplain : name.toList ∉ preservedNames) (h : IsAttributes attributes.toList) :
    Balanced (Part.opening name attributes).line :=
  balanced_line ⟨hname, h⟩ ((Part.after_opening _ _).trans (if_neg hplain))

theorem Markup.balanced_closing {name : String} (hname : Tag.isName name.toList = true) :
    Balanced (Part.closing name).line :=
  balanced_line (.inr hname) rfl

namespace HeadTag

/-- The parts of a declaration. -/
def written : HeadTag → List Part
  | .metaTag attributes => (Part.opening "meta" (attributesText attributes)).line
  | .linkTag attributes => (Part.opening "link" (attributesText attributes)).line
  | .styleTag css => (Part.raw .style "" (Text.embed css)).line
  | .scriptTag src body isModule =>
    (Part.raw .script (scriptAttributes src isModule) (Text.embed (body.getD ""))).line

theorem charsOf_written (t : HeadTag) : charsOf t.written = t.html.toList := by
  cases t with
  | metaTag attributes | linkTag attributes =>
    simp [written, html, Markup.charsOf_line, Part.chars]
  | styleTag css | scriptTag src body isModule =>
    rw [← textOf_fragments]
    simp [written, fragments, Markup.charsOf_line, Part.chars, Fragment.text]

theorem isAttributes_scriptAttributes (src : Option String) (isModule : Bool) :
    IsAttributes (scriptAttributes src isModule).toList := by
  have hsrc : Text.IsKebab "src".toList := by decide
  have htype : Text.IsKebab "type".toList := by decide
  have htext : attributeText ("type", "module") = " type=\"module\"" := by decide
  cases src with
  | none =>
    cases isModule with
    | false => exact .nil
    | true =>
      have hmodule := Markup.isAttributes_append (a := ("type", "module")) htype .nil
      simpa [scriptAttributes, htext] using hmodule
  | some src =>
    have hvalue := Markup.isAttributes_append (a := ("src", src)) hsrc .nil
    cases isModule with
    | false => simpa [scriptAttributes] using hvalue
    | true =>
      have hmodule := Markup.isAttributes_append (a := ("type", "module")) htype hvalue
      simpa [scriptAttributes, htext] using hmodule

theorem balanced_written {t : HeadTag}
    (h : ∀ e ∈ t.element?, ∀ name ∈ e.attributes.keys, Text.IsKebab name.toList) :
    Balanced t.written := by
  have hsealed := t.sealed_fragments
  cases t with
  | metaTag attributes | linkTag attributes =>
    have hattributes := Markup.isAttributes_attributesText (h _ rfl)
    exact Markup.balanced_opening (by decide) (by decide) hattributes
  | styleTag css => exact Markup.balanced_line ⟨rfl, .nil, hsealed _ List.mem_cons_self⟩ rfl
  | scriptTag src body isModule =>
    have hattributes := isAttributes_scriptAttributes src isModule
    exact Markup.balanced_line ⟨rfl, hattributes, hsealed _ List.mem_cons_self⟩ rfl

end HeadTag

namespace Head

/-- The parts of a title and of the declarations. -/
def written (h : Head) : List Part :=
  (match h.title with
    | some title =>
      .opening "title" "" :: .text (Text.escapeChars title.toList) :: (Part.closing "title").line
    | none => []) ++ h.tags.flatMap HeadTag.written

theorem charsOf_written (h : Head) : charsOf h.written = h.html.toList := by
  have htags : charsOf (h.tags.flatMap HeadTag.written) =
      (String.join (h.tags.map HeadTag.html)).toList := by
    induction h.tags with
    | nil => rfl
    | cons t ts ih =>
      rw [List.flatMap_cons, Markup.charsOf_append, ih, t.charsOf_written]
      simp
  rw [written, Markup.charsOf_append, htags, html]
  cases h.title with
  | none => simp
  | some title => simp [Markup.charsOf_line, Part.chars, Text.toList_escape]

theorem Named.balanced_written {h : Head} (hh : h.Named) : Balanced h.written := by
  have htags : Balanced (h.tags.flatMap HeadTag.written) :=
    Markup.balanced_flatMap fun t ht => HeadTag.balanced_written (hh t ht)
  rw [written]
  refine Balanced.append ?_ htags
  cases h.title with
  | none => exact Markup.balanced_nil
  | some title =>
    have hlt : '<' ∉ Text.escapeChars title.toList := fun hmem =>
      (Text.ne_of_mem_escapeChars hmem).1 rfl
    have hclosing : Balanced (Part.closing "title").line := Markup.balanced_closing (by decide)
    have hplain : "title".toList ∉ preservedNames := by decide
    have hafter : (Part.opening "title" "").after none = none := by
      rw [Part.after_opening, if_neg hplain]
    refine ⟨⟨⟨by decide, .nil⟩, ?_⟩, ?_⟩
    · rw [hafter]
      exact ⟨Markup.tagFree_of_not_mem hlt, hclosing.sound⟩
    · rw [Markup.afterAll, List.foldl_cons, hafter]
      exact hclosing.outside

end Head

namespace PageParts

variable (p : PageParts)

/-- The parts of a raw element on a line of its own, unless there is nothing to say. -/
def rawParts (name : RawName) (content : String) (isAbsent : Bool) : List Part :=
  if isAbsent then [] else (Part.raw name "" content).line

theorem charsOf_rawParts (name : RawName) (content : String) (isAbsent : Bool) :
    charsOf (rawParts name content isAbsent) =
      (Fragment.textOf (rawLine name content isAbsent)).toList := by
  cases isAbsent <;> simp [rawParts, rawLine, Markup.charsOf_line, Part.chars, Fragment.text]

theorem balanced_rawParts {name : RawName} {content : String} (isAbsent : Bool)
    (h : (Fragment.raw name "" content).Sealed) : Balanced (rawParts name content isAbsent) := by
  cases isAbsent with
  | true => exact Markup.balanced_nil
  | false => exact Markup.balanced_line ⟨rfl, .nil, h⟩ rfl

/-- The parts of a page in front of the body. -/
def frontParts (lang : String) : List Part :=
  Part.doctype.line ++ (Part.opening "html" (attributeText ("lang", lang))).line
    ++ (Part.opening "head" "").line
    ++ (Part.opening "meta" (attributeText ("charset", "UTF-8"))).line
    ++ (Part.opening "meta" (attributeText ("name", "viewport") ++
        attributeText ("content", "width=device-width, initial-scale=1.0"))).line
    ++ p.head.written
    ++ rawParts .style (Text.embed p.head.css) p.head.css.isEmpty
    ++ rawParts .style (String.join p.styles) p.styles.isEmpty
    ++ (Part.closing "head").line ++ (Part.opening "body" "").line

/-- The parts of a page after the body. -/
def backParts : List Part :=
  .text ['\n'] :: (rawParts .script p.script p.script.isEmpty
    ++ (Part.closing "body").line ++ [.closing "html"])

theorem toList_wrap (lang : String) :
    (p.wrap lang).toList = charsOf (p.frontParts lang) ++ (p.body.toList ++ charsOf p.backParts) := by
  have hstyles : charsOf (rawParts .style (Text.embed p.head.css) p.head.css.isEmpty)
      ++ charsOf (rawParts .style (String.join p.styles) p.styles.isEmpty) =
        p.styleElements.toList := by
    rw [charsOf_rawParts, charsOf_rawParts, textOf_rawLine, textOf_rawLine, ← String.toList_append]
    rfl
  have hscript : charsOf (rawParts .script p.script p.script.isEmpty) = p.scriptElement.toList := by
    rw [charsOf_rawParts, textOf_rawLine]
    rfl
  have hcharset : attributeText ("charset", "UTF-8") = " charset=\"UTF-8\"" := by decide
  have hname : attributeText ("name", "viewport") = " name=\"viewport\"" := by decide
  have hcontent : attributeText ("content", "width=device-width, initial-scale=1.0") =
      " content=\"width=device-width, initial-scale=1.0\"" := by decide
  have hlang : (attributeText ("lang", lang)).toList =
      " lang=\"".toList ++ ((Text.escape lang).toList ++ ['"']) := by simp [attributeText]
  simp [wrap, frontParts, backParts, ← hstyles, ← hscript, ← Head.charsOf_written,
    Markup.charsOf_line, Part.chars, Markup.doctypeTag, hcharset, hname, hcontent, hlang]

theorem balanced_frontParts {p : PageParts} (hhead : p.head.Named)
    (hstyles : ∀ rule ∈ p.styles, Style.IsBare rule.toList) (lang : String) :
    Balanced (p.frontParts lang) := by
  have hattribute : ∀ a : String × String, Text.IsKebab a.1.toList →
      IsAttributes (attributeText a).toList := by
    intro a ha
    simpa using Markup.isAttributes_append (a := a) ha .nil
  have hviewport : IsAttributes (attributeText ("name", "viewport") ++
      attributeText ("content", "width=device-width, initial-scale=1.0")).toList := by
    rw [String.toList_append]
    exact Markup.isAttributes_append (by decide) (hattribute _ (by decide))
  have hcss := balanced_rawParts p.head.css.isEmpty
    (Fragment.sealed_embed .style (by decide) p.head.css)
  have hbare : (Fragment.raw .style "" (String.join p.styles)).Sealed :=
    Fragment.sealed_of_isBare (Style.isBare_join hstyles)
  have hrules := balanced_rawParts p.styles.isEmpty hbare
  have hlang : IsAttributes (attributeText ("lang", lang)).toList := by
    have hname : Text.IsKebab "lang".toList := by decide
    exact hattribute ("lang", lang) hname
  have hdoctype : Balanced Part.doctype.line := Markup.balanced_line trivial rfl
  have hhtml : Balanced (Part.opening "html" (attributeText ("lang", lang))).line :=
    Markup.balanced_opening (by decide) (by decide) hlang
  have hopenHead : Balanced (Part.opening "head" "").line :=
    Markup.balanced_opening (by decide) (by decide) .nil
  have hcharset : Balanced (Part.opening "meta" (attributeText ("charset", "UTF-8"))).line :=
    Markup.balanced_opening (by decide) (by decide) (hattribute _ (by decide))
  have hname : Tag.isName "meta".toList = true := by decide
  have hmeta := Markup.balanced_opening hname (by decide) hviewport
  have hclose : Balanced (Part.closing "head").line := Markup.balanced_closing (by decide)
  have hbody : Balanced (Part.opening "body" "").line :=
    Markup.balanced_opening (by decide) (by decide) .nil
  exact hdoctype.append hhtml |>.append hopenHead |>.append hcharset |>.append hmeta
    |>.append hhead.balanced_written |>.append hcss |>.append hrules |>.append hclose |>.append hbody

theorem sound_backParts {p : PageParts} (hscript : Client.IsClean p.script.toList) :
    Markup.Sound none p.backParts := by
  have hraw := balanced_rawParts p.script.isEmpty (Fragment.sealed_script hscript)
  have hclose : Balanced (Part.closing "body").line := Markup.balanced_closing (by decide)
  have hlast : Markup.Sound none [.closing "html"] := ⟨.inr (by decide), trivial⟩
  have hlines := hraw.append hclose
  have hrest : Markup.Sound none (rawParts .script p.script p.script.isEmpty
      ++ (Part.closing "body").line ++ [.closing "html"]) :=
    Markup.sound_append.2 ⟨hlines.sound, hlines.outside.symm ▸ hlast⟩
  exact ⟨Markup.tagFree_of_not_mem (by decide), hrest⟩

end PageParts

/-! Documents of authors -/

/-- Documents that are started empty and then changed by calls of their own, of their head and of
their nodes, without trusted markup. -/
inductive Document.Authored : Document → Prop
  | new {s t : Site} {o : CacheOptions} {d : Document} (h : s.newDocument o = (d, t)) :
    Document.Authored d
  | push {d : Document} {nodes : List Node} (hd : Document.Authored d)
    (hnodes : ∀ n ∈ nodes, n.toChild.Built) : Document.Authored { d with body := d.body ++ nodes }
  | head {d : Document} (hd : Document.Authored d) (calls : List Head.Call) :
    Document.Authored { d with head := (Head.applyAll calls d.head).1 }
  | clear {d : Document} (hd : Document.Authored d) (s : Site) : Document.Authored (s.clear d).1

theorem Child.Built.made {c : Child} (h : c.Built) : c.Made := by
  induction h with
  | text s => exact .text s
  | create hpool h => exact .create hpool h
  | call _ _ h ihn ihadded => exact .call ihn ihadded h

namespace Document.Authored

variable {d : Document}

theorem made (h : d.Authored) : d.Made := by
  induction h with
  | new h => exact .new h
  | push _ hnodes ih => exact .push ih fun n hn => (hnodes n hn).made
  | head _ calls ih => exact .head ih calls
  | clear _ s ih => exact .clear ih s

theorem named (h : d.Authored) : d.head.Named := by
  induction h with
  | new h =>
    unfold Site.newDocument at h
    obtain ⟨rfl, -⟩ := Prod.mk.inj h
    exact List.forall_mem_nil _
  | push _ _ ih => exact ih
  | head _ calls ih => exact ih.applyAll calls
  | clear _ _ _ => exact List.forall_mem_nil _

theorem proper (h : d.Authored) : Child.Proper (d.body.map Node.toChild) := by
  induction h with
  | new h =>
    unfold Site.newDocument at h
    obtain ⟨rfl, -⟩ := Prod.mk.inj h
    exact .nil
  | push _ hnodes ih =>
    rw [List.map_append]
    refine ih.append (Child.proper_of_forall fun c hc => ?_)
    obtain ⟨n, hn, rfl⟩ := List.mem_map.1 hc
    exact (hnodes n hn).proper
  | head _ _ ih => exact ih
  | clear _ _ _ => exact .nil

end Document.Authored

namespace Site

variable {s : Site} {d : Document}

/-- The page of a document before it is minified. -/
def page (s : Site) (d : Document) : String := (s.parts d).wrap s.settings.lang

/-- The parts of that page. -/
def written (s : Site) (d : Document) : List Part :=
  (s.parts d).frontParts s.settings.lang
    ++ (Child.writtenAll (d.body.map Node.toChild) ++ (s.parts d).backParts)

theorem toList_page (s : Site) (d : Document) : (s.page d).toList = charsOf (s.written d) := by
  rw [page, PageParts.toList_wrap, written, Markup.charsOf_append, Markup.charsOf_append,
    Child.charsOf_writtenAll]
  rfl

theorem balanced_frontParts (s : Site) (hd : d.Authored) :
    Balanced ((s.parts d).frontParts s.settings.lang) := by
  have hcollected := Context.guarded_collect s.settings (hd.made.each Element.kept_guarded)
  exact PageParts.balanced_frontParts (p := s.parts d) hd.named hcollected.styles s.settings.lang

theorem sound_written (s : Site) (hd : d.Authored) : Markup.Sound none (s.written d) := by
  have hcollected := Context.guarded_collect s.settings (hd.made.each Element.kept_guarded)
  have hfront := s.balanced_frontParts hd
  have hback := PageParts.sound_backParts (p := s.parts d)
    (Hydration.isClean_compile hcollected s.settings)
  have hbody := Child.afterAll_writtenAll (d.body.map Node.toChild) none
  refine Markup.sound_append.2 ⟨hfront.sound, ?_⟩
  rw [hfront.outside]
  refine Markup.sound_append.2 ⟨hd.proper.sound none, ?_⟩
  rwa [hbody.elim id id]

theorem toList_minify_page (h : (s.page d).utf8ByteSize ≤ Markup.minifyLimit) :
    (Markup.minify (s.page d)).toList = Markup.minifyChars (charsOf (s.written d)) := by
  rw [Markup.toList_minify h, toList_page]

/-- Minification never damages a page. -/
theorem minify_page (hcontexts : s.contexts.Reached) (hd : d.Authored) :
    (s.renderPage d.head d.body).1 =
        (if s.settings.shouldMinify then Markup.minify (s.page d) else s.page d) ∧
      (s.page d).toList = charsOf (s.written d) ∧
      (∃ qs, List.Forall₂ Part.Keeps (s.written d) qs ∧
        (Markup.minify (s.page d)).toList = charsOf qs) ∧
      visible (Markup.minify (s.page d)).toList = visible (s.page d).toList := by
  obtain ⟨qs, hkept, hqs⟩ := Markup.exists_minify (s.sound_written hd) (s.toList_page d)
  refine ⟨renderPage_eq_wrap hcontexts d, s.toList_page d, ⟨qs, hkept.keeps, hqs⟩, ?_⟩
  rw [hqs, s.toList_page, Markup.visible_charsOf hkept.keeps]

/-- A page in production with a script and a style in its head, and line breaks in an attribute, in a
preserved element and between texts. -/
theorem minify_page_motley :
    ∃ (s : Site) (d : Document), s.contexts.Reached ∧ d.Authored ∧
      (s.renderPage d.head d.body).1 =
        "<!DOCTYPE html><html lang=\"en\"><head><meta charset=\"UTF-8\"><meta name=\"viewport\"" ++
          " content=\"width=device-width, initial-scale=1.0\"><style>p \x7b\n\x7d</style>" ++
          "<script>f(\n1)</script></head><body><p title=\"a\n\n b\">one two<pre-x></pre-x>" ++
          "<pre>\n x</pre></p></body></html>" ∧
      ((s.renderPage d.head d.body).1 =
          (if s.settings.shouldMinify then Markup.minify (s.page d) else s.page d) ∧
        (s.page d).toList = charsOf (s.written d) ∧
        (∃ qs, List.Forall₂ Part.Keeps (s.written d) qs ∧
          (Markup.minify (s.page d)).toList = charsOf qs) ∧
        visible (Markup.minify (s.page d)).toList = visible (s.page d).toList) := by
  let s : Site := .ofSettings { mode := .production } .silent 0
  let new : Document := { scope := 0 }
  have hpool : s.nodes.Reached := .empty 1024 Pool.nodeNames
  have hcontexts : s.contexts.Reached := .empty 64 Pool.contextNames
  have hempty : new.Authored := .new (rfl : s.newDocument {} = _)
  have hhead := hempty.head [.style "p \x7b\n\x7d", .inlineScript "f(\n1)"]
  let pre : Node := { tag := "pre", scope := some 0, children := [.text "\n x"] }
  have hpre : pre.toChild.Built :=
    (Child.Built.create hpool (rfl : s.create new "pre" = (.ok _, _))).call (s := s)
      (c := .append [.text "\n x"]) (List.forall_mem_singleton.2 (.text _)) rfl
  let other : Node := { tag := "pre-x", scope := some 0 }
  have hother : other.toChild.Built :=
    Child.Built.create hpool (rfl : s.create new "PreX" = (.ok _, _))
  have hchildren : ∀ c ∈ [Child.text "one\n", .text "\n two", other.toChild, .text "\n", pre.toChild],
      c.Built := by
    simp only [List.forall_mem_cons]
    exact ⟨.text _, .text _, hother, .text _, hpre, List.forall_mem_nil _⟩
  have hp := Child.Built.create hpool (rfl : s.create new "p" = (.ok _, _))
  have htitle := hp.call (s := s) (c := .attr "title" "a\n\n b") nofun rfl
  have hfilled := htitle.call (s := s) (c := .append _) hchildren rfl
  have hpushed := hhead.push (List.forall_mem_singleton.2 hfilled)
  refine ⟨s, _, hcontexts, hpushed, ?_, minify_page hcontexts hpushed⟩
  have hmode : s.settings.shouldMinify = true := rfl
  rw [renderPage_eq_wrap hcontexts, hmode, if_pos rfl, ← page, ← String.toList_inj,
    toList_minify_page (by decide +kernel)]
  simp only [String.toList_append]
  decide +kernel

/-- A preserved element stands in the minified page as it was rendered, if no closing tag below it is
taken for the end of this element or of one around it. -/
theorem preserved_infix (hd : d.Authored) {above : List String} {e : Element}
    {children : List Child} (h : Child.Renders (d.body.map Node.toChild) above e children)
    (he : e.tag.toList ∈ preservedNames)
    (hfree : ∀ tag ∈ e.tag :: above, tag.toList ∈ preservedNames →
      ∀ f ∈ Child.enteredAll children, ¬ tag.toList <+: f.tag.toList) :
    ((Child.element e children).write "").toList <:+: (Markup.minify (s.page d)).toList := by
  obtain ⟨qs, hkept, hqs⟩ := Markup.exists_minify (s.sound_written hd) (s.toList_page d)
  have hfront := s.balanced_frontParts hd
  obtain ⟨front, back, hbody, hinside⟩ := h.exists_parts none
  have hstays : ∀ tag ∈ e.tag :: above, tag.toList ∈ preservedNames →
      Markup.Stays tag (Child.writtenAll children) := by
    intro tag htag hpreserved name hname hprefix
    obtain ⟨f, hf, rfl⟩ := Child.mem_enteredAll_of_closing hname
    exact hfree tag htag hpreserved f hf hprefix
  -- the parts in front of the element, its own parts, and those after it
  rw [written, hbody, List.append_assoc, List.append_assoc] at hkept
  obtain ⟨us, rest, rfl, -, hrest⟩ := hkept.of_append
  rw [hfront.outside] at hrest
  obtain ⟨vs, rest, rfl, -, hrest⟩ := hrest.of_append
  obtain ⟨ws, rest, rfl, helement, -⟩ := hrest.of_append
  have hsame : ws = (Child.element e children).written := by
    refine Child.eq_of_kept he (hstays e.tag List.mem_cons_self he) (fun block hblock => ?_) helement
    have houtside : ∀ block ∈ (none : Option String), block.toList ∈ preservedNames := nofun
    have hpreserved := Markup.preserved_afterAll houtside front block hblock
    rcases hinside with hnone | hnone | ⟨tag, htag, hsome⟩
    · rw [hnone] at hblock
      cases hblock
    · rw [hnone] at hblock
      cases hblock
    · rw [hsome] at hblock
      obtain rfl := Option.some.inj hblock
      exact hstays _ (List.mem_cons_of_mem _ htag) hpreserved
  rw [hqs, hsame, ← Child.charsOf_written]
  simp only [Markup.charsOf_append]
  exact ⟨charsOf us ++ charsOf vs, charsOf rest, by simp⟩

/-- A preserved element in another one, in a page where other white space is gone. -/
theorem preserved_infix_nested :
    ∃ (s : Site) (d : Document) (above : List String) (e : Element) (children : List Child),
      d.Authored ∧ Child.Renders (d.body.map Node.toChild) above e children ∧
      e.tag.toList ∈ preservedNames ∧
      (∀ tag ∈ e.tag :: above, tag.toList ∈ preservedNames →
        ∀ f ∈ Child.enteredAll children, ¬ tag.toList <+: f.tag.toList) ∧
      above = ["div", "pre"] ∧
      (Child.element e children).write "" = "<textarea>\n\n  x<b></b></textarea>" ∧
      Markup.minify (s.page d) ≠ s.page d ∧
      ((Child.element e children).write "").toList <:+: (Markup.minify (s.page d)).toList := by
  let s : Site := .ofSettings {} .silent 0
  let new : Document := { scope := 0 }
  have hpool : s.nodes.Reached := .empty 1024 Pool.nodeNames
  have hempty : new.Authored := .new (rfl : s.newDocument {} = _)
  let bold : Node := { tag := "b", scope := some 0 }
  let area : Node :=
    { tag := "textarea", scope := some 0, children := [.text "\n\n  x", bold.toChild] }
  let pre : Node := { tag := "pre", scope := some 0, children := [area.toChild] }
  let div : Node := { tag := "div", scope := some 0, children := [.text "\n", pre.toChild] }
  have hbold : bold.toChild.Built :=
    .create hpool (rfl : s.create new "b" = (.ok bold, _))
  have harea : area.toChild.Built :=
    (Child.Built.create hpool (rfl : s.create new "textarea" = (.ok _, _))).call (s := s)
      (c := .append _) (List.forall_mem_cons.2 ⟨.text _, List.forall_mem_singleton.2 hbold⟩) rfl
  have hpre : pre.toChild.Built :=
    (Child.Built.create hpool (rfl : s.create new "pre" = (.ok _, _))).call (s := s)
      (c := .append _) (List.forall_mem_singleton.2 harea) rfl
  have hdiv : div.toChild.Built :=
    (Child.Built.create hpool (rfl : s.create new "div" = (.ok _, _))).call (s := s)
      (c := .append _) (List.forall_mem_cons.2 ⟨.text _, List.forall_mem_singleton.2 hpre⟩) rfl
  have hd := hempty.push (List.forall_mem_singleton.2 hdiv)
  have hrenders : Child.Renders ([div].map Node.toChild) ["div", "pre"] area.toElement
      area.children :=
    .within List.mem_cons_self rfl (.within (List.mem_cons_of_mem _ List.mem_cons_self) rfl
      (.here List.mem_cons_self))
  have he : area.tag.toList ∈ preservedNames := by decide
  have hfree : ∀ tag ∈ ["textarea", "div", "pre"], tag.toList ∈ preservedNames →
      ∀ f ∈ Child.enteredAll area.children, ¬ tag.toList <+: f.tag.toList := by
    decide
  refine ⟨s, _, _, _, _, hd, hrenders, he, hfree, rfl, by decide, ?_,
    preserved_infix hd hrenders he hfree⟩
  rw [ne_eq, ← String.toList_inj, toList_minify_page (by decide +kernel), toList_page]
  decide +kernel

/-- The closing tag of `pre-x` is taken for the end of the `pre` around it. -/
theorem preserved_cut_short :
    ∃ (s : Site) (d : Document) (e : Element) (children : List Child),
      d.Authored ∧ Child.Renders (d.body.map Node.toChild) [] e children ∧ e.tag = "pre" ∧
      (Child.element e children).write "" = "<pre><pre-x></pre-x>\n  y</pre>" ∧
      ¬ ((Child.element e children).write "").toList <:+: (Markup.minify (s.page d)).toList := by
  let s : Site := .ofSettings { mode := .production } .silent 0
  let new : Document := { scope := 0 }
  have hpool : s.nodes.Reached := .empty 1024 Pool.nodeNames
  have hempty : new.Authored := .new (rfl : s.newDocument {} = _)
  let other : Node := { tag := "pre-x", scope := some 0 }
  let pre : Node := { tag := "pre", scope := some 0, children := [other.toChild, .text "\n  y"] }
  have hother : other.toChild.Built :=
    .create hpool (rfl : s.create new "pre-x" = (.ok other, _))
  have hpre : pre.toChild.Built :=
    (Child.Built.create hpool (rfl : s.create new "pre" = (.ok _, _))).call (s := s)
      (c := .append _) (List.forall_mem_cons.2 ⟨hother, List.forall_mem_singleton.2 (.text _)⟩) rfl
  have hd := hempty.push (List.forall_mem_singleton.2 hpre)
  refine ⟨s, _, pre.toElement, pre.children, hd, .here List.mem_cons_self, rfl, by decide, ?_⟩
  rw [← Text.occurs_iff_infix, toList_minify_page (by decide +kernel)]
  decide +kernel

end Site

end Folio
