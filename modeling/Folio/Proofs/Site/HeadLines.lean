import Folio.Proofs.Page.RoundTrip
import Folio.Proofs.Site.Sealed
import Folio.Proofs.Snapshot.Codec

/-! The lines of a head that declare by a single tag. With proper names such a line is one tag,
whatever its values are. An import takes a head over as it is, so the names of an imported head are
proper only if those of the snapshot are. -/
namespace Folio

/-- The element that a declaration is, if it is a single tag. -/
def HeadTag.element? : HeadTag → Option Element
  | .metaTag attributes => some { tag := "meta", attributes }
  | .linkTag attributes => some { tag := "link", attributes }
  | _ => none

variable {tag : HeadTag} {e : Element}

theorem HeadTag.html_eq_openTag (h : tag.element? = some e) : tag.html = e.openTag ++ "\n" := by
  cases tag with
  | metaTag attributes | linkTag attributes =>
    obtain rfl := Option.some.inj h
    simp only [HeadTag.html, Element.openTag, String.append_assoc]
    rfl
  | styleTag _ | scriptTag _ _ _ => cases h

theorem HeadTag.named_of_element? (h : tag.element? = some e)
    (hnames : ∀ name ∈ e.attributes.keys, Text.IsKebab name.toList) : e.Named := by
  refine ⟨.inr ?_, hnames⟩
  have hmeta : Tag.isName "meta".toList = true := by decide
  have hlink : Tag.isName "link".toList = true := by decide
  cases tag with
  | metaTag attributes =>
    obtain rfl := Option.some.inj h
    exact hmeta
  | linkTag attributes =>
    obtain rfl := Option.some.inj h
    exact hlink
  | styleTag _ | scriptTag _ _ _ => cases h

namespace Element

theorem toList_openTag (e : Element) :
    e.openTag.toList = '<' :: (e.tag.toList ++ (attributesText e.attributes).toList) ++ ['>'] := by
  simp [openTag]

/-- The last character of an opening tag is the first one that could end it. -/
theorem Named.not_mem_front (h : e.Named) :
    '>' ∉ '<' :: (e.tag.toList ++ (attributesText e.attributes).toList) := by
  rw [List.mem_cons, not_or]
  exact ⟨by decide, h.not_mem_body (.inr rfl)⟩

theorem Named.tokenize_line (h : e.Named) :
    Markup.tokenize (e.openTag ++ "\n").toList =
      some [.opening e.tag e.attributes.entries, .text "\n"] := by
  have hend : Markup.tokenize ['\n'] = some [.text "\n"] :=
    Markup.tokenize_escape "\n" Markup.tokenize_nil
  have hline := Markup.tokenize_tag (h.not_mem_body (.inl rfl)) (h.not_mem_body (.inr rfl))
    h.readTag_body hend
  rw [String.toList_append, toList_openTag]
  simpa using hline

end Element

namespace Head

/-- A head whose single tags have proper attribute names. -/
def Named (h : Head) : Prop :=
  ∀ tag ∈ h.tags, ∀ e ∈ tag.element?, ∀ name ∈ e.attributes.keys, Text.IsKebab name.toList

variable {h : Head}

theorem Named.add (hh : h.Named) {tag : HeadTag}
    (htag : ∀ e ∈ tag.element?, ∀ name ∈ e.attributes.keys, Text.IsKebab name.toList) :
    (h.add tag).Named :=
  List.forall_mem_append.2 ⟨hh, List.forall_mem_singleton.2 htag⟩

/-- Calls name attributes properly, whatever names they are given. -/
theorem Named.apply (hh : h.Named) (c : Call) : (h.apply c).1.Named := by
  cases c with
  | title _ => exact hh
  | metaTag attributes | linkTag attributes =>
    refine hh.add ?_
    rintro e ⟨⟩ name hname
    exact (isAttributeName_collect hname).isKebab
  | style _ | script _ _ | inlineScript _ => exact hh.add nofun
  | named name css =>
    simp only [Head.apply, Head.named]
    split <;> exact hh
  | global selector declarations =>
    simp only [Head.apply, Head.global]
    split <;> exact hh
  | clear => exact List.forall_mem_nil _

theorem Named.applyAll (hh : h.Named) (calls : List Call) : (applyAll calls h).1.Named := by
  induction calls generalizing h with
  | nil => exact hh
  | cons c calls ih => exact ih (hh.apply c)

end Head

/-- The lines of a head stand in the page. -/
theorem PageParts.html_infix_wrap {p : PageParts} (h : tag ∈ p.head.tags) (lang : String) :
    tag.html.toList <:+: (p.wrap lang).toList := by
  have hline : tag.html.toList <:+: p.head.html.toList := by
    rw [Head.html, String.toList_append]
    exact (Text.infix_join (List.mem_map_of_mem h)).trans (List.suffix_append ..).isInfix
  exact hline.trans (Text.infix_join (by simp))

namespace Site

variable {s t : Site}

theorem head_of_restore {snapshot : Snapshot} {d : Document} (h : s.restore snapshot = (.ok d, t)) :
    d.head = snapshot.head := by
  rw [restore_eq] at h
  split at h
  · obtain rfl := Except.ok.inj (Prod.mk.inj h).1
    rfl
  · cases h

/-- The meta and link declarations of an imported head, if the snapshot names their attributes
properly, as calls do: each is written as one tag, the name of the element and then every
attribute with its value, which holds no quote and no angle bracket; the tag ends at the end of
its line and not before, and is read as it was meant; and the line stands in every page of the
document. -/
theorem head_lines_of_restore {snapshot : Snapshot} {d : Document}
    (h : s.restore snapshot = (.ok d, t))
    (hnamed : snapshot.head.Named) :
    ∀ tag ∈ d.head.tags, ∀ e ∈ tag.element?,
      tag.html = "<" ++ e.tag ++ String.join (e.attributes.entries.map fun a =>
        " " ++ a.1 ++ "=\"" ++ Text.escape a.2 ++ "\"") ++ ">" ++ "\n" ∧
      (∀ a ∈ e.attributes.entries, ∀ c ∈ (Text.escape a.2).toList, c ≠ '"' ∧ c ≠ '<' ∧ c ≠ '>') ∧
      (∃ front, tag.html.toList = front ++ ['>', '\n'] ∧ '>' ∉ front) ∧
      Markup.tokenize tag.html.toList = some [.opening e.tag e.attributes.entries, .text "\n"] ∧
      ∀ (u : Site) (lang : String), tag.html.toList <:+: ((u.parts d).wrap lang).toList := by
  intro tag htag e he
  have hsame : tag ∈ snapshot.head.tags := head_of_restore h ▸ htag
  have helement : e.Named := HeadTag.named_of_element? he (hnamed tag hsame e he)
  have hhtml : tag.html = e.openTag ++ "\n" := HeadTag.html_eq_openTag he
  refine ⟨hhtml, fun a _ c hc => ?_, ⟨_, ?_, helement.not_mem_front⟩, ?_, fun u lang => ?_⟩
  · rw [Text.toList_escape] at hc
    have hfree := Text.ne_of_mem_escapeChars hc
    exact ⟨hfree.2.2.1, hfree.1, hfree.2.1⟩
  · rw [hhtml, String.toList_append, Element.toList_openTag]
    simp
  · rw [hhtml]
    exact helement.tokenize_line
  · exact PageParts.html_infix_wrap htag lang

/-- A head that calls made, with names out of normal form and delimiters in a value. -/
theorem head_lines_of_restore_motley :
    ∃ (s t : Site) (snapshot : Snapshot) (d : Document), s.restore snapshot = (.ok d, t) ∧
      snapshot.head.Named ∧
      d.head.tags.map HeadTag.html = ["<meta http-equiv=\"&quot;&gt;\" x=\"\">\n"] ∧
      ∀ tag ∈ d.head.tags, ∀ e ∈ tag.element?,
        tag.html = "<" ++ e.tag ++ String.join (e.attributes.entries.map fun a =>
          " " ++ a.1 ++ "=\"" ++ Text.escape a.2 ++ "\"") ++ ">" ++ "\n" ∧
        (∀ a ∈ e.attributes.entries, ∀ c ∈ (Text.escape a.2).toList,
          c ≠ '"' ∧ c ≠ '<' ∧ c ≠ '>') ∧
        (∃ front, tag.html.toList = front ++ ['>', '\n'] ∧ '>' ∉ front) ∧
        Markup.tokenize tag.html.toList = some [.opening e.tag e.attributes.entries, .text "\n"] ∧
        ∀ (u : Site) (lang : String), tag.html.toList <:+: ((u.parts d).wrap lang).toList := by
  let head : Head := (Head.applyAll [.metaTag [("Http Equiv", "\">"), ("<x>", "")]] {}).1
  have hempty : Head.Named {} := List.forall_mem_nil _
  have hnamed : head.Named := hempty.applyAll _
  have hrestored : (Site.ofSettings {} .silent 0).restore { head } = (.ok _, _) := rfl
  exact ⟨_, _, { head }, _, hrestored, hnamed, rfl, head_lines_of_restore hrestored hnamed⟩

/-- A snapshot with an attribute name that is none. -/
def misnamed : Snapshot where
  head := { tags := [.metaTag ⟨[("x><script>alert(1)</script>", "y")], by decide⟩] }

/-- A name that a snapshot gives to an attribute is not normalized: it ends the tag, and a script
follows. -/
theorem head_line_with_script :
    ∃ (text : String) (snapshot : Snapshot) (s t : Site) (d : Document),
      text = "\x7b\"head\":\x7b\"title\":null,\"tags\":[\x7b\"kind\":\"meta\"," ++
        "\"attributes\":\x7b\"x><script>alert(1)</script>\":\"y\"\x7d\x7d]," ++
        "\"namedCss\":\x7b\x7d,\"globalCss\":[]\x7d,\"body\":[],\"state\":\x7b\x7d\x7d" ∧
      Snapshot.read? text = some snapshot ∧ s.restore snapshot = (.ok d, t) ∧
      d.head.tags.map HeadTag.html = ["<meta x><script>alert(1)</script>=\"y\">\n"] := by
  have hvalues : misnamed.values = [] := rfl
  have hread : Snapshot.read? misnamed.text = some misnamed.asRead :=
    Snapshot.read?_text_eq_asRead (by simp [hvalues]) (by simp [hvalues]) (by decide)
  have hrestored : (Site.ofSettings {} .silent 0).restore misnamed.asRead = (.ok _, _) := rfl
  exact ⟨misnamed.text, misnamed.asRead, _, _, _, by decide +kernel, hread, hrestored, rfl⟩

end Site

end Folio
