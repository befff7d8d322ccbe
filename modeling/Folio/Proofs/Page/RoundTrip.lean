import Folio.Proofs.Markup.Reading
import Folio.Proofs.Page.Built

/-! Rendering loses and confuses nothing: the markup of a built tree reads back as the tree, up to
what no markup can show of its texts and of void elements. -/
namespace Folio

open Markup (Tree Token)

/-- Puts a text before trees: it runs on into a text, and an empty text leaves no trace. -/
def Markup.Tree.addText (s : String) : List Tree → List Tree
  | .text t :: ts => .text (s ++ t) :: ts
  | ts => if s = "" then ts else .text s :: ts

namespace Child

mutual

/-- A child before trees, as markup shows it: a void element without children, and neighbouring
texts as one. Trusted markup is not read. -/
def outlineBefore (c : Child) (ts : List Tree) : List Tree :=
  match c with
  | .text s => Tree.addText s ts
  | .markup _ => ts
  | .element e children =>
    .element e.tag e.attributes.entries (if Tag.isVoid e.tag then [] else outline children) :: ts

/-- Children as markup shows them. -/
def outline : List Child → List Tree
  | [] => []
  | c :: cs => c.outlineBefore (outline cs)

end

end Child

/-- A node as markup shows it. -/
def Node.outline (n : Node) : Tree :=
  .element n.tag n.attributes.entries (if Tag.isVoid n.tag then [] else Child.outline n.children)

namespace Markup

theorem Tree.Tidy.addText (s : String) {ts : List Tree} (h : Tree.Tidy ts) :
    Tree.Tidy (Tree.addText s ts) := by
  unfold Tree.addText
  split
  · next t ts =>
    cases h with
    | text ht hts h => exact .text (by simp [ht]) hts h
  · next hother =>
    split
    · exact h
    · next hs =>
      refine .text hs (fun t ht => ?_) h
      cases t with
      | element _ _ _ => rfl
      | text t =>
        obtain ⟨ts, rfl⟩ := List.head?_eq_some_iff.1 ht
        exact (hother t ts rfl).elim

theorem addText_tokensAll (s : String) (ts : List Tree) {rest : List Token}
    (h : StartsAnew rest) :
    addText s (Tree.tokensAll ts ++ rest) = Tree.tokensAll (Tree.addText s ts) ++ rest := by
  cases ts with
  | nil =>
    have hnone : Tree.addText s [] = if s = "" then [] else [.text s] := rfl
    rw [Tree.tokensAll, List.nil_append, addText_of_startsAnew h, hnone]
    split <;> rfl
  | cons t ts =>
    cases t with
    | text t => rfl
    | element tag attributes children =>
      simp only [Tree.addText, Tree.tokensAll, Tree.tokens, List.cons_append, addText]
      split <;> rfl

end Markup

namespace Child

theorem tidy_outline {cs : List Child} (h : Proper cs) : Tree.Tidy (outline cs) := by
  induction h with
  | nil => exact .nil
  | text s _ ih => exact ih.addText s
  | @element e children cs _ _ _ ihchildren ih =>
    rw [outline, outlineBefore]
    cases hvoid : Tag.isVoid e.tag with
    | true => exact .void hvoid _ ih
    | false => exact .element hvoid _ ihchildren ih

theorem outline_map_toChild (nodes : List Node) :
    outline (nodes.map Node.toChild) = nodes.map Node.outline := by
  induction nodes with
  | nil => rfl
  | cons n nodes ih =>
    rw [List.map_cons, List.map_cons, outline, ih]
    rfl

/-! Writing -/

mutual

theorem write_append (out more : String) (c : Child) :
    c.write (out ++ more) = out ++ c.write more := by
  match c with
  | .text s => simp only [write, String.append_assoc]
  | .markup s => simp only [write, String.append_assoc]
  | .element e children =>
    simp only [write]
    split
    · rw [String.append_assoc]
    · rw [String.append_assoc, writeAll_append out _ children, String.append_assoc]

theorem writeAll_append (out more : String) (cs : List Child) :
    writeAll (out ++ more) cs = out ++ writeAll more cs := by
  match cs with
  | [] => rfl
  | c :: cs => rw [writeAll, writeAll, write_append out more c, writeAll_append out _ cs]

end

theorem writeAll_eq (out : String) (cs : List Child) : writeAll out cs = out ++ writeAll "" cs := by
  simpa using writeAll_append out "" cs

theorem writeAll_text (s : String) (cs : List Child) :
    (writeAll "" (.text s :: cs)).toList =
      Text.escapeChars s.toList ++ (writeAll "" cs).toList := by
  rw [writeAll, writeAll_eq, write, String.toList_append]
  simp [Text.toList_escape]

theorem writeAll_void {e : Element} (h : Tag.isVoid e.tag = true) (children cs : List Child) :
    (writeAll "" (.element e children :: cs)).toList =
      '<' :: (e.tag.toList ++ (attributesText e.attributes).toList ++
        '>' :: (writeAll "" cs).toList) := by
  rw [writeAll, writeAll_eq, write, if_pos h]
  simp [Element.openTag]

theorem writeAll_element {e : Element} (h : Tag.isVoid e.tag = false) (children cs : List Child) :
    (writeAll "" (.element e children :: cs)).toList =
      '<' :: (e.tag.toList ++ (attributesText e.attributes).toList ++
        '>' :: ((writeAll "" children).toList ++
          '<' :: ('/' :: e.tag.toList ++ '>' :: (writeAll "" cs).toList))) := by
  rw [writeAll, writeAll_eq, write, h, if_neg Bool.false_ne_true, writeAll_eq]
  simp [Element.openTag, Element.closeTag]

end Child

/-! Reading tags back -/

theorem toList_attributeText (a : String × String) :
    (attributeText a).toList =
      ' ' :: (a.1.toList ++ '=' :: '"' :: (Text.escapeChars a.2.toList ++ ['"'])) := by
  simp [attributeText, Text.toList_escape]

theorem toList_attributesText (attributes : Ordered String String) :
    (attributesText attributes).toList =
      attributes.entries.flatMap fun a => (attributeText a).toList := by
  rw [attributesText, String.toList_join, List.flatMap_map]

namespace Markup

theorem readAttributes_attributeText {as : List (String × String)}
    (h : ∀ name ∈ as.map Prod.fst, Text.IsKebab name.toList) :
    readAttributes (Text.splitOn '"' (as.flatMap fun a => (attributeText a).toList)) = some as := by
  induction as with
  | nil => rfl
  | cons a as ih =>
    rw [List.map_cons, List.forall_mem_cons] at h
    obtain ⟨hname, hnames⟩ := h
    have hequals : '=' ∉ a.1.toList := hname.not_mem rfl
    have hquote : '"' ∉ ' ' :: (a.1.toList ++ ['=']) := by
      have hfree : '"' ∉ a.1.toList := hname.not_mem rfl
      simp [hfree]
    have hvalue : '"' ∉ Text.escapeChars a.2.toList :=
      fun hq => (Text.ne_of_mem_escapeChars hq).2.2.1 rfl
    have hpieces : Text.splitOn '"' ((a :: as).flatMap fun a => (attributeText a).toList) =
        (' ' :: (a.1.toList ++ ['='])) :: Text.escapeChars a.2.toList ::
          Text.splitOn '"' (as.flatMap fun a => (attributeText a).toList) := by
      rw [List.flatMap_cons, toList_attributeText, ← Text.splitOn_append_cons hvalue,
        ← Text.splitOn_append_cons hquote]
      simp
    rw [hpieces, readAttributes, Text.splitAt?_append_cons hequals]
    simp [ih hnames, Text.unescape_escapeChars]

theorem readTag_of_ne {body : List Char} (h : body.head? ≠ some '/') :
    readTag body =
      (readAttributes (Text.splitOn '"' (body.dropWhile (· != ' ')))).map
        (Token.opening (String.ofList (body.takeWhile (· != ' ')))) := by
  unfold readTag
  split
  · exact (h rfl).elim
  · rfl

end Markup

namespace Element

variable {e : Element}

theorem Named.isKebab_tag (h : e.Named) : Text.IsKebab e.tag.toList := by
  rcases h.tag with htag | htag
  · rw [htag]
    decide
  · exact Tag.isKebab_of_isName htag

/-- The body of an opening tag has no delimiter of tags in it, whatever the values are. -/
theorem Named.not_mem_body (h : e.Named) {d : Char} (hd : d = '<' ∨ d = '>') :
    d ∉ e.tag.toList ++ (attributesText e.attributes).toList := by
  have hkebab : Text.isKebabChar d = false := by rcases hd with rfl | rfl <;> rfl
  rw [List.mem_append, not_or, toList_attributesText]
  refine ⟨h.isKebab_tag.not_mem hkebab, fun hmem => ?_⟩
  obtain ⟨a, ha, hmem⟩ := List.mem_flatMap.1 hmem
  have hname : d ∉ a.1.toList :=
    (h.attributes a.1 (List.mem_map_of_mem ha)).not_mem hkebab
  have hvalue : d ∉ Text.escapeChars a.2.toList := by
    intro hin
    have := Text.ne_of_mem_escapeChars hin
    rcases hd with rfl | rfl <;> simp at this
  rw [toList_attributeText] at hmem
  rcases hd with rfl | rfl <;> simp [hname, hvalue] at hmem

theorem Named.readTag_body (h : e.Named) :
    Markup.readTag (e.tag.toList ++ (attributesText e.attributes).toList) =
      some (.opening e.tag e.attributes.entries) := by
  have hspace : ∀ c ∈ e.tag.toList, (c != ' ') = true := by
    intro c hc
    have hfree : ' ' ∉ e.tag.toList := h.isKebab_tag.not_mem rfl
    simpa using fun he : c = ' ' => hfree (he ▸ hc)
  have hread := Markup.readAttributes_attributeText h.attributes
  rw [toList_attributesText]
  generalize e.attributes.entries = as at hread ⊢
  -- what follows the tag name is nothing, or begins with a blank
  have hrest : as.flatMap (fun a => (attributeText a).toList) = [] ∨
      ∃ s, as.flatMap (fun a => (attributeText a).toList) = ' ' :: s := by
    cases as with
    | nil => exact .inl rfl
    | cons a as => exact .inr ⟨_, by rw [List.flatMap_cons, toList_attributeText]; rfl⟩
  generalize as.flatMap (fun a => (attributeText a).toList) = rest at hread hrest ⊢
  have hslash : (e.tag.toList ++ rest).head? ≠ some '/' := by
    have hfree : '/' ∉ e.tag.toList := h.isKebab_tag.not_mem rfl
    cases htag : e.tag.toList with
    | nil => rcases hrest with rfl | ⟨s, rfl⟩ <;> simp
    | cons c name =>
      rw [htag, List.mem_cons, not_or] at hfree
      simpa using Ne.symm hfree.1
  rw [Markup.readTag_of_ne hslash, List.dropWhile_append_of_pos hspace,
    List.takeWhile_append_of_pos hspace]
  rcases hrest with rfl | ⟨s, rfl⟩ <;> simpa using hread

end Element

namespace Child

/-- Proper children, written in front of what starts anew, are read as their outline. -/
theorem tokenize_writeAll {cs : List Child} (h : Proper cs) {s : List Char} {ts : List Token}
    (hs : Markup.tokenize s = some ts) (hts : Markup.StartsAnew ts) :
    Markup.tokenize ((writeAll "" cs).toList ++ s) =
      some (Tree.tokensAll (outline cs) ++ ts) := by
  induction h generalizing s ts with
  | nil => exact hs
  | text x _ ih =>
    rw [writeAll_text, List.append_assoc, Markup.tokenize_escape x (ih hs hts),
      Markup.addText_tokensAll x _ hts]
    rfl
  | @element e children cs he _ _ ihchildren ih =>
    have hlt := he.not_mem_body (.inl rfl)
    have hgt := he.not_mem_body (.inr rfl)
    cases hvoid : Tag.isVoid e.tag with
    | true =>
      have hopen := Markup.tokenize_tag hlt hgt he.readTag_body (ih hs hts)
      rw [writeAll_void hvoid]
      simpa [outline, outlineBefore, Tree.tokensAll, Tree.tokens, hvoid] using hopen
    | false =>
      have hclosing : Markup.readTag ('/' :: e.tag.toList) = some (.closing e.tag) := by
        simp [Markup.readTag]
      have hltclosing : '<' ∉ '/' :: e.tag.toList := by
        have hfree : '<' ∉ e.tag.toList := he.isKebab_tag.not_mem rfl
        simp [hfree]
      have hgtclosing : '>' ∉ '/' :: e.tag.toList := by
        have hfree : '>' ∉ e.tag.toList := he.isKebab_tag.not_mem rfl
        simp [hfree]
      have hclose := Markup.tokenize_tag hltclosing hgtclosing hclosing (ih hs hts)
      have hinner := ihchildren hclose (Markup.startsAnew_cons rfl _)
      have hopen := Markup.tokenize_tag hlt hgt he.readTag_body hinner
      rw [writeAll_element hvoid]
      simpa [outline, outlineBefore, Tree.tokensAll, Tree.tokens, hvoid] using hopen

end Child

/-- The markup of built nodes reads back as the nodes: the same tags, attributes with their values,
and children, all in their order. Lost are only the children of void elements, empty texts and the
borders between neighbouring texts. -/
theorem read_htmlOf {nodes : List Node} (h : ∀ n ∈ nodes, n.toChild.Built) :
    Markup.read (Node.htmlOf nodes) = some (nodes.map Node.outline) := by
  have hproper : Child.Proper (nodes.map Node.toChild) := by
    refine Child.proper_of_forall fun c hc => ?_
    obtain ⟨n, hn, rfl⟩ := List.mem_map.1 hc
    exact (h n hn).proper
  have htokens := Child.tokenize_writeAll hproper Markup.tokenize_nil (by simp [Markup.StartsAnew])
  rw [List.append_nil, List.append_nil] at htokens
  rw [← Child.outline_map_toChild]
  exact Markup.read_eq_some (Child.tidy_outline hproper) htokens

/-- Delimiters in a value and in texts are read as they were given. -/
theorem read_htmlOf_hostile :
    ∃ n : Node, n.toChild.Built ∧
      Node.htmlOf [n] = "<p title=\"&quot;&gt;&lt;b&gt;\">&lt;&amp;<br></p>" ∧
      Markup.read (Node.htmlOf [n]) =
        some [.element "p" [("title", "\"><b>")] [.text "<&", .element "br" [] []]] := by
  let s : Site := .ofSettings {} .silent 0
  let d : Document := { scope := 0 }
  have hpool : s.nodes.Reached := .empty 1024 Pool.nodeNames
  have hbr := Child.Built.create hpool (rfl : s.create d "br" = (.ok _, _))
  have hfilled := hbr.call (s := s) (c := .append [.text "lost"])
    (List.forall_mem_singleton.2 (.text _)) rfl
  have hp := Child.Built.create hpool (rfl : s.create d "P" = (.ok _, _))
  have htitle := hp.call (s := s) (c := .attr "Title" "\"><b>") nofun rfl
  have htext := htitle.call (s := s) (c := .append [.text "<", .text "", .text "&"])
    (by simp [Call.added, Child.Built.text]) rfl
  have hall := htext.call (s := s) (c := .append [_])
    (List.forall_mem_singleton.2 hfilled) rfl
  exact ⟨_, hall, rfl, read_htmlOf (List.forall_mem_singleton.2 hall)⟩

end Folio
