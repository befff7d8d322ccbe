import Folio.Proofs.Page.Fragments
import Folio.Proofs.Page.Hydration
import Folio.Proofs.Site.Made

/-! Pages of documents that authors make: each raw element that the frame writes ends where the frame
closed it. -/
namespace Folio.Site

variable (s : Site)

/-- The parts of the page of a document: what a rendering with an empty context collects. -/
def parts (d : Document) : PageParts :=
  let collected := (Context.collect s.settings d.body {}).1
  ⟨d.head, collected.styles, Node.htmlOf d.body, (Hydration.compile collected s.settings).1⟩

/-- Whatever the context of a rendering was used for before, the page is the frame around the parts
of its own document. -/
theorem renderPage_eq_wrap {s : Site} (h : s.contexts.Reached) (d : Document) :
    (s.renderPage d.head d.body).1 =
      if s.settings.shouldMinify then Markup.minify ((s.parts d).wrap s.settings.lang)
      else (s.parts d).wrap s.settings.lang := by
  have hfresh : s.contexts.acquire.1 = {} := h.acquire_eq_fresh
  simp only [renderPage, renderInto, hfresh]
  rfl

theorem sealed_parts {d : Document} (hd : d.Made) (lang : String) :
    ∀ f ∈ (s.parts d).fragments lang, f.Sealed := by
  have hcollected := Context.guarded_collect s.settings (hd.each Element.kept_guarded)
  exact (s.parts d).sealed_fragments hcollected.styles
    (Hydration.isClean_compile hcollected s.settings) lang

/-- The page of a document that authors make is a sequence of fragments in which every raw element
ends at its own closing tag, if pages are not minified. -/
theorem renderPage_sealed {s : Site} {d : Document} (hcontexts : s.contexts.Reached) (hd : d.Made)
    (hminify : s.settings.shouldMinify = false) :
    (s.renderPage d.head d.body).1 = Fragment.textOf ((s.parts d).fragments s.settings.lang) ∧
      ∀ f ∈ (s.parts d).fragments s.settings.lang, f.Sealed := by
  refine ⟨?_, s.sealed_parts hd s.settings.lang⟩
  rw [renderPage_eq_wrap hcontexts d, hminify, PageParts.textOf_fragments]
  rfl

/-- A page with closing tags in its style, its inline script and its state. -/
theorem renderPage_sealed_hostile :
    ∃ (s : Site) (d : Document), s.contexts.Reached ∧ d.Made ∧ s.settings.shouldMinify = false ∧
      d.head.css = "</style>" ∧
      d.head.tags.map HeadTag.html = ["<script><\\/SCRIPT><\\!--</script>\n"] ∧
      d.body.map (·.state.map Json.text) = [some "\"</script>\""] ∧
      (s.renderPage d.head d.body).1 = Fragment.textOf ((s.parts d).fragments s.settings.lang) ∧
      ∀ f ∈ (s.parts d).fragments s.settings.lang, f.Sealed := by
  let s : Site := .ofSettings {} .silent 0
  have hpool : s.nodes.Reached := .empty 1024 Pool.nodeNames
  have hcontexts : s.contexts.Reached := .empty 64 Pool.contextNames
  have hempty := Document.Made.new (rfl : s.newDocument {} = _)
  have hhead := hempty.head [.named "page" "</style>", .inlineScript "</SCRIPT><!--"]
  have hp := Child.Made.create hpool (rfl : s.create (s.newDocument {}).1 "p" = (.ok _, _))
  have hstate := hp.call (s := s) (c := .state (.ok (.string "</script>"))) nofun rfl
  have hlisten := hstate.call (s := s) (c := .listen "click" (some "/script>") "f('<__TARGET_ID__')")
    nofun rfl
  have hpushed := hhead.push (List.forall_mem_singleton.2 hlisten)
  exact ⟨s, _, hcontexts, hpushed, rfl, rfl, rfl, rfl, renderPage_sealed hcontexts hpushed rfl⟩

end Folio.Site
