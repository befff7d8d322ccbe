import Folio.Page.Head
import Folio.Settings.Basic

/-!
The fixed frame of a page around its rendered parts.
-/
namespace Folio

/-- The rendered parts of a page. -/
structure PageParts where
  head : Head := {}
  styles : List String := []
  body : String := ""
  script : String := ""

namespace PageParts

variable (p : PageParts)

/-- The style elements of the page: document-level style and scoped rules, each if there is any. -/
def styleElements : String :=
  let css := p.head.css
  (if css.isEmpty then "" else "<style>" ++ Text.embed css ++ "</style>\n")
    ++ (if p.styles.isEmpty then "" else "<style>" ++ String.join p.styles ++ "</style>\n")

def scriptElement : String :=
  if p.script.isEmpty then "" else "<script>" ++ p.script ++ "</script>\n"

/-- The whole page in a language. -/
def wrap (lang : String) : String :=
  String.join ["<!DOCTYPE html>\n", "<html lang=\"", Text.escape lang, "\">\n", "<head>\n",
    "<meta charset=\"UTF-8\">\n",
    "<meta name=\"viewport\" content=\"width=device-width, initial-scale=1.0\">\n",
    p.head.html, p.styleElements, "</head>\n", "<body>\n", p.body, "\n", p.scriptElement,
    "</body>\n", "</html>"]

end PageParts

end Folio
