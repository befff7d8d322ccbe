import Folio.Markup.Tag
import Folio.Proofs.Text.Escape
import Folio.Proofs.Text.Pieces

/-! Reading markup back: it is cut at `<` and `>` into tags and texts, entities are decoded, and an
element stays open until its closing tag unless it is void. -/
namespace Folio.Markup

/-- What a reader makes of markup. -/
inductive Tree where
  | element (tag : String) (attributes : List (String × String)) (children : List Tree)
  | text (s : String)

inductive Token where
  | opening (tag : String) (attributes : List (String × String))
  | closing (tag : String)
  | text (s : String)
  deriving DecidableEq, Repr

/-- Reads attributes from the pieces between double quotes, by turns ` name=` and a value. -/
def readAttributes : List (List Char) → Option (List (String × String))
  | [[]] => some []
  | (' ' :: name) :: value :: pieces =>
    match Text.splitAt? '=' name with
    | some (name, []) =>
      (readAttributes pieces).map ((String.ofList name, Text.unescape value) :: ·)
    | _ => none
  | _ => none

/-- Reads what stands between `<` and `>`. -/
def readTag : List Char → Option Token
  | '/' :: name => some (.closing (String.ofList name))
  | body =>
    (readAttributes (Text.splitOn '"' (body.dropWhile (· != ' ')))).map
      (Token.opening (String.ofList (body.takeWhile (· != ' '))))

/-- A text between tags is a token unless it is empty. -/
def readText (s : List Char) : List Token := if s = [] then [] else [.text (Text.unescape s)]

/-- Reads pieces that each follow a `<`: a tag, its `>` and the text after it. -/
def readPieces : List (List Char) → Option (List Token)
  | [] => some []
  | piece :: pieces =>
    match Text.splitOn '>' piece with
    | [body, text] =>
      match readTag body, readPieces pieces with
      | some t, some ts => some (t :: (readText text ++ ts))
      | _, _ => none
    | _ => none

/-- The tags and texts of markup. A `<` that no `>` follows, or a `>` that ends no tag, is an error.
-/
def tokenize (s : List Char) : Option (List Token) :=
  match Text.splitOn '<' s with
  | [] => none
  | text :: pieces =>
    if '>' ∈ text then none else (readPieces pieces).map (readText text ++ ·)

/-- An open element: what its tag said, and what stands before it, the last first. -/
structure Frame where
  tag : String
  attributes : List (String × String)
  before : List Tree

/-- A reader between two tokens: what was read of the innermost open element, the last first, and
the open elements, the innermost first. -/
structure Reader where
  done : List Tree := []
  frames : List Frame := []

/-- Takes in one token. A closing tag has to match the innermost open element. -/
def Reader.step (r : Reader) : Token → Option Reader
  | .text s => some { r with done := .text s :: r.done }
  | .opening tag attributes =>
    if Tag.isVoid tag then some { r with done := .element tag attributes [] :: r.done }
    else some ⟨[], ⟨tag, attributes, r.done⟩ :: r.frames⟩
  | .closing tag =>
    match r.frames with
    | [] => none
    | f :: frames =>
      if f.tag = tag then some ⟨.element tag f.attributes r.done.reverse :: f.before, frames⟩
      else none

/-- What a reader has read when nothing is left open. -/
def Reader.result? (r : Reader) : Option (List Tree) :=
  if r.frames.isEmpty then some r.done.reverse else none

/-- Reads markup. -/
def read (html : String) : Option (List Tree) :=
  match tokenize html.toList with
  | some ts => (ts.foldlM Reader.step {}).bind Reader.result?
  | none => none

/-! Cutting into tokens -/

def Token.isText : Token → Bool
  | .text _ => true
  | _ => false

/-- Puts a text before tokens: it runs on into a text, and an empty text is none. -/
def addText (s : String) : List Token → List Token
  | .text t :: ts => .text (s ++ t) :: ts
  | ts => if s = "" then ts else .text s :: ts

/-- Tokens that do not go on a text which stands before them. -/
def StartsAnew (ts : List Token) : Prop := ∀ t ∈ ts.head?, t.isText = false

theorem startsAnew_cons {t : Token} (h : t.isText = false) (ts : List Token) :
    StartsAnew (t :: ts) := by
  simpa [StartsAnew] using h

theorem addText_of_startsAnew {s : String} {ts : List Token} (h : StartsAnew ts) :
    addText s ts = if s = "" then ts else .text s :: ts := by
  unfold addText
  split
  · simp [StartsAnew, Token.isText] at h
  · rfl

@[simp] theorem readText_nil : readText [] = [] := rfl

theorem isText_of_readTag {body : List Char} {t : Token} (h : readTag body = some t) :
    t.isText = false := by
  unfold readTag at h
  split at h
  · obtain rfl := Option.some.inj h
    rfl
  · obtain ⟨attributes, -, rfl⟩ := Option.map_eq_some_iff.1 h
    rfl

theorem startsAnew_of_readPieces {pieces : List (List Char)} {ts : List Token}
    (h : readPieces pieces = some ts) : StartsAnew ts := by
  cases pieces with
  | nil =>
    obtain rfl := Option.some.inj h
    simp [StartsAnew]
  | cons piece pieces =>
    simp only [readPieces] at h
    split at h
    · split at h
      · next t rest ht _ =>
        obtain rfl := Option.some.inj h
        exact startsAnew_cons (isText_of_readTag ht) _
      · cases h
    · cases h

/-- An escaped text in front of a text is read as one text with it. -/
theorem readText_escape_append (x : String) (text : List Char) {ts : List Token}
    (h : StartsAnew ts) :
    readText (Text.escapeChars x.toList ++ text) ++ ts = addText x (readText text ++ ts) := by
  by_cases htext : text = []
  · subst htext
    rw [List.append_nil, readText_nil, List.nil_append, addText_of_startsAnew h, readText,
      Text.unescape_escapeChars]
    by_cases hx : x = ""
    · subst hx
      rfl
    · have hescaped : Text.escapeChars x.toList ≠ [] := by
        rw [Ne, Text.escapeChars_eq_nil_iff, String.toList_eq_nil_iff]
        exact hx
      rw [if_neg hx, if_neg hescaped]
      rfl
  · have hlong : Text.escapeChars x.toList ++ text ≠ [] := by simp [htext]
    rw [readText, if_neg hlong, readText, if_neg htext, Text.unescape,
      Text.unescapeChars_escapeChars_append, String.ofList_append, String.ofList_toList]
    rfl

theorem tokenize_eq_some {s : List Char} {ts : List Token} (h : tokenize s = some ts) :
    ∃ text pieces rest, Text.splitOn '<' s = text :: pieces ∧ '>' ∉ text ∧
      readPieces pieces = some rest ∧ ts = readText text ++ rest := by
  unfold tokenize at h
  split at h
  · cases h
  · next text pieces hs =>
    split at h
    · cases h
    · next htext =>
      obtain ⟨rest, hrest, rfl⟩ := Option.map_eq_some_iff.1 h
      exact ⟨text, pieces, rest, hs, htext, hrest, rfl⟩

@[simp] theorem tokenize_nil : tokenize [] = some [] := rfl

/-- A tag in front is one more token, and changes none of the others. -/
theorem tokenize_tag {body s : List Char} {t : Token} {ts : List Token} (hlt : '<' ∉ body)
    (hgt : '>' ∉ body) (ht : readTag body = some t) (hs : tokenize s = some ts) :
    tokenize ('<' :: (body ++ '>' :: s)) = some (t :: ts) := by
  obtain ⟨text, pieces, rest, hsplit, htext, hrest, rfl⟩ := tokenize_eq_some hs
  have hpiece : Text.splitOn '>' (body ++ '>' :: text) = [body, text] := by
    rw [Text.splitOn_append_cons hgt, Text.splitOn_of_not_mem htext]
  have hcut : Text.splitOn '<' (body ++ '>' :: s) = (body ++ '>' :: text) :: pieces := by
    have hbody : '<' ∉ body ++ ['>'] := by simpa using hlt
    simpa using Text.splitOn_append hbody hsplit
  simp [tokenize, hcut, readPieces, hpiece, ht, hrest]

/-- An escaped text in front runs on into a text, and changes nothing else. -/
theorem tokenize_escape (x : String) {s : List Char} {ts : List Token}
    (hs : tokenize s = some ts) :
    tokenize (Text.escapeChars x.toList ++ s) = some (addText x ts) := by
  obtain ⟨text, pieces, rest, hsplit, htext, hrest, rfl⟩ := tokenize_eq_some hs
  have hlt : '<' ∉ Text.escapeChars x.toList := fun h => (Text.ne_of_mem_escapeChars h).1 rfl
  have hgt : '>' ∉ Text.escapeChars x.toList ++ text := by
    rw [List.mem_append, not_or]
    exact ⟨fun h => (Text.ne_of_mem_escapeChars h).2.1 rfl, htext⟩
  rw [tokenize, Text.splitOn_append hlt hsplit]
  simp only [if_neg hgt, hrest, Option.map_some,
    readText_escape_append x text (startsAnew_of_readPieces hrest)]
/-! Building trees from tokens -/

namespace Tree

mutual

/-- The tokens that a tree is read from. -/
def tokens : Tree → List Token
  | .text s => [.text s]
  | .element tag attributes children =>
    .opening tag attributes ::
      if Tag.isVoid tag then [] else tokensAll children ++ [.closing tag]

def tokensAll : List Tree → List Token
  | [] => []
  | t :: ts => t.tokens ++ tokensAll ts

end

def isText : Tree → Bool
  | .text _ => true
  | .element .. => false

/-- Trees in which void elements hold nothing, no text is empty and none stands next to another. -/
inductive Tidy : List Tree → Prop
  | nil : Tidy []
  | text {s : String} (hs : s ≠ "") {ts : List Tree} (hts : ∀ t ∈ ts.head?, t.isText = false)
      (h : Tidy ts) : Tidy (.text s :: ts)
  | void {tag : String} (hvoid : Tag.isVoid tag = true) (attributes : List (String × String))
      {ts : List Tree} (h : Tidy ts) : Tidy (.element tag attributes [] :: ts)
  | element {tag : String} (hvoid : Tag.isVoid tag = false) (attributes : List (String × String))
      {children ts : List Tree} (hchildren : Tidy children) (h : Tidy ts) :
      Tidy (.element tag attributes children :: ts)

end Tree

/-- A reader takes the tokens of trees for the trees, wherever it stands. -/
theorem foldlM_step_tokensAll {ts : List Tree} (h : Tree.Tidy ts) (r : Reader) :
    (Tree.tokensAll ts).foldlM Reader.step r = some { r with done := ts.reverse ++ r.done } := by
  induction h generalizing r with
  | nil => rfl
  | text _ _ _ ih =>
    simp [Tree.tokensAll, Tree.tokens, List.foldlM_cons, Reader.step, ih]
  | void hvoid attributes _ ih =>
    simp [Tree.tokensAll, Tree.tokens, List.foldlM_cons, Reader.step, hvoid, ih]
  | element hvoid attributes _ _ ihchildren ih =>
    -- the children are read onto an empty level, which the closing tag folds into the one below
    simp [Tree.tokensAll, Tree.tokens, List.foldlM_cons, Reader.step, hvoid, ihchildren, ih]

theorem read_eq_some {html : String} {ts : List Tree} (h : Tree.Tidy ts)
    (htokens : tokenize html.toList = some (Tree.tokensAll ts)) : read html = some ts := by
  simp [read, htokens, foldlM_step_tokensAll h, Reader.result?]

end Folio.Markup
