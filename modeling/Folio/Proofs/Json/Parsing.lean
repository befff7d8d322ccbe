import Folio.Proofs.Json.Lexing

/-! The text of a value reads as the syntax tree of the value: its tokens are those of the value,
and on the stack they build its tree. -/
namespace Folio.Json

mutual

/-- Holds of values all of whose numbers read back. -/
def ReadsBack : Json → Prop
  | .null | .bool _ | .string _ => True
  | .number n => n.ReadsBack
  | .array items => ItemsReadBack items
  | .object members => MembersReadBack members

def ItemsReadBack : List Json → Prop
  | [] => True
  | v :: vs => v.ReadsBack ∧ ItemsReadBack vs

def MembersReadBack : List (String × Json) → Prop
  | [] => True
  | (_, v) :: ms => v.ReadsBack ∧ MembersReadBack ms

end

theorem itemsReadBack_iff {vs : List Json} : ItemsReadBack vs ↔ ∀ v ∈ vs, v.ReadsBack := by
  induction vs with
  | nil => simp [ItemsReadBack]
  | cons v vs ih => rw [ItemsReadBack, ih, List.forall_mem_cons]

theorem membersReadBack_iff {ms : List (String × Json)} :
    MembersReadBack ms ↔ ∀ m ∈ ms, m.2.ReadsBack := by
  induction ms with
  | nil => simp [MembersReadBack]
  | cons m ms ih => rw [MembersReadBack, ih, List.forall_mem_cons]

mutual

/-- Holds of values all of whose numbers have a property. -/
def EachNumber (P : Number → Prop) : Json → Prop
  | .null | .bool _ | .string _ => True
  | .number n => P n
  | .array items => EachItemNumber P items
  | .object members => EachMemberNumber P members

def EachItemNumber (P : Number → Prop) : List Json → Prop
  | [] => True
  | v :: vs => v.EachNumber P ∧ EachItemNumber P vs

def EachMemberNumber (P : Number → Prop) : List (String × Json) → Prop
  | [] => True
  | (_, v) :: ms => v.EachNumber P ∧ EachMemberNumber P ms

end

mutual

theorem EachNumber.imp {P Q : Number → Prop} (hPQ : ∀ n, P n → Q n) {v : Json}
    (h : v.EachNumber P) : v.EachNumber Q := by
  match v with
  | .null | .bool _ | .string _ => trivial
  | .number n => exact hPQ n h
  | .array items => exact EachItemNumber.imp hPQ h
  | .object members => exact EachMemberNumber.imp hPQ h

theorem EachItemNumber.imp {P Q : Number → Prop} (hPQ : ∀ n, P n → Q n) {vs : List Json}
    (h : EachItemNumber P vs) : EachItemNumber Q vs := by
  match vs with
  | [] => trivial
  | v :: vs => exact ⟨EachNumber.imp hPQ h.1, EachItemNumber.imp hPQ h.2⟩

theorem EachMemberNumber.imp {P Q : Number → Prop} (hPQ : ∀ n, P n → Q n)
    {ms : List (String × Json)} (h : EachMemberNumber P ms) : EachMemberNumber Q ms := by
  match ms with
  | [] => trivial
  | (k, v) :: ms => exact ⟨EachNumber.imp hPQ h.1, EachMemberNumber.imp hPQ h.2⟩

end

/-- Holds of values all of whose numbers are written as number literals. -/
abbrev Legible (v : Json) : Prop := v.EachNumber Number.Legible

mutual

theorem ReadsBack.legible {v : Json} (h : v.ReadsBack) : v.Legible := by
  match v with
  | .null | .bool _ | .string _ => trivial
  | .number n => exact Number.ReadsBack.legible h
  | .array items => exact ItemsReadBack.legible h
  | .object members => exact MembersReadBack.legible h

theorem ItemsReadBack.legible {vs : List Json} (h : ItemsReadBack vs) :
    EachItemNumber Number.Legible vs := by
  match vs with
  | [] => trivial
  | v :: vs => exact ⟨h.1.legible, ItemsReadBack.legible h.2⟩

theorem MembersReadBack.legible {ms : List (String × Json)} (h : MembersReadBack ms) :
    EachMemberNumber Number.Legible ms := by
  match ms with
  | [] => trivial
  | (k, v) :: ms => exact ⟨h.1.legible, MembersReadBack.legible h.2⟩

end

/-- The comma before every item but the first. -/
def commaTokens (isFirst : Bool) : List Token := if isFirst then [] else [.comma]

mutual

/-- The tokens that a value is written as. -/
def tokens : Json → List Token
  | .null => [.word ['n', 'u', 'l', 'l']]
  | .bool true => [.word ['t', 'r', 'u', 'e']]
  | .bool false => [.word ['f', 'a', 'l', 's', 'e']]
  | .number n => [.number n.literal]
  | .string s => [.string (some s)]
  | .array items => .leftBracket :: (itemTokens true items ++ [.rightBracket])
  | .object members => .leftBrace :: (memberTokens true members ++ [.rightBrace])

def itemTokens (isFirst : Bool) : List Json → List Token
  | [] => []
  | v :: vs => commaTokens isFirst ++ (v.tokens ++ itemTokens false vs)

def memberTokens (isFirst : Bool) : List (String × Json) → List Token
  | [] => []
  | (k, v) :: ms =>
    commaTokens isFirst ++ (.string (some k) :: .colon :: (v.tokens ++ memberTokens false ms))

end

mutual

/-- The syntax tree that a value is written as. -/
def tree : Json → Tree
  | .null => .null
  | .bool b => .bool b
  | .number n => .number n.literal
  | .string s => .string (some s)
  | .array items => .array (itemTrees items)
  | .object members => .object (memberTrees members)

def itemTrees : List Json → List Tree
  | [] => []
  | v :: vs => v.tree :: itemTrees vs

def memberTrees : List (String × Json) → List (Option String × Tree)
  | [] => []
  | (k, v) :: ms => (some k, v.tree) :: memberTrees ms

end

theorem itemTrees_eq_map (vs : List Json) : itemTrees vs = vs.map tree := by
  induction vs with
  | nil => rfl
  | cons v vs ih => rw [itemTrees, ih, List.map_cons]

theorem memberTrees_eq_map (ms : List (String × Json)) :
    memberTrees ms = ms.map fun m => (some m.1, m.2.tree) := by
  induction ms with
  | nil => rfl
  | cons m ms ih => rw [memberTrees, ih, List.map_cons]

/-! From text to tokens -/

open Token (Cut Settles settles_between settles_word settles_number punctuation?)

variable {done s : List Char} {cut cut' : Cut} {ts : List Token} {c : Char} {t : Token}

/-- Where the cutting of a text stands, the text reversed. -/
def Cuts (done : List Char) (cut : Cut) : Prop :=
  done.reverse.foldlM Token.feed ⟨[], .between⟩ = some cut

theorem Cuts.append (h : Cuts done cut) (hs : s.foldlM Token.feed cut = some cut') :
    Cuts (s.reverseAux done) cut' := by
  unfold Cuts at h ⊢
  rw [List.reverseAux_eq, List.reverse_append, List.reverse_reverse, List.foldlM_append, h]
  exact hs

/-- The cutting of a text settles on tokens, both reversed. -/
def CutsTo (done : List Char) (ts : List Token) : Prop := ∃ cut, Cuts done cut ∧ Settles cut ts

theorem Cuts.cutsTo (h : Cuts done ⟨ts, .between⟩) : CutsTo done ts := ⟨_, h, settles_between ts⟩

theorem CutsTo.punctuation (h : CutsTo done ts) (hc : punctuation? c = some t) :
    Cuts (c :: done) ⟨t :: ts, .between⟩ := by
  obtain ⟨cut, hcut, hsettles⟩ := h
  exact hcut.append (s := [c]) (by simp [hsettles.feed c t hc])

/-- The text so far allows for an item: it is the first one, or those before it are complete. -/
def Allows (isFirst : Bool) (done : List Char) (ts : List Token) : Prop :=
  if isFirst then Cuts done ⟨ts, .between⟩ else CutsTo done ts

theorem Allows.separate {isFirst : Bool} (h : Allows isFirst done ts) :
    Cuts (separate isFirst done) ⟨(commaTokens isFirst).reverse ++ ts, .between⟩ := by
  cases isFirst with
  | true => exact h
  | false => exact CutsTo.punctuation h rfl

theorem Allows.cutsTo {isFirst : Bool} (h : Allows isFirst done ts) : CutsTo done ts := by
  cases isFirst with
  | true => exact Cuts.cutsTo h
  | false => exact h

mutual

/-- A value is written as its tokens. -/
theorem cutsTo_write {v : Json} (hv : v.Legible) {done : List Char} {ts : List Token}
    (h : Cuts done ⟨ts, .between⟩) : CutsTo (v.write done) (v.tokens.reverse ++ ts) := by
  match v with
  | .null => exact ⟨_, h.append (s := ['n', 'u', 'l', 'l']) rfl, settles_word _ ts⟩
  | .bool true => exact ⟨_, h.append (s := ['t', 'r', 'u', 'e']) rfl, settles_word _ ts⟩
  | .bool false => exact ⟨_, h.append (s := ['f', 'a', 'l', 's', 'e']) rfl, settles_word _ ts⟩
  | .number n =>
    obtain ⟨cut, hcut, hsettles⟩ := Token.foldlM_literal hv ts
    exact ⟨cut, h.append hcut, hsettles⟩
  | .string s => exact (h.append (Token.foldlM_stringChars s ts)).cutsTo
  | .array items =>
    have hitems : EachItemNumber Number.Legible items := hv
    have hopen : Cuts ('[' :: done) ⟨.leftBracket :: ts, .between⟩ := h.cutsTo.punctuation rfl
    have hall := (cutsTo_writeItems true hitems hopen).punctuation
      (c := ']') (t := .rightBracket) rfl
    simpa [tokens, write] using hall.cutsTo
  | .object members =>
    have hmembers : EachMemberNumber Number.Legible members := hv
    have hopen : Cuts ('\x7b' :: done) ⟨.leftBrace :: ts, .between⟩ := h.cutsTo.punctuation rfl
    have hall := (cutsTo_writeMembers true hmembers hopen).punctuation
      (c := '\x7d') (t := .rightBrace) rfl
    simpa [tokens, write] using hall.cutsTo

theorem cutsTo_writeItems (isFirst : Bool) {vs : List Json}
    (hvs : EachItemNumber Number.Legible vs) {done : List Char} {ts : List Token}
    (h : Allows isFirst done ts) :
    CutsTo (writeItems isFirst done vs) ((itemTokens isFirst vs).reverse ++ ts) := by
  match vs with
  | [] => exact h.cutsTo
  | v :: vs =>
    have hv : CutsTo (v.write (separate isFirst done)) _ := cutsTo_write hvs.1 h.separate
    simpa [itemTokens, writeItems] using cutsTo_writeItems false hvs.2 hv

theorem cutsTo_writeMembers (isFirst : Bool) {ms : List (String × Json)}
    (hms : EachMemberNumber Number.Legible ms) {done : List Char} {ts : List Token}
    (h : Allows isFirst done ts) :
    CutsTo (writeMembers isFirst done ms) ((memberTokens isFirst ms).reverse ++ ts) := by
  match ms with
  | [] => exact h.cutsTo
  | (k, v) :: ms =>
    have hkey := (h.separate.append (Token.foldlM_stringChars k _)).cutsTo.punctuation
      (c := ':') (t := .colon) rfl
    have hv := cutsTo_write hms.1 hkey
    simpa [memberTokens, writeMembers] using cutsTo_writeMembers false hms.2 hv

end

/-- The tokens of the text of a value. -/
theorem ofChars_text {v : Json} (hv : v.Legible) :
    Token.ofChars? v.text.toList = some v.tokens := by
  have hempty : Cuts [] ⟨[], .between⟩ := rfl
  obtain ⟨cut, hcut, hsettles⟩ := cutsTo_write hv hempty
  have hfinish := hsettles.finish
  rw [List.append_nil, List.reverse_reverse] at hfinish
  unfold Cuts at hcut
  rw [Token.ofChars?, text, String.toList_ofList, hcut]
  exact hfinish

/-! From tokens to a tree -/

namespace Tree

variable {frames : List Frame}

/-- The stack allows for an item: it is the first one, or a comma comes before it. -/
def itemGrowth (isFirst : Bool) (items : List Tree) (frames : List Frame) : Growth :=
  ⟨.array items :: frames, if isFirst then .value true else .next, none⟩

/-- The stack allows for a member: it is the first one, or a comma comes before it. -/
def memberGrowth (isFirst : Bool) (members : List (Option String × Tree)) (frames : List Frame) :
    Growth :=
  ⟨.object members :: frames, if isFirst then .key true else .next, none⟩

mutual

/-- The tokens of a value build its tree in the innermost frame. -/
theorem grow_tokens (v : Json) (closable : Bool) (frames : List Frame) :
    v.tokens.foldlM grow ⟨frames, .value closable, none⟩ = some (complete frames v.tree) := by
  match v with
  | .null => cases closable <;> rfl
  | .bool true => cases closable <;> rfl
  | .bool false => cases closable <;> rfl
  | .number n => cases closable <;> rfl
  | .string s => cases closable <;> rfl
  | .array items =>
    have hopen : grow ⟨frames, .value closable, none⟩ .leftBracket =
        some (itemGrowth true [] frames) := by cases closable <;> rfl
    have hitems := grow_itemTokens true items [] frames (fun _ => rfl)
    rw [tokens, List.foldlM_cons, hopen]
    exact hitems
  | .object members =>
    have hopen : grow ⟨frames, .value closable, none⟩ .leftBrace =
        some (memberGrowth true [] frames) := by cases closable <;> rfl
    have hmembers := grow_memberTokens true members [] frames (fun _ => rfl)
    rw [tokens, List.foldlM_cons, hopen]
    exact hmembers

theorem grow_itemTokens (isFirst : Bool) (vs : List Json) (items : List Tree)
    (frames : List Frame) (hfirst : isFirst = true → items = []) :
    (itemTokens isFirst vs ++ [Token.rightBracket]).foldlM grow (itemGrowth isFirst items frames) =
      some (complete frames (.array (items.reverse ++ itemTrees vs))) := by
  match vs with
  | [] =>
    cases isFirst with
    | true =>
      obtain rfl := hfirst rfl
      rfl
    | false => simp [itemTokens, itemTrees, itemGrowth, grow]
  | v :: vs =>
    have hcomma : ∃ closable, (commaTokens isFirst).foldlM grow (itemGrowth isFirst items frames) =
        some ⟨.array items :: frames, .value closable, none⟩ := by
      cases isFirst with
      | true => exact ⟨true, rfl⟩
      | false => exact ⟨false, rfl⟩
    obtain ⟨closable, hcomma⟩ := hcomma
    have hv := grow_tokens v closable (.array items :: frames)
    have hvs := grow_itemTokens false vs (v.tree :: items) frames nofun
    rw [itemTokens, List.append_assoc, List.append_assoc, List.foldlM_append, hcomma]
    simp only [Option.bind_eq_bind, Option.bind_some, List.foldlM_append, hv]
    rw [List.foldlM_append] at hvs
    simpa [complete, itemGrowth, itemTrees] using hvs

theorem grow_memberTokens (isFirst : Bool) (ms : List (String × Json))
    (members : List (Option String × Tree)) (frames : List Frame)
    (hfirst : isFirst = true → members = []) :
    (memberTokens isFirst ms ++ [Token.rightBrace]).foldlM grow
        (memberGrowth isFirst members frames) =
      some (complete frames (.object (members.reverse ++ memberTrees ms))) := by
  match ms with
  | [] =>
    cases isFirst with
    | true =>
      obtain rfl := hfirst rfl
      rfl
    | false => simp [memberTokens, memberTrees, memberGrowth, grow]
  | (k, v) :: ms =>
    have hkey : (commaTokens isFirst ++ [Token.string (some k), Token.colon]).foldlM grow
        (memberGrowth isFirst members frames) =
          some ⟨.member members (some k) :: frames, .value false, none⟩ := by
      cases isFirst <;> rfl
    have hv := grow_tokens v false (.member members (some k) :: frames)
    have hms := grow_memberTokens false ms ((some k, v.tree) :: members) frames nofun
    have hsplit : memberTokens isFirst ((k, v) :: ms) ++ [.rightBrace] =
        (commaTokens isFirst ++ [.string (some k), .colon]) ++
          (v.tokens ++ (memberTokens false ms ++ [.rightBrace])) := by
      simp [memberTokens]
    rw [hsplit, List.foldlM_append, hkey]
    simp only [Option.bind_eq_bind, Option.bind_some]
    rw [List.foldlM_append, hv]
    simpa [complete, memberGrowth, memberTrees] using hms

end

/-- The tokens of a value build its syntax tree. -/
theorem ofTokens?_tokens (v : Json) : ofTokens? v.tokens = some v.tree := by
  rw [ofTokens?, grow_tokens v false []]
  rfl

/-- The text of a value reads as its syntax tree. -/
theorem read?_text {v : Json} (hv : v.ReadsBack) : Tree.read? v.text = some v.tree := by
  rw [Tree.read?, ofChars_text hv.legible, Option.bind_some, ofTokens?_tokens]

end Tree

end Folio.Json
