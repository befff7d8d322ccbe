import Folio.Proofs.Json.Fields
import Folio.Snapshot.Reading

/-! Heads come back from what is written of them, and so do the texts, lists and missing parts that
records are made of. -/
namespace Folio

open Json Json.Tree

/-! What is written of texts, options and lists -/

namespace Json

variable {α : Type} {read : Tree → Option α} {f : α → Json}

theorem texts?_ofTexts (m : Ordered String String) : texts? (ofTexts m).tree = some m :=
  map?_entries fun _ _ => rfl

theorem listOf?_array_map {as : List α} {k : α → α} (h : ∀ a ∈ as, read (f a).tree = some (k a)) :
    listOf? read (Json.array (as.map f)).tree = some (as.map k) := by
  have hall := allSome_map (f := read) (g := fun a => (f a).tree) (k := k) h
  rw [listOf?, tree, itemTrees_eq_map, List.map_map]
  exact hall

theorem listOf?_array {as : List α} (h : ∀ a ∈ as, read (f a).tree = some a) :
    listOf? read (Json.array (as.map f)).tree = some as := by
  simpa using listOf?_array_map (k := id) h

/-- A list that is left out when empty. -/
theorem orElse_listOf?_map {as : List α} {k : α → α} {items : List Json}
    (hitems : items = as.map f) (h : ∀ a ∈ as, read (f a).tree = some (k a)) :
    orElse [] (listOf? read)
      ((if items.isEmpty then none else some (Json.array items)).map tree) = some (as.map k) := by
  subst hitems
  cases as with
  | nil => rfl
  | cons a as => exact listOf?_array_map h

theorem orElse_listOf? {as : List α} {items : List Json} (hitems : items = as.map f)
    (h : ∀ a ∈ as, read (f a).tree = some a) :
    orElse [] (listOf? read)
      ((if items.isEmpty then none else some (Json.array items)).map tree) = some as := by
  simpa using orElse_listOf?_map (k := id) hitems h

/-- A map that is left out when empty. -/
theorem orElse_texts? (m : Ordered String String) :
    orElse .empty texts? ((if m.isEmpty then none else some (ofTexts m)).map tree) = some m := by
  split
  · next hempty =>
    obtain ⟨entries, hkeys⟩ := m
    obtain rfl : entries = [] := List.isEmpty_iff.1 hempty
    rfl
  · exact texts?_ofTexts m

/-- A text that is left out when missing. -/
theorem optionalText_map (o : Option String) :
    optionalText ((o.map Json.string).map tree) = some o := by
  cases o <;> rfl

/-- A text that is null when missing. -/
theorem optionalText_ofOption (o : Option String) :
    optionalText (some (ofOption .string o).tree) = some o := by
  cases o <;> rfl

def isNull : Json → Bool
  | .null => true
  | _ => false

/-- A value that is left out when missing. A value null is read as missing, too. -/
theorem optional_map {o : Option Json} {read : Tree → Option Json}
    (h : ∀ v ∈ o, read v.tree = some v) :
    optional read (o.map tree) = some (o.filter (!·.isNull)) := by
  cases o with
  | none => rfl
  | some v =>
    have hread : read v.tree = some v := h v rfl
    cases v with
    | null => rfl
    | bool b | number n | string s | array items | object members =>
      simp only [Option.map_some, tree] at hread ⊢
      rw [Tree.optional, hread]
      · rfl
      · exact nofun

theorem readsBack_object_iff {ms : List (String × Json)} :
    (Json.object ms).ReadsBack ↔ ∀ m ∈ ms, m.2.ReadsBack := membersReadBack_iff

theorem readsBack_array_iff {vs : List Json} :
    (Json.array vs).ReadsBack ↔ ∀ v ∈ vs, v.ReadsBack := itemsReadBack_iff

theorem readsBack_ofTexts (m : Ordered String String) : (ofTexts m).ReadsBack := by
  refine readsBack_object_iff.2 fun e he => ?_
  obtain ⟨a, -, rfl⟩ := List.mem_map.1 he
  trivial

theorem depth_ofTexts (m : Ordered String String) : (ofTexts m).depth ≤ 1 := by
  refine Nat.succ_le_succ (membersDepth_le_iff.2 fun e he => ?_)
  obtain ⟨a, -, rfl⟩ := List.mem_map.1 he
  exact Nat.le_refl 0

theorem readsBack_ofOption (o : Option String) : (ofOption .string o).ReadsBack := by
  cases o <;> trivial

theorem depth_ofOption (o : Option String) : (ofOption .string o).depth = 0 := by
  cases o <;> rfl

end Json

/-! Heads -/

namespace HeadTag

theorem readsBack_json (t : HeadTag) : t.json.ReadsBack := by
  cases t with
  | metaTag attributes | linkTag attributes =>
    exact ⟨trivial, readsBack_ofTexts attributes, trivial⟩
  | styleTag css => exact ⟨trivial, trivial, trivial⟩
  | scriptTag src body isModule =>
    exact ⟨trivial, readsBack_ofOption src, readsBack_ofOption body, trivial, trivial⟩

theorem depth_json (t : HeadTag) : t.json.depth ≤ 2 := by
  cases t with
  | metaTag attributes | linkTag attributes =>
    have hattributes := depth_ofTexts attributes
    simp only [json, depth, membersDepth]
    omega
  | styleTag css => exact Nat.le_succ 1
  | scriptTag src body isModule => simp [json, depth, membersDepth, depth_ofOption]

/-- The tag of the kind of a declaration. -/
def kind : HeadTag → String
  | .metaTag _ => "meta"
  | .linkTag _ => "link"
  | .styleTag _ => "style"
  | .scriptTag .. => "script"

/-- The fields of a declaration besides its kind. -/
def fields : HeadTag → List (String × Option Json)
  | .metaTag attributes | .linkTag attributes => [("attributes", some (ofTexts attributes))]
  | .styleTag css => [("css", some (.string css))]
  | .scriptTag src body isModule =>
    [("src", some (ofOption .string src)), ("body", some (ofOption .string body)),
      ("module", some (.bool isModule))]

theorem json_eq_present (t : HeadTag) :
    t.json = .object (("kind", .string t.kind) :: present t.fields) := by
  cases t <;> rfl

theorem ofContent?_present (t : HeadTag) :
    ofContent? t.kind (Json.object (present t.fields)).tree = some t := by
  cases t with
  | metaTag attributes =>
    have hrecord : (Json.object (present (metaTag attributes).fields)).tree.record?
        ["attributes"] = some [some (ofTexts attributes).tree] :=
      record?_present _ (by simp [fields])
    simp only [ofContent?, kind, if_pos, hrecord]
    simp [required, texts?_ofTexts]
  | linkTag attributes =>
    have hrecord : (Json.object (present (linkTag attributes).fields)).tree.record?
        ["attributes"] = some [some (ofTexts attributes).tree] :=
      record?_present _ (by simp [fields])
    simp only [ofContent?, kind, String.reduceEq, if_neg, if_pos, not_false_iff, hrecord]
    simp [required, texts?_ofTexts]
  | styleTag css =>
    have hrecord : (Json.object (present (styleTag css).fields)).tree.record? ["css"] =
        some [some (.string (some css))] := record?_present _ (by simp [fields])
    simp only [ofContent?, kind, String.reduceEq, if_neg, if_pos, not_false_iff, hrecord]
    rfl
  | scriptTag src body isModule =>
    have hrecord : (Json.object (present (scriptTag src body isModule).fields)).tree.record?
        ["src", "body", "module"] = some [some (ofOption .string src).tree,
          some (ofOption .string body).tree, some (.bool isModule)] :=
      record?_present _ (by simp [fields])
    simp only [ofContent?, kind, String.reduceEq, if_neg, not_false_iff, hrecord]
    simp [required, bool?, optionalText_ofOption]

theorem ofTree?_json {d : Nat} (hd : 2 ≤ d) (t : HeadTag) :
    HeadTag.ofTree? d t.json.tree = some t := by
  have hsound : t.json.tree.sound d = true :=
    sound_tree t.readsBack_json (Nat.le_trans t.depth_json hd)
  have hkind : t.kind ∈ ["meta", "link", "style", "script"] := by cases t <;> simp [kind]
  have hname : "kind" ∉ t.fields.map Prod.fst := by cases t <;> simp [fields]
  rw [ofTree?, if_pos hsound, json_eq_present, tagged?_present _ hkind hname, Option.bind_some]
  exact t.ofContent?_present

end HeadTag

theorem GlobalRule.ofTree?_json (r : GlobalRule) : GlobalRule.ofTree? r.json.tree = some r := by
  have hrecord : r.json.tree.record? ["selector", "rules"] =
      some [some (.string (some r.selector)), some (.string (some r.rules))] :=
    record?_present [("selector", some (.string r.selector)), ("rules", some (.string r.rules))]
      (by simp)
  rw [GlobalRule.ofTree?, hrecord]
  rfl

theorem Head.readsBack_json (h : Head) : h.json.ReadsBack := by
  have htags : (Json.array (h.tags.map HeadTag.json)).ReadsBack :=
    readsBack_array_iff.2 (List.forall_mem_map.2 fun t _ => t.readsBack_json)
  have hglobal : (Json.array (h.globalRules.map GlobalRule.json)).ReadsBack :=
    readsBack_array_iff.2 (List.forall_mem_map.2 fun _ _ => ⟨trivial, trivial, trivial⟩)
  exact ⟨readsBack_ofOption h.title, htags, readsBack_ofTexts h.namedRules, hglobal, trivial⟩

theorem Head.ofTree?_json (h : Head) : Head.ofTree? 1 h.json.tree = some h := by
  have hrecord : h.json.tree.record? ["title", "tags", "namedCss", "globalCss"] =
      some [some (ofOption .string h.title).tree,
        some (Json.array (h.tags.map HeadTag.json)).tree, some (ofTexts h.namedRules).tree,
        some (Json.array (h.globalRules.map GlobalRule.json)).tree] :=
    record?_present [("title", some (ofOption .string h.title)),
      ("tags", some (.array (h.tags.map HeadTag.json))),
      ("namedCss", some (ofTexts h.namedRules)),
      ("globalCss", some (.array (h.globalRules.map GlobalRule.json)))] (by simp)
  have htags : listOf? (HeadTag.ofTree? (depthLimit - 1 - 2))
      (Json.array (h.tags.map HeadTag.json)).tree = some h.tags :=
    listOf?_array fun t _ => t.ofTree?_json (by decide)
  have hglobal : listOf? GlobalRule.ofTree?
      (Json.array (h.globalRules.map GlobalRule.json)).tree = some h.globalRules :=
    listOf?_array fun r _ => r.ofTree?_json
  rw [Head.ofTree?, hrecord]
  simp only [optionalText_ofOption, orElse, htags, texts?_ofTexts, hglobal]
  rfl

end Folio
