import Folio.Page.Builder
import Folio.Site.Document

/-!
Commands of an author who works on a site. Documents, nodes and contexts go by names.
-/
namespace Folio.Desk

mutual

/-- Where a child comes from. -/
inductive Source where
  /-- A node that has a name; it loses the name. -/
  | named (node : String)
  | spec (s : Spec)
  | markup (html : String)
  /-- A text, or nothing. -/
  | text (content : Option String)

/-- A new element and the steps that build it. -/
inductive Spec where
  | mk (tag : String) (steps : List Step)

/-- A step in the building of a node. -/
inductive Step where
  | attr (name value : String)
  | id (value : String)
  | autoId
  | append (children : List Source)
  | css (declarations : List (String × String))
  | state (value : Except String Json)
  | computed (source : String)
  | bindText (key source : String)
  | listen (event source : String)
  /-- A listener that refers to another named node, which gets an id. -/
  | listenTo (target event source : String)
  | reset

end

instance : Inhabited Source := ⟨.text none⟩

instance : Inhabited Spec := ⟨.mk "" []⟩

instance : Inhabited Step := ⟨.reset⟩

/-- A command. -/
inductive Command where
  | document (doc : String) (options : CacheOptions)
  | create (doc node tag : String)
  | build (doc node : String) (spec : Spec)
  | add (doc : String) (spec : Spec)
  /-- A step on a named node; new children are made in `doc`. -/
  | step (doc node : String) (step : Step)
  | fresh (node : String)
  | clone (node copy : String)
  | compare (node other : String)
  | nest (doc node tag : String) (depth : Nat)
  | dropNode (node : String)
  | tree (node : String)
  | html (node : String)
  | htmlWith (node : String) (settings : Settings)
  | push (doc : String) (nodes : List String)
  | body (doc : String)
  | head (doc : String) (calls : List Head.Call)
  | states (doc : String)
  | clear (doc : String)
  | drop (doc : String)
  | render (doc : String)
  | snapshot (doc : String)
  | restore (doc text : String)
  | copy (doc target : String)
  | context (name : String) (nodes : List String) (settings : Option Settings) (reset : Bool)
  | cache (op : Cache.Operation String)
  | settings
  | statistics
  | reset

end Folio.Desk
