import CardRules.Category

/-!
Templates, the static descriptions that cards are made from, and catalogs of them.
-/

namespace CardRules

/-- A property that the cards of a template start with. -/
structure PropertyDefault where
  name : String
  base : Float
deriving DecidableEq

/-- What the cards of one id start with. `parts` lists the ids of the cards that each of them is
assembled from. -/
structure Template where
  id : String
  name : String := id
  description : String := ""
  category : Category
  tags : List String := []
  properties : List PropertyDefault := []
  parts : List String := []
deriving DecidableEq

/-- Templates by id, no two with the same id. -/
structure Catalog where
  templates : List Template := []
  nodup : (templates.map (·.id)).Nodup := by decide

namespace Catalog

instance : EmptyCollection Catalog := ⟨{}⟩

/-- The template of an id. -/
def find? (catalog : Catalog) (id : String) : Option Template :=
  catalog.templates.find? (·.id = id)

/-- Whether an id has a template. -/
def contains (catalog : Catalog) (id : String) : Bool := (catalog.find? id).isSome

/-- The number of templates. -/
def size (catalog : Catalog) : Nat := catalog.templates.length

/-- The catalog with a template, which takes the place of one with the same id. -/
def add (catalog : Catalog) (template : Template) : Catalog where
  templates := template :: catalog.templates.filter (·.id ≠ template.id)
  nodup := by
    refine List.nodup_cons.2 ⟨?_, ?_⟩
    · simp
    · exact (List.filter_sublist.map _).nodup catalog.nodup

/-- The catalog of a list of templates; of two with the same id the later one stands. -/
def ofList (templates : List Template) : Catalog := templates.foldl add ∅

@[simp] theorem find?_empty (id : String) : (∅ : Catalog).find? id = none := rfl

theorem find?_add (catalog : Catalog) (template : Template) (id : String) :
    (catalog.add template).find? id = if id = template.id then some template else catalog.find? id := by
  by_cases h : id = template.id
  · simp [find?, add, h]
  · have hid : ¬ template.id = id := fun h' => h h'.symm
    simp only [find?, add, List.find?_cons, hid, decide_false, h, if_false]
    rw [List.find?_filter]
    congr 1
    funext other
    by_cases ho : other.id = id
    · simp [ho, h]
    · simp [ho]

end Catalog

end CardRules
