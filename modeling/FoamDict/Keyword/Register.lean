import FoamDict.Keyword.Suggestion

/-!
# The tables of a catalog

A catalog is kept in two tables, one of categories and one of documentation texts. Each table
remembers the order in which its identifiers were entered, and everything that is listed is listed
from these orders by looking the identifiers up again. The sections are read once, in order: an
identifier that is listed again leaves its table as it is, one that is documented again is a fault.
-/

namespace FoamDict.Keyword

open FoamDict.Highlight (Category)

/-- A table that remembers the order of its identifiers. -/
structure Table (α : Type) where
  entries : List (String × α)
  order : List String
  mem_order_iff : ∀ identifier, identifier ∈ order ↔ (entries.lookup identifier).isSome
  nodup : order.Nodup

namespace Table

variable {α : Type}

def empty : Table α := ⟨[], [], by simp, List.nodup_nil⟩

def lookup? (t : Table α) (identifier : String) : Option α := t.entries.lookup identifier

theorem mem_order_iff_lookup? (t : Table α) (identifier : String) :
    identifier ∈ t.order ↔ (t.lookup? identifier).isSome :=
  t.mem_order_iff identifier

theorem not_mem_order_of_lookup? {t : Table α} {identifier : String}
    (h : t.lookup? identifier = none) : identifier ∉ t.order := by
  simp [t.mem_order_iff_lookup?, h]

/-- Enter an identifier that has no entry yet. -/
def enter (t : Table α) (identifier : String) (value : α)
    (fresh : t.lookup? identifier = none) : Table α where
  entries := (identifier, value) :: t.entries
  order := t.order ++ [identifier]
  mem_order_iff other := by
    rw [List.mem_append, List.mem_singleton, t.mem_order_iff, List.lookup_cons]
    split <;> simp_all
  nodup := by
    refine List.nodup_append.mpr ⟨t.nodup, by simp, fun other hother last hlast heq => ?_⟩
    obtain rfl := List.mem_singleton.mp hlast
    exact not_mem_order_of_lookup? fresh (heq ▸ hother)

/-- The entries in the order in which they were entered. -/
def listing (t : Table α) : List (String × α) :=
  t.order.filterMap fun identifier => (t.lookup? identifier).map (identifier, ·)

end Table

/-- The lists of identifiers in the order in which they are read, each with its category. -/
def Sections.lists (s : Sections) : List (List String × Category) :=
  [(s.dictionary, .dictionary), (s.list, .list), (s.lvalue, .lvalue), (s.rvalue, .rvalue)]

/-- What a suggestion shows for an identifier without documentation. -/
def noDocumentation : String := "No documentation available."

/-- What is told of one identifier. -/
structure Entry where
  identifier : String
  category : Option Category
  documentation : Option String
  deriving DecidableEq

structure Register where
  categories : Table Category := .empty
  texts : Table String := .empty

namespace Register

def classify (category : Category) (r : Register) (identifier : String) :
    Except CatalogFault Register :=
  if identifier.isEmpty then .error .emptyIdentifier
  else match fresh : r.categories.lookup? identifier with
    | some _ => .ok r
    | none => .ok { r with categories := r.categories.enter identifier category fresh }

def classifyAll (r : Register) (l : List String × Category) : Except CatalogFault Register :=
  l.1.foldlM (classify l.2) r

def document (r : Register) (item : Documentation) : Except CatalogFault Register :=
  if item.identifier.isEmpty then .error .emptyIdentifier
  else match fresh : r.texts.lookup? item.identifier with
    | some _ => .error (.documentedTwice item.identifier)
    | none => .ok { r with texts := r.texts.enter item.identifier item.text fresh }

def ofSections (s : Sections) : Except CatalogFault Register := do
  let classified ← s.lists.foldlM classifyAll {}
  s.documentation.foldlM document classified

def category? (r : Register) (identifier : String) : Option Category :=
  r.categories.lookup? identifier

def documentation? (r : Register) (identifier : String) : Option String :=
  r.texts.lookup? identifier

def documented (r : Register) : List Documentation :=
  r.texts.listing.map fun (identifier, text) => ⟨identifier, text⟩

def suggestions (r : Register) : List Suggestion :=
  r.documented.map fun d =>
    .ofDocumentation ⟨d.identifier, (r.documentation? d.identifier).getD noDocumentation⟩

def entry (r : Register) (identifier : String) : Entry :=
  ⟨identifier, r.category? identifier, r.documentation? identifier⟩

/-- Documented identifiers first, then the others. -/
def entries (r : Register) : List Entry :=
  (r.texts.order ++ r.categories.order.filter fun x => (r.documentation? x).isNone).map r.entry

/-- What the tables hold, in their orders. -/
def catalog (r : Register) : Catalog := ⟨r.categories.listing, r.documented⟩

end Register

end FoamDict.Keyword
