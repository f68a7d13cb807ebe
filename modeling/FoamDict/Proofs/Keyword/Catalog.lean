import Mathlib.Data.List.Nodup
import FoamDict.Keyword.Catalog
import FoamDict.Proofs.Association

/-!
# Identifiers of a catalog

Of the listed entries a catalog keeps the first of each identifier, in the order in which they
occur: an identifier has the category of the first list that holds it, and none if no list does. If
the catalog was put together without fault, no two of its documentation items have one identifier.
-/

namespace FoamDict.Keyword

open FoamDict.Highlight (Category)
open Association (lookup_cons lookup_filter_ne isSome_lookup_iff lookup_map_pair)

section KeepFirst

variable {entries : List (String × Category)} {identifier : String} {category : Category}

theorem lookup_keepFirst : (keepFirst entries).lookup identifier = entries.lookup identifier := by
  induction entries with
  | nil => rfl
  | cons entry rest ih =>
      rw [keepFirst, lookup_cons, lookup_cons, lookup_filter_ne, ih]
      split_ifs <;> rfl

theorem mem_map_fst_keepFirst :
    identifier ∈ (keepFirst entries).map (·.1) ↔ identifier ∈ entries.map (·.1) := by
  rw [← isSome_lookup_iff, ← isSome_lookup_iff, lookup_keepFirst]

/-- A further entry is kept if its identifier is new. -/
theorem keepFirst_concat : keepFirst (entries ++ [(identifier, category)]) =
    if (entries.lookup identifier).isSome then keepFirst entries
    else keepFirst entries ++ [(identifier, category)] := by
  induction entries with
  | nil => rfl
  | cons first rest ih =>
      rw [List.cons_append, keepFirst, ih, keepFirst, lookup_cons]
      by_cases h : identifier = first.1
      · rw [if_pos h, Option.isSome_some, if_pos rfl]
        split_ifs <;> simp [h]
      · rw [if_neg h]
        split_ifs <;> simp [h]

/-- The identifiers that are kept come in the order in which they first occur. -/
theorem pairwise_idxOf_keepFirst :
    ((keepFirst entries).map (·.1)).Pairwise fun x y =>
      (entries.map (·.1)).idxOf x < (entries.map (·.1)).idxOf y := by
  induction entries with
  | nil => exact List.Pairwise.nil
  | cons entry rest ih =>
      have hindex : ∀ e ∈ (keepFirst rest).filter (·.1 ≠ entry.1),
          (entry.1 :: rest.map (·.1)).idxOf e.1 = (rest.map (·.1)).idxOf e.1 + 1 := by
        intro e he
        have hne : e.1 ≠ entry.1 := of_decide_eq_true (List.mem_filter.mp he).2
        exact List.idxOf_cons_ne _ hne.symm
      rw [keepFirst, List.map_cons, List.map_cons, List.pairwise_cons]
      constructor
      · intro x hx
        obtain ⟨e, he, rfl⟩ := List.mem_map.mp hx
        rw [hindex e he, List.idxOf_cons_self]
        exact Nat.succ_pos _
      · rw [List.pairwise_map] at ih ⊢
        refine (ih.sublist List.filter_sublist).imp_of_mem fun {e e'} he he' h => ?_
        rw [hindex e he, hindex e' he']
        exact Nat.succ_lt_succ h

end KeepFirst

/-- The identifiers of the four lists in reading order. -/
def Sections.identifiers (s : Sections) : List String :=
  s.dictionary ++ s.list ++ s.lvalue ++ s.rvalue

theorem Sections.map_fst_listed (s : Sections) : s.listed.map (·.1) = s.identifiers := by
  simp [listed, identifiers, Function.comp_def]

/-- The first of the listed entries of an identifier comes from the first list that holds it. -/
theorem Sections.lookup_listed (s : Sections) (identifier : String) :
    s.listed.lookup identifier =
      if identifier ∈ s.dictionary then some .dictionary
      else if identifier ∈ s.list then some .list
      else if identifier ∈ s.lvalue then some .lvalue
      else if identifier ∈ s.rvalue then some .rvalue
      else none := by
  rw [listed, List.lookup_append, List.lookup_append, List.lookup_append, lookup_map_pair,
    lookup_map_pair, lookup_map_pair, lookup_map_pair]
  split_ifs <;> rfl

/-- Documentation is without fault if every item has an identifier of its own. -/
theorem documentationFault?_eq_none_iff {seen : List String} {items : List Documentation} :
    documentationFault? seen items = none ↔
      (∀ item ∈ items, item.identifier ≠ "" ∧ item.identifier ∉ seen) ∧
        (items.map (·.identifier)).Nodup := by
  induction items generalizing seen with
  | nil => simp [documentationFault?]
  | cons item items ih =>
      rw [documentationFault?, List.map_cons, List.nodup_cons, List.forall_mem_cons]
      by_cases hempty : item.identifier = ""
      · simp [hempty]
      by_cases hseen : item.identifier ∈ seen
      · simp [hempty, hseen]
      have hrest : (∀ other ∈ items,
          other.identifier ≠ "" ∧ other.identifier ∉ item.identifier :: seen) ↔
          (∀ other ∈ items, other.identifier ≠ "" ∧ other.identifier ∉ seen) ∧
            item.identifier ∉ items.map (·.identifier) := by
        simp only [List.mem_cons, not_or, List.mem_map, not_exists, not_and]
        grind
      rw [if_neg (by simpa using hempty), if_neg (by simpa using hseen), ih, hrest]
      simp only [hempty, hseen, ne_eq, not_false_eq_true, true_and, and_assoc]

namespace Catalog

variable {sections : Sections} {identifier : String} {category : Category}

theorem category?_assemble :
    (assemble sections).category? identifier = sections.listed.lookup identifier :=
  lookup_keepFirst

theorem mem_listed_of_category? (h : (assemble sections).category? identifier = some category) :
    (identifier, category) ∈ sections.listed := by
  rw [category?_assemble] at h
  obtain ⟨before, behind, hsplit, _⟩ := List.lookup_eq_some_iff.mp h
  rw [hsplit]
  exact List.mem_append_right before List.mem_cons_self

/-- The category of a listed identifier is that of one of the four lists. -/
theorem category_of_category? (h : (assemble sections).category? identifier = some category) :
    category ∈ [Category.dictionary, .list, .lvalue, .rvalue] := by
  rw [category?_assemble, Sections.lookup_listed] at h
  split_ifs at h <;> simp [← Option.some.inj h]

theorem nodup_identifiers {catalog : Catalog} (h : ofSections sections = .ok catalog) :
    (catalog.documented.map (·.identifier)).Nodup := by
  rw [ofSections] at h
  split at h
  · cases h
  · rename_i hfault
    obtain rfl := Except.ok.inj h
    rw [Sections.fault?] at hfault
    split at hfault
    · cases hfault
    · exact (documentationFault?_eq_none_iff.mp hfault).2

theorem mem_documented_of_documentation? {catalog : Catalog} {text : String}
    (h : catalog.documentation? identifier = some text) :
    ⟨identifier, text⟩ ∈ catalog.documented := by
  obtain ⟨item, hfind, rfl⟩ := Option.map_eq_some_iff.mp h
  have hid : item.identifier = identifier := by simpa using List.find?_some hfind
  subst hid
  exact List.mem_of_find?_eq_some hfind

end Catalog

end FoamDict.Keyword
