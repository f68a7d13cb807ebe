import FoamDict.Keyword.Register
import FoamDict.Proofs.Keyword.Catalog

/-!
# Catalogs from their tables

Looking the identifiers of a table up in their order gives back all that was entered, in the order
in which it was entered. The two loops that fill the tables therefore keep, of the identifiers
listed so far, the first of each, and of the documentation so far, everything; and they stop at the
first fault of the sections in reading order.
-/

namespace FoamDict.Keyword

open FoamDict.Highlight (Category)
open Association (lookup_cons lookup_filterMap_pair lookup_of_mem)

namespace Table

variable {α : Type} {t : Table α} {identifier : String} {value : α}

theorem lookup?_enter {fresh : t.lookup? identifier = none} {other : String} :
    (t.enter identifier value fresh).lookup? other =
      if other = identifier then some value else t.lookup? other :=
  lookup_cons

/-- What is entered is listed behind all that was entered before. -/
@[simp]
theorem listing_enter {fresh : t.lookup? identifier = none} :
    (t.enter identifier value fresh).listing = t.listing ++ [(identifier, value)] := by
  have hold : t.order.filterMap (fun x =>
      ((t.enter identifier value fresh).lookup? x).map (x, ·)) = t.listing := by
    refine List.filterMap_congr fun other hother => ?_
    have hne : other ≠ identifier := fun h => not_mem_order_of_lookup? fresh (h ▸ hother)
    rw [lookup?_enter, if_neg hne]
  rw [listing, show (t.enter identifier value fresh).order = t.order ++ [identifier] from rfl,
    List.filterMap_append, hold]
  simp [lookup?_enter]

/-- No identifier is lost between the order and the entries. -/
theorem map_fst_listing (t : Table α) : t.listing.map (·.1) = t.order := by
  have hsome : ∀ x ∈ t.order, ((t.lookup? x).map (x, ·)).map (·.1) = some x := by
    intro x hx
    obtain ⟨value, hvalue⟩ := Option.isSome_iff_exists.mp ((t.mem_order_iff_lookup? x).mp hx)
    rw [hvalue]
    rfl
  rw [listing, List.map_filterMap, List.filterMap_congr hsome, List.filterMap_some]

theorem lookup_listing (t : Table α) (identifier : String) :
    t.listing.lookup identifier = t.lookup? identifier := by
  rw [listing, lookup_filterMap_pair]
  split_ifs with h
  · rfl
  · exact (Option.not_isSome_iff_eq_none.mp (mt (t.mem_order_iff_lookup? identifier).mpr h)).symm

end Table

/-- A run comes to a fault, or where there is none, to a register with a property. -/
def ComesTo (fault? : Option CatalogFault) (P : Register → Prop) :
    Except CatalogFault Register → Prop
  | .error fault => fault? = some fault
  | .ok r => fault? = none ∧ P r

theorem ComesTo.bind {fault? next? : Option CatalogFault} {P Q : Register → Prop}
    {run : Except CatalogFault Register} {next : Register → Except CatalogFault Register}
    (h : ComesTo fault? P run) (hnext : ∀ r, P r → ComesTo next? Q (next r)) :
    ComesTo (fault?.or next?) Q (run >>= next) := by
  cases run with
  | error fault =>
      obtain rfl : fault? = some fault := h
      rfl
  | ok r =>
      obtain ⟨rfl, hr⟩ := h
      exact hnext r hr

namespace Register

/-- The tables hold what has been read: of the listed entries the first of each identifier, and all
of the documentation. -/
structure Holds (listed : List (String × Category)) (items : List Documentation)
    (r : Register) : Prop where
  listing_eq : r.categories.listing = keepFirst listed
  documented_eq : r.documented = items

variable {listed : List (String × Category)} {items : List Documentation} {r : Register}

theorem holds_nothing : Holds [] [] {} := ⟨rfl, rfl⟩

theorem Holds.category?_eq (h : Holds listed items r) (identifier : String) :
    r.category? identifier = listed.lookup identifier := by
  rw [category?, ← Table.lookup_listing, h.listing_eq, lookup_keepFirst]

theorem map_identifier_documented (r : Register) :
    r.documented.map (·.identifier) = r.texts.order := by
  rw [documented, List.map_map, ← Table.map_fst_listing]
  rfl

theorem isSome_documentation?_iff {identifier : String} :
    (r.documentation? identifier).isSome ↔ identifier ∈ r.documented.map (·.identifier) := by
  rw [map_identifier_documented, Table.mem_order_iff_lookup?]
  rfl

/-- Every documented item is found with its own text. -/
theorem documentation?_of_mem {d : Documentation} (hd : d ∈ r.documented) :
    r.documentation? d.identifier = some d.text := by
  obtain ⟨⟨identifier, text⟩, hmem, rfl⟩ := List.mem_map.mp hd
  rw [documentation?, ← Table.lookup_listing]
  exact lookup_of_mem (by rw [Table.map_fst_listing]; exact r.texts.nodup) hmem

/-- One listed identifier: it is refused if it is empty, and kept if it is new. -/
theorem Holds.classify (h : Holds listed items r) (entry : String × Category) :
    ComesTo (if entry.1.isEmpty then some .emptyIdentifier else none)
      (Holds (listed ++ [entry]) items) (r.classify entry.2 entry.1) := by
  obtain ⟨identifier, category⟩ := entry
  rw [Register.classify]
  split_ifs with hempty
  · rfl
  have hlookup := h.category?_eq identifier
  rw [category?] at hlookup
  split
  case h_1 old hold =>
    rw [hold] at hlookup
    refine ⟨rfl, ?_, h.documented_eq⟩
    rw [keepFirst_concat, ← hlookup, Option.isSome_some, if_pos rfl, h.listing_eq]
  case h_2 fresh =>
    rw [fresh] at hlookup
    refine ⟨rfl, ?_, h.documented_eq⟩
    rw [keepFirst_concat, ← hlookup, Table.listing_enter, h.listing_eq]
    rfl

/-- One item of documentation: it is refused if it is empty or not the first of its identifier. -/
theorem Holds.document (h : Holds listed items r) (item : Documentation) :
    ComesTo (documentationFault? (items.map (·.identifier)).reverse [item])
      (Holds listed (items ++ [item])) (r.document item) := by
  have hseen : (items.map (·.identifier)).reverse.contains item.identifier =
      (r.texts.lookup? item.identifier).isSome := by
    rw [Bool.eq_iff_iff, List.contains_iff_mem, List.mem_reverse, ← h.documented_eq,
      map_identifier_documented, Table.mem_order_iff_lookup?]
  rw [Register.document, documentationFault?, documentationFault?, hseen]
  split_ifs with hempty hold
  · rfl
  · split
    case h_1 => rfl
    case h_2 fresh =>
      rw [fresh] at hold
      cases hold
  · split
    case h_1 text htext =>
      rw [htext] at hold
      exact absurd rfl hold
    case h_2 fresh =>
      refine ⟨rfl, h.listing_eq, ?_⟩
      rw [documented, Table.listing_enter, List.map_append, ← h.documented_eq]
      rfl

theorem Holds.classify_run (h : Holds listed items r) (entries : List (String × Category)) :
    ComesTo (if entries.any (·.1.isEmpty) then some .emptyIdentifier else none)
      (Holds (listed ++ entries) items)
      (entries.foldlM (fun r entry => r.classify entry.2 entry.1) r) := by
  induction entries generalizing listed r with
  | nil => exact ⟨rfl, by rwa [List.append_nil]⟩
  | cons entry entries ih =>
      have hfault : (if (entry :: entries).any (·.1.isEmpty) then
            some CatalogFault.emptyIdentifier else none) =
          (if entry.1.isEmpty then some .emptyIdentifier else none).or
            (if entries.any (·.1.isEmpty) then some .emptyIdentifier else none) := by
        rw [List.any_cons]
        cases entry.1.isEmpty <;> rfl
      rw [hfault, List.foldlM_cons]
      refine (h.classify entry).bind fun r' h' => ?_
      rw [List.append_cons]
      exact ih h'

theorem Holds.document_run (h : Holds listed items r) (rest : List Documentation) :
    ComesTo (documentationFault? (items.map (·.identifier)).reverse rest)
      (Holds listed (items ++ rest)) (rest.foldlM Register.document r) := by
  induction rest generalizing items r with
  | nil => exact ⟨rfl, by rwa [List.append_nil]⟩
  | cons item rest ih =>
      have hfault : documentationFault? (items.map (·.identifier)).reverse (item :: rest) =
          (documentationFault? (items.map (·.identifier)).reverse [item]).or
            (documentationFault? ((items ++ [item]).map (·.identifier)).reverse rest) := by
        rw [List.map_append, List.reverse_append]
        simp only [documentationFault?]
        split_ifs <;> rfl
      rw [hfault, List.foldlM_cons]
      refine (h.document item).bind fun r' h' => ?_
      rw [List.append_cons items item rest]
      exact ih h'

/-- Reading list by list is reading the listed entries one by one. -/
theorem foldlM_classifyAll (s : Sections) (r : Register) :
    s.lists.foldlM classifyAll r =
      s.listed.foldlM (fun r entry => r.classify entry.2 entry.1) r := by
  simp [Sections.lists, Sections.listed, classifyAll, List.foldlM_append, List.foldlM_map]

/-- The sections are read up to their first fault, and where there is none, to their end. -/
theorem ofSections_comesTo (s : Sections) :
    ComesTo s.fault? (Holds s.listed s.documentation) (ofSections s) := by
  have hfault : s.fault? =
      (if s.listed.any (·.1.isEmpty) then some .emptyIdentifier else none).or
        (documentationFault? [] s.documentation) := by
    rw [Sections.fault?]
    split_ifs <;> rfl
  rw [hfault, ofSections, foldlM_classifyAll]
  exact (holds_nothing.classify_run s.listed).bind fun r h => h.document_run s.documentation

/-- Filling the tables and listing them is putting the catalog together from the sections. -/
theorem map_catalog_ofSections (s : Sections) :
    (ofSections s).map catalog = Catalog.ofSections s := by
  have h := ofSections_comesTo s
  rw [Catalog.ofSections]
  cases hrun : ofSections s with
  | error fault =>
      rw [hrun] at h
      rw [show s.fault? = some fault from h]
      rfl
  | ok r =>
      rw [hrun] at h
      obtain ⟨hfault, hholds⟩ := h
      rw [hfault, Except.map, catalog, hholds.listing_eq, hholds.documented_eq]
      rfl

theorem catalog_eq {s : Sections} (h : ofSections s = .ok r) :
    Catalog.ofSections s = .ok r.catalog := by
  rw [← map_catalog_ofSections, h]
  rfl

section Views

/-! What is looked up in the catalog is what is looked up in the tables. -/

variable (r)

theorem category?_catalog (identifier : String) :
    r.catalog.category? identifier = r.category? identifier :=
  r.categories.lookup_listing identifier

theorem documentation?_catalog (identifier : String) :
    r.catalog.documentation? identifier = r.documentation? identifier := by
  rw [Catalog.documentation?, catalog]
  cases hfind : r.documented.find? (·.identifier = identifier) with
  | none =>
      have hnot : identifier ∉ r.documented.map (·.identifier) := by
        simpa using hfind
      exact (Option.not_isSome_iff_eq_none.mp (mt isSome_documentation?_iff.mp hnot)).symm
  | some d =>
      obtain rfl : d.identifier = identifier := by simpa using List.find?_some hfind
      exact (documentation?_of_mem (List.mem_of_find?_eq_some hfind)).symm

theorem suggestions_catalog : r.catalog.suggestions = r.suggestions := by
  refine List.map_congr_left fun d hd => ?_
  rw [documentation?_of_mem hd]
  rfl

end Views

/-- The identifiers of the entries: the documented ones, then the listed ones that are not. -/
theorem map_identifier_entries (r : Register) :
    r.entries.map (·.identifier) = r.documented.map (·.identifier) ++
      r.categories.order.filter fun x => (r.documentation? x).isNone := by
  rw [map_identifier_documented, entries, List.map_map]
  exact List.map_id _

theorem nodup_identifier_entries (r : Register) : (r.entries.map (·.identifier)).Nodup := by
  rw [map_identifier_entries, List.nodup_append]
  refine ⟨?_, r.categories.nodup.filter _, ?_⟩
  · rw [map_identifier_documented]
    exact r.texts.nodup
  · rintro x hx y hy rfl
    have hnone : (r.documentation? x).isNone := (List.mem_filter.mp hy).2
    obtain ⟨text, htext⟩ := Option.isSome_iff_exists.mp (isSome_documentation?_iff.mpr hx)
    rw [htext] at hnone
    cases hnone

theorem mem_identifier_entries_iff {identifier : String} :
    identifier ∈ r.entries.map (·.identifier) ↔
      identifier ∈ r.documented.map (·.identifier) ∨ identifier ∈ r.categories.order := by
  rw [map_identifier_entries, List.mem_append, List.mem_filter, ← isSome_documentation?_iff]
  cases r.documentation? identifier <;> simp

theorem Holds.order_eq (h : Holds listed items r) :
    r.categories.order = (keepFirst listed).map (·.1) := by
  rw [← Table.map_fst_listing, h.listing_eq]

/-- Sections that are accepted account for all that the tables tell: an identifier has the category
of the first list that holds it, the documentation comes item by item with its own texts, and each
identifier of a list or an item has one entry, the documented ones first. -/
theorem accounts_for_sections {s : Sections} (h : ofSections s = .ok r) :
    (∀ x, r.category? x =
      if x ∈ s.dictionary then some .dictionary
      else if x ∈ s.list then some .list
      else if x ∈ s.lvalue then some .lvalue
      else if x ∈ s.rvalue then some .rvalue
      else none) ∧
    (r.documented = s.documentation ∧ (s.documentation.map (·.identifier)).Nodup ∧
      (∀ d ∈ s.documentation, r.documentation? d.identifier = some d.text) ∧
      r.suggestions = s.documentation.map fun d => ⟨d.identifier, defaultDetail, d.markdown⟩) ∧
    ∃ others : List String,
      r.entries.map (·.identifier) = s.documentation.map (·.identifier) ++ others ∧
      (r.entries.map (·.identifier)).Nodup ∧
      (∀ x, x ∈ r.entries.map (·.identifier) ↔
        x ∈ s.documentation.map (·.identifier) ∨ x ∈ s.identifiers) ∧
      others.Pairwise (fun x y => s.identifiers.idxOf x < s.identifiers.idxOf y) ∧
      ∀ e ∈ r.entries, e.category = r.category? e.identifier ∧
        e.documentation = r.documentation? e.identifier := by
  have hrun := ofSections_comesTo s
  rw [h] at hrun
  have hholds : Holds s.listed s.documentation r := hrun.2
  have hitems : r.documented = s.documentation := hholds.documented_eq
  refine ⟨fun x => ?_, ⟨hitems, ?_, ?_, ?_⟩,
    r.categories.order.filter fun x => (r.documentation? x).isNone, ?_,
    nodup_identifier_entries r, fun x => ?_, ?_, fun e he => ?_⟩
  · rw [hholds.category?_eq, Sections.lookup_listed]
  · rw [← hitems]
    exact Catalog.nodup_identifiers (catalog_eq h)
  · exact fun d hd => documentation?_of_mem (hitems ▸ hd)
  · rw [← suggestions_catalog, Catalog.suggestions, catalog, hitems]
    rfl
  · rw [map_identifier_entries, hitems]
  · rw [mem_identifier_entries_iff, hitems, hholds.order_eq, mem_map_fst_keepFirst,
      Sections.map_fst_listed]
  · rw [← Sections.map_fst_listed, hholds.order_eq]
    exact pairwise_idxOf_keepFirst.sublist List.filter_sublist
  · obtain ⟨x, -, rfl⟩ := List.mem_map.mp he
    exact ⟨rfl, rfl⟩

/-- An identifier may be repeated in a list, across lists and in the documentation. -/
theorem accounts_for_repeated_identifiers :
    ∃ r, ofSections
        ⟨["shared", "shared"], ["shared", "listed"], ["listed", "plain"], [],
          [⟨"floating", "Not listed."⟩, ⟨"listed", "Listed twice."⟩]⟩ = .ok r ∧
      r.category? "shared" = some .dictionary ∧ r.category? "listed" = some .list ∧
      r.documentation? "listed" = some "Listed twice." ∧
      r.suggestions.map (·.label) = ["floating", "listed"] ∧
      (r.entries.map (·.identifier)).Nodup := by
  let s : Sections :=
    ⟨["shared", "shared"], ["shared", "listed"], ["listed", "plain"], [],
      [⟨"floating", "Not listed."⟩, ⟨"listed", "Listed twice."⟩]⟩
  obtain ⟨r, hr⟩ : ∃ r, ofSections s = .ok r := ⟨_, rfl⟩
  obtain ⟨hcategory, ⟨-, -, htext, hsuggestions⟩, others, -, hnodup, -⟩ := accounts_for_sections hr
  refine ⟨r, hr, ?_, ?_, htext ⟨"listed", "Listed twice."⟩ (by simp [s]), ?_, hnodup⟩
  · rw [hcategory]
    simp [s]
  · rw [hcategory]
    simp [s]
  · rw [hsuggestions]
    rfl

end Register

end FoamDict.Keyword
