import Mathlib.Order.Nat
import FoamDict.Proofs.Keyword.Register

/-!
# The first fault of a catalog

Sections are refused for the first fault that a reader comes to. In the lists only an empty
identifier is one, and the lists are read first. Of the documentation the first item counts whose
identifier is empty or that of an item before it. How often the lists repeat an identifier does not
matter, nor whether it is documented too.
-/

namespace FoamDict.Keyword

/-- The identifiers of the documentation items, in reading order. -/
def Sections.documentedIdentifiers (s : Sections) : List String :=
  s.documentation.map (·.identifier)

/-- The identifier at an index is empty or equals one at an index before it. -/
def FaultyAt (identifiers : List String) (index : Nat) : Prop :=
  ∃ x ∈ identifiers[index]?, x = "" ∨ ∃ earlier < index, identifiers[earlier]? = some x

instance (identifiers : List String) : DecidablePred (FaultyAt identifiers) :=
  fun index => inferInstanceAs (Decidable (∃ x ∈ identifiers[index]?, _))

/-- The fault of a faulty documentation item. -/
def CatalogFault.ofIdentifier (identifier : String) : CatalogFault :=
  if identifier = "" then .emptyIdentifier else .documentedTwice identifier

section Identifiers

variable {identifiers : List String} {index : Nat}

/-- Identifiers are without fault if they are all different and none is empty. -/
theorem forall_not_faultyAt_iff :
    (∀ index, ¬ FaultyAt identifiers index) ↔ "" ∉ identifiers ∧ identifiers.Nodup := by
  constructor
  · intro h
    refine ⟨fun hempty => ?_, List.nodup_iff_getElem?_ne_getElem?.mpr fun i j hij hj heq => ?_⟩
    · obtain ⟨index, hindex⟩ := List.mem_iff_getElem?.mp hempty
      exact h index ⟨"", hindex, Or.inl rfl⟩
    · have hx : identifiers[j]? = some identifiers[j] := List.getElem?_eq_getElem hj
      exact h j ⟨identifiers[j], hx, Or.inr ⟨i, hij, heq.trans hx⟩⟩
  · rintro ⟨hempty, hnodup⟩ index ⟨x, hx, rfl | ⟨earlier, hlt, heq⟩⟩
    · exact hempty (List.mem_of_getElem? hx)
    · have hindex : index < identifiers.length := (List.getElem?_eq_some_iff.mp hx).1
      exact List.nodup_iff_getElem?_ne_getElem?.mp hnodup earlier index hlt hindex
        (heq.trans hx.symm)

/-- Whether an identifier is faulty depends on the identifiers before it. -/
theorem FaultyAt.of_take {i : Nat} (h : FaultyAt (identifiers.take index) i) :
    i < index ∧ FaultyAt identifiers i := by
  obtain ⟨x, hx, hfault⟩ := h
  rw [Option.mem_def, List.getElem?_take] at hx
  split_ifs at hx with hi
  refine ⟨hi, x, hx, hfault.imp_right fun ⟨earlier, hlt, heq⟩ => ⟨earlier, hlt, ?_⟩⟩
  rwa [List.getElem?_take_of_lt (Nat.lt_trans hlt hi)] at heq

theorem FaultyAt.eq_or_mem_take {x : String} (h : FaultyAt identifiers index)
    (hx : identifiers[index]? = some x) : x = "" ∨ x ∈ identifiers.take index := by
  obtain ⟨y, hy, hfault⟩ := h
  obtain rfl : x = y := Option.some.inj (hx.symm.trans hy)
  refine hfault.imp_right fun ⟨earlier, hlt, heq⟩ => ?_
  exact List.mem_of_getElem? ((List.getElem?_take_of_lt hlt).trans heq)

end Identifiers

section Documentation

variable {seen : List String} {items rest : List Documentation}

theorem documentationFault?_append :
    documentationFault? seen (items ++ rest) = (documentationFault? seen items).or
      (documentationFault? ((items.map (·.identifier)).reverse ++ seen) rest) := by
  induction items generalizing seen with
  | nil => rfl
  | cons item items ih =>
      rw [List.cons_append, documentationFault?, documentationFault?, ih, List.map_cons,
        List.reverse_cons, List.append_assoc]
      split_ifs <;> rfl

theorem documentationFault?_nil_eq_none_iff :
    documentationFault? [] items = none ↔ ∀ i, ¬ FaultyAt (items.map (·.identifier)) i := by
  rw [documentationFault?_eq_none_iff, forall_not_faultyAt_iff]
  refine and_congr_left' ?_
  simp

theorem documentationFault?_cons_of_faulty {item : Documentation}
    (h : item.identifier = "" ∨ item.identifier ∈ seen) :
    documentationFault? seen (item :: rest) = some (.ofIdentifier item.identifier) := by
  rw [documentationFault?, CatalogFault.ofIdentifier]
  by_cases hempty : item.identifier = ""
  · simp [hempty]
  · simp [hempty, h.resolve_left hempty]

/-- Before the first faulty item there is no fault, so the documentation has the fault of that
item. -/
theorem documentationFault?_eq_of_isLeast {index : Nat} {x : String}
    (h : IsLeast {i | FaultyAt (items.map (·.identifier)) i} index)
    (hx : (items.map (·.identifier))[index]? = some x) :
    documentationFault? [] items = some (.ofIdentifier x) := by
  have hfaulty := FaultyAt.eq_or_mem_take h.1 hx
  rw [List.getElem?_map] at hx
  obtain ⟨item, hitem, rfl⟩ := Option.map_eq_some_iff.mp hx
  have hsplit : items = items.take index ++ item :: items.drop (index + 1) := by
    obtain ⟨hlt, rfl⟩ := List.getElem?_eq_some_iff.mp hitem
    rw [List.getElem_cons_drop, List.take_append_drop]
  have hbefore : documentationFault? [] (items.take index) = none := by
    refine documentationFault?_nil_eq_none_iff.mpr fun i hi => ?_
    rw [List.map_take] at hi
    exact Nat.not_le.mpr hi.of_take.1 (h.2 hi.of_take.2)
  rw [← List.map_take] at hfaulty
  rw [hsplit, documentationFault?_append, hbefore, Option.none_or]
  exact documentationFault?_cons_of_faulty (by simpa using hfaulty)

/-- Documentation is refused for its first faulty item and for nothing else. -/
theorem documentationFault?_eq_some_iff {fault : CatalogFault} :
    documentationFault? [] items = some fault ↔
      ∃ index x, IsLeast {i | FaultyAt (items.map (·.identifier)) i} index ∧
        (items.map (·.identifier))[index]? = some x ∧ fault = .ofIdentifier x := by
  constructor
  · intro hfault
    have hexists : ∃ i, FaultyAt (items.map (·.identifier)) i := by
      by_contra hnone
      rw [documentationFault?_nil_eq_none_iff.mpr (not_exists.mp hnone)] at hfault
      cases hfault
    have hleast := Nat.isLeast_find hexists
    obtain ⟨x, hx, -⟩ := hleast.1
    refine ⟨_, x, hleast, hx, ?_⟩
    rw [documentationFault?_eq_of_isLeast hleast hx] at hfault
    exact (Option.some.inj hfault).symm
  · rintro ⟨index, x, hleast, hx, rfl⟩
    exact documentationFault?_eq_of_isLeast hleast hx

end Documentation

namespace Sections

variable (s : Sections)

theorem any_isEmpty_listed_iff : s.listed.any (·.1.isEmpty) = true ↔ "" ∈ s.identifiers := by
  rw [← s.map_fst_listed, List.any_eq_true]
  simp

theorem fault?_of_empty_mem (h : "" ∈ s.identifiers) : s.fault? = some .emptyIdentifier := by
  rw [fault?, if_pos (s.any_isEmpty_listed_iff.mpr h)]

theorem fault?_of_empty_not_mem (h : "" ∉ s.identifiers) :
    s.fault? = documentationFault? [] s.documentation := by
  rw [fault?, if_neg (mt s.any_isEmpty_listed_iff.mp h)]

/-- Sections are refused if an identifier is empty or documented twice, and for nothing else. -/
theorem isSome_fault?_iff :
    s.fault?.isSome ↔ "" ∈ s.identifiers ∨ "" ∈ s.documentedIdentifiers ∨
      ∃ x, 2 ≤ s.documentedIdentifiers.count x := by
  have hcount : s.documentedIdentifiers.Nodup ↔ ¬ ∃ x, 2 ≤ s.documentedIdentifiers.count x := by
    simp only [List.nodup_iff_count_le_one, not_exists, Nat.not_le, Nat.lt_succ_iff]
  by_cases hlists : "" ∈ s.identifiers
  · simp [s.fault?_of_empty_mem hlists, hlists]
  · rw [s.fault?_of_empty_not_mem hlists, ← not_iff_not, Option.not_isSome_iff_eq_none,
      documentationFault?_nil_eq_none_iff, forall_not_faultyAt_iff, ← documentedIdentifiers,
      hcount]
    tauto

end Sections

namespace Register

variable {s : Sections} {fault : CatalogFault}

/-- The tables are given up for the first fault of the sections. -/
theorem ofSections_eq_error_iff : ofSections s = .error fault ↔ s.fault? = some fault := by
  have hrun := ofSections_comesTo s
  cases h : ofSections s with
  | error found =>
      rw [h] at hrun
      rw [show s.fault? = some found from hrun, Except.error.injEq, Option.some.injEq]
  | ok r =>
      rw [h] at hrun
      rw [hrun.1]
      exact iff_of_false nofun nofun

theorem catalog_ofSections_eq_error_iff :
    Catalog.ofSections s = .error fault ↔ ofSections s = .error fault := by
  rw [← map_catalog_ofSections]
  cases ofSections s with
  | error found => rw [Except.map, Except.error.injEq, Except.error.injEq]
  | ok r => exact iff_of_false nofun nofun

/-- Sections are refused exactly if an identifier is empty or documented twice. An empty identifier
in a list is the fault whatever is documented. Without one the fault is that of the first faulty
documentation item; apart from it the lists play no role, whatever they repeat. -/
theorem refuses_first_fault (s : Sections) :
    ((∃ fault, ofSections s = .error fault) ↔
      "" ∈ s.identifiers ∨ "" ∈ s.documentedIdentifiers ∨
        ∃ x, 2 ≤ s.documentedIdentifiers.count x) ∧
    ("" ∈ s.identifiers → ofSections s = .error .emptyIdentifier) ∧
    ("" ∉ s.identifiers → ∀ fault, ofSections s = .error fault ↔
      ∃ index x, IsLeast {i | FaultyAt s.documentedIdentifiers i} index ∧
        s.documentedIdentifiers[index]? = some x ∧ fault = .ofIdentifier x) ∧
    (∀ s' : Sections, s'.documentation = s.documentation →
      ("" ∈ s'.identifiers ↔ "" ∈ s.identifiers) →
      ∀ fault, ofSections s' = .error fault ↔ ofSections s = .error fault) ∧
    ∀ fault, Catalog.ofSections s = .error fault ↔ ofSections s = .error fault := by
  refine ⟨?_, fun h => ?_, fun h fault => ?_, fun s' hitems hempty fault => ?_,
    fun _ => catalog_ofSections_eq_error_iff⟩
  · simp only [ofSections_eq_error_iff]
    rw [← Option.isSome_iff_exists, s.isSome_fault?_iff]
  · rw [ofSections_eq_error_iff, s.fault?_of_empty_mem h]
  · rw [ofSections_eq_error_iff, s.fault?_of_empty_not_mem h]
    exact documentationFault?_eq_some_iff
  · rw [ofSections_eq_error_iff, ofSections_eq_error_iff]
    by_cases h : "" ∈ s.identifiers
    · rw [s.fault?_of_empty_mem h, s'.fault?_of_empty_mem (hempty.mpr h)]
    · rw [s.fault?_of_empty_not_mem h, s'.fault?_of_empty_not_mem (mt hempty.mp h), hitems]

/-- Neither the repeated listing nor the empty identifier behind it is the fault. -/
theorem refuses_first_fault_of_repeated_documentation :
    let s : Sections :=
      ⟨["shared", "shared"], ["shared"], [], ["plain"],
        [⟨"shared", "First."⟩, ⟨"other", "Second."⟩, ⟨"shared", "Third."⟩, ⟨"", "Fourth."⟩]⟩
    "" ∉ s.identifiers ∧ IsLeast {i | FaultyAt s.documentedIdentifiers i} 2 ∧
      ofSections s = .error (.documentedTwice "shared") := by
  intro s
  have hlists : "" ∉ s.identifiers := by decide
  have hbefore : ∀ i < 2, ¬ FaultyAt s.documentedIdentifiers i := by decide
  have hleast : IsLeast {i | FaultyAt s.documentedIdentifiers i} 2 := by
    refine ⟨?_, fun i hi => Nat.not_lt.mp fun hlt => hbefore i hlt hi⟩
    exact ⟨"shared", rfl, Or.inr ⟨0, by decide, rfl⟩⟩
  refine ⟨hlists, hleast, ?_⟩
  exact ((refuses_first_fault s).2.2.1 hlists _).mpr ⟨2, "shared", hleast, rfl, by decide⟩

end Register

end FoamDict.Keyword
