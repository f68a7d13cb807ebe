import FoamDict.Proofs.Server.Store

/-!
# Diagnostics are never out of date

At every point of a session, what was last published for an address is what a client is to be told
about the document stored there: the diagnostics of its text under its version, or that there are
none if no document is stored. Opening, closing and changing a stored document publish once and for
their own address; nothing else publishes.
-/

namespace FoamDict.Server

namespace Operation

variable (uri : Uri)

theorem isSome_onDocument (op : Operation) (stored : Option Document) :
    (op.onDocument uri stored).isSome = (op.opens? uri).getD stored.isSome := by
  cases op with
  | opened other version text =>
      simp only [onDocument, opens?]
      split_ifs <;> rfl
  | changed other version edits =>
      simp only [onDocument, opens?]
      split_ifs <;> simp
  | closed other =>
      simp only [onDocument, opens?]
      split_ifs <;> rfl
  | _ => rfl

/-- A document is stored exactly when the last operation that opened or closed it was an opening. -/
theorem isSome_foldl_onDocument (ops : List Operation) :
    (ops.foldl (fun stored op => op.onDocument uri stored) none).isSome =
      ((ops.filterMap (·.opens? uri)).getLast?.getD false) := by
  induction ops using List.reverseRecOn with
  | nil => rfl
  | append_singleton ops op ih =>
      rw [List.foldl_append, List.filterMap_append]
      change (op.onDocument uri _).isSome = _
      rw [isSome_onDocument, ih]
      cases hop : op.opens? uri <;> simp [hop]

theorem version_onDocument {op : Operation} {stored : Option Document} {d : Document}
    (h : op.onDocument uri stored = some d) :
    op.version? uri = some d.version ∨ op.version? uri = none ∧ stored = some d := by
  cases op with
  | opened other version text =>
      simp only [onDocument, version?] at h ⊢
      split_ifs at h ⊢
      · obtain rfl := Option.some.inj h
        exact Or.inl rfl
      · exact Or.inr ⟨rfl, h⟩
  | changed other version edits =>
      simp only [onDocument, version?] at h ⊢
      split_ifs at h ⊢
      · obtain ⟨before, _, rfl⟩ := Option.map_eq_some_iff.mp h
        exact Or.inl rfl
      · exact Or.inr ⟨rfl, h⟩
  | closed other =>
      simp only [onDocument] at h
      split_ifs at h
      exact Or.inr ⟨rfl, h⟩
  | _ => exact Or.inr ⟨rfl, h⟩

/-- A stored document has the version of the last operation that opened or changed it. -/
theorem version_foldl_onDocument {ops : List Operation} {d : Document}
    (h : ops.foldl (fun stored op => op.onDocument uri stored) none = some d) :
    (ops.filterMap (·.version? uri)).getLast? = some d.version := by
  induction ops using List.reverseRecOn with
  | nil => cases h
  | append_singleton ops op ih =>
      rw [List.foldl_append] at h
      rw [List.filterMap_append]
      rcases version_onDocument uri h with hop | ⟨hop, hstored⟩
      · simp [hop]
      · simpa [hop] using ih hstored

end Operation

namespace Session

variable (s : Session) (op : Operation) (ops : List Operation) (uri : Uri)

theorem announced_eq_of_mem (h : uri ∈ op.announced s) : op.announced s = [uri] := by
  cases op with
  | changed other version edits =>
      simp only [Operation.announced] at h ⊢
      split_ifs at h ⊢
      · rw [List.mem_singleton.mp h]
      · cases h
  | opened other version text => rw [List.mem_singleton.mp h]; rfl
  | closed other => rw [List.mem_singleton.mp h]; rfl
  | _ => cases h

theorem published_filter_of_mem (h : uri ∈ op.announced s) :
    (s.step op).published.filter (·.uri = uri) =
      [announcement s.options.source uri ((s.step op).session.documents.get? uri)] := by
  rw [published_step, announced_eq_of_mem s op uri h]
  simp

theorem published_filter_of_not_mem (h : uri ∉ op.announced s) :
    (s.step op).published.filter (·.uri = uri) = [] := by
  rw [published_step, List.filter_eq_nil_iff]
  intro p hp
  obtain ⟨other, hother, rfl⟩ := List.mem_map.mp hp
  rw [uri_announcement, decide_eq_true_eq]
  exact fun heq => h (heq ▸ hother)

/-- What was published last for an address announces what is stored there, and before anything was
published nothing is stored. -/
def Announced (source : String) (uri : Uri) (stored : Option Document)
    (history : List Publication) : Prop :=
  history.getLast? = some (announcement source uri stored) ∨ history = [] ∧ stored = none

/-- An operation keeps what was published last for an address in line with what is stored there. -/
theorem announced_step {history : List Publication}
    (h : Announced s.options.source uri (s.documents.get? uri) history) :
    Announced s.options.source uri ((s.step op).session.documents.get? uri)
      (history ++ (s.step op).published.filter (·.uri = uri)) := by
  by_cases hop : uri ∈ op.announced s
  · left
    rw [published_filter_of_mem s op uri hop, List.getLast?_concat]
  · rw [published_filter_of_not_mem s op uri hop, List.append_nil,
      get?_step_of_not_mem s op uri hop]
    exact h

theorem announced_after (hempty : s.documents.get? uri = none) :
    Announced s.options.source uri ((s.after ops).documents.get? uri)
      (s.publishedFor uri ops) := by
  induction ops using List.reverseRecOn with
  | nil => exact Or.inr ⟨rfl, hempty⟩
  | append_singleton ops op ih =>
      rw [after_concat, publishedFor_concat, ← options_after s ops]
      rw [← options_after s ops] at ih
      exact announced_step (s.after ops) op uri ih

/-- What has been published for an address is up to date in the session `s` that the operations
`ops` led to. -/
structure Current (options : Options) (ops : List Operation) (uri : Uri) (s : Session)
    (history : List Publication) : Prop where
  isOpen : (s.documents.get? uri).isSome = (ops.filterMap (·.opens? uri)).getLast?.getD false
  last_of_open : ∀ d, s.documents.get? uri = some d →
    history.getLast? = some ⟨uri, (Brace.faults d.text).map fun f =>
        ⟨f.extent, Brace.severity, options.source, f.kind.message⟩, some d.version⟩ ∧
      (ops.filterMap (·.version? uri)).getLast? = some d.version
  last_of_closed : s.documents.get? uri = none →
    ∀ p, history.getLast? = some p → p = ⟨uri, [], none⟩
  announced_once : ∀ op, (s.step op).published.map (·.uri) = op.announced s
  unknown_unchanged : ∀ version edits, s.documents.get? uri = none →
    s.step (.changed uri version edits) = { session := s }

theorem publications_current (catalog : Keyword.Catalog) (options : Options)
    (ops : List Operation) (uri : Uri) :
    Current options ops uri (({ catalog, options } : Session).after ops)
      (({ catalog, options } : Session).publishedFor uri ops) := by
  let fresh : Session := { catalog, options }
  have hstored := get?_after fresh ops uri
  have hlast := announced_after fresh ops uri rfl
  refine ⟨?_, fun d hd => ⟨?_, ?_⟩, fun hnone p hp => ?_, fun op => ?_,
    fun version edits hnone => ?_⟩
  · rw [hstored]
    exact Operation.isSome_foldl_onDocument uri ops
  · rw [hd] at hlast
    rcases hlast with h | ⟨_, h⟩
    · exact h
    · cases h
  · exact Operation.version_foldl_onDocument uri (hstored.symm.trans hd)
  · rw [hnone] at hlast
    rcases hlast with h | ⟨h, _⟩
    · exact (Option.some.inj (h.symm.trans hp)).symm
    · rw [h] at hp
      cases hp
  · rw [published_step, List.map_map]
    exact (List.map_congr_left fun uri _ => uri_announcement _ _ _).trans (List.map_id _)
  · rw [step, change, hnone]

end Session

end FoamDict.Server
