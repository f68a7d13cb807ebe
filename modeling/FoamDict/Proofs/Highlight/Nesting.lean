import FoamDict.Proofs.Highlight.Edge
import FoamDict.Proofs.Highlight.Quotation
import FoamDict.Proofs.Text.Stretch

/-!
# Spans nest

Words, numerals and quotations are found by scans that know nothing of each other, and still no two
spans of a line overlap in part. What one scan finds lies apart. A numeral has a word boundary at
both ends, so it has all of a word or nothing of it. Neither a word nor a numeral holds a quote, so
each lies between the two quotes of a quotation or apart from it.
-/

namespace FoamDict.Highlight

open FoamDict.Keyword (Catalog Sections)
open FoamDict.Text

/-- How two stretches of one line may lie to each other, one found for a span of category `k` and
the other for one of category `l`. -/
structure Laminar (k l : Category) (p q : Nat × Nat) : Prop where
  nested : Apart p q ∨ Within p q ∨ Within q p
  apart : k.layer = l.layer → Apart p q
  between_quotes : k ≠ .string → l = .string → Apart p q ∨ Inside p q
  quotes_around : k = .string → l ≠ .string → Apart p q ∨ Inside q p

namespace Laminar

variable {k l : Category} {p q : Nat × Nat}

theorem symm (h : Laminar k l p q) : Laminar l k q p where
  nested := h.nested.imp Apart.symm Or.symm
  apart := fun hlayer => (h.apart hlayer.symm).symm
  between_quotes := fun hl hk => (h.quotes_around hk hl).imp_left Apart.symm
  quotes_around := fun hl hk => (h.between_quotes hk hl).imp_left Apart.symm

theorem of_apart (h : Apart p q) : Laminar k l p q :=
  ⟨Or.inl h, fun _ => h, fun _ _ => Or.inl h, fun _ _ => Or.inl h⟩

theorem of_within (hlayer : k.layer ≠ l.layer) (hk : k ≠ .string) (hl : l ≠ .string)
    (h : Within p q) : Laminar k l p q where
  nested := Or.inr (Or.inl h)
  apart := fun heq => absurd heq hlayer
  between_quotes := fun _ heq => absurd heq hl
  quotes_around := fun heq _ => absurd heq hk

theorem of_inside (hlayer : k.layer ≠ l.layer) (hk : k ≠ .string) (h : Inside p q) :
    Laminar k l p q where
  nested := Or.inr (Or.inl h.within)
  apart := fun heq => absurd heq hlayer
  between_quotes := fun _ _ => Or.inr h
  quotes_around := fun heq _ => absurd heq hk

/-- A later place has a later column, so columns lie to each other as places do. -/
theorem columns {line : List Char} (h : Laminar k l p q) (hp : p.1 < p.2 ∧ p.2 ≤ line.length)
    (hq : q.1 < q.2 ∧ q.2 ≤ line.length) :
    Laminar k l (columns line p) (columns line q) where
  nested := h.nested.imp (·.columns line) (Or.imp (·.columns line) (·.columns line))
  apart := fun hlayer => (h.apart hlayer).columns line
  between_quotes := fun hk hl =>
    (h.between_quotes hk hl).imp (·.columns line) (·.columns hp.1.le hq.2)
  quotes_around := fun hk hl =>
    (h.quotes_around hk hl).imp (·.columns line) (·.columns hq.1.le hp.2)

end Laminar

section Cuts

variable {k l : Category} {line : List Char} {c d : Cut}

theorem quote_not_mem_of_mem_cuts (hk : k ≠ .string) (hc : c ∈ cuts k.rule line) :
    '"' ∉ c.text := by
  intro hquote
  by_cases hnumber : k = .number
  · subst hnumber
    exact absurd (isPart_of_mem_cut hc '"' hquote) (by decide)
  · rw [Category.rule, Category.layer_eq_zero hnumber hk] at hc
    exact absurd (isWordChar_of_mem_cut hc '"' hquote) (by decide)

theorem laminar_word_numeral (hk : k.layer = 0) (hc : c ∈ cuts wordLength line)
    (hd : d ∈ cuts Numeral.lengthAt line) : Laminar k .number c.places d.places := by
  have hfits := Numeral.fits_of_mem_cuts hd
  have hstring : k ≠ .string := by
    rintro rfl
    cases hk
  rcases apart_or_within_of_boundaries hc hfits.boundary_start hfits.boundary_stop with h | h
  · exact .of_apart h
  · exact .of_within (by rw [hk]; decide) hstring Category.noConfusion h

theorem laminar_quotation (hk : k ≠ .string) (hc : c ∈ cuts k.rule line)
    (hd : d ∈ cuts Quotation.lengthAt line) : Laminar k .string c.places d.places := by
  obtain ⟨inner, htext⟩ := Quotation.exists_inner_of_mem_cuts hd
  obtain ⟨behind, hon⟩ := isOn_of_mem_cuts hd
  have hopen : (line.drop d.places.1).head? = some '"' := by
    rw [hon.line_eq, Cut.places, htext, List.drop_left]
    rfl
  have hclose : (line.drop (d.places.2 - 1)).head? = some '"' := by
    have hsplit : line = (d.before ++ '"' :: inner) ++ '"' :: behind := by
      rw [hon.line_eq, htext]
      simp
    have hplace : d.places.2 - 1 = (d.before ++ '"' :: inner).length := by
      rw [Cut.places, htext]
      simp
    rw [hplace, hsplit, List.drop_left]
    rfl
  have hlayer : k.layer ≠ Category.layer .string := mt Category.eq_string_of_layer_eq hk
  rcases apart_or_inside_of_not_mem hc (quote_not_mem_of_mem_cuts hk hc) hopen hclose with h | h
  · exact .of_apart h
  · exact .of_inside hlayer hk h

/-- What is found for two spans of one line overlaps only where one has all of the other. -/
theorem laminar_of_mem_cuts (hc : c ∈ cuts k.rule line) (hd : d ∈ cuts l.rule line)
    (hne : k.layer = l.layer → c ≠ d) : Laminar k l c.places d.places := by
  by_cases hlayer : k.layer = l.layer
  · rw [Category.rule_eq_of_layer_eq hlayer] at hc
    exact .of_apart (apart_of_mem_cuts hc hd (hne hlayer))
  by_cases hl : l = .string
  · subst hl
    exact laminar_quotation (fun hk => hlayer (congrArg _ hk)) hc hd
  by_cases hk : k = .string
  · subst hk
    exact (laminar_quotation hl hd hc).symm
  -- Of the two that are left, one is a numeral and the other a word.
  by_cases hnumber : l = .number
  · subst hnumber
    have hzero := Category.layer_eq_zero (fun hk => hlayer (congrArg _ hk)) hk
    rw [Category.rule, hzero] at hc
    exact laminar_word_numeral hzero hc hd
  · have hzero := Category.layer_eq_zero hnumber hl
    rw [Category.rule, hzero] at hd
    obtain rfl : k = .number := by
      by_contra hk'
      exact hlayer ((Category.layer_eq_zero hk' hk).trans hzero.symm)
    exact (laminar_word_numeral hzero hd hc).symm

end Cuts

/-- The columns of a span, from its start to its end. -/
def Span.columns (s : Span) : Nat × Nat := (s.start, s.stop)

theorem columns_ofOccurrence {rule : LengthRule} {line : List Char} {c : Cut}
    (hc : c ∈ cuts rule line) (index : Nat) (category : Category) :
    (Span.ofOccurrence index category c.occurrence).columns = columns line c.places := by
  obtain ⟨_, hon⟩ := isOn_of_mem_cuts hc
  rw [ofOccurrence_eq_ofPlaces index category hon.line_eq, Span.columns,
    Span.stop_ofPlaces _ _ (Cut.places_of_mem hc).1.le]
  rfl

section Spans

variable {text : List Char} {a b : Span}

/-- Two spans of one line are both what scans have found there, since a comment has its line for
itself. -/
theorem exists_found_two_of_mem_classify {catalog : Catalog} (ha : a ∈ classify catalog text)
    (hb : b ∈ classify catalog text) (hline : a.line = b.line) (hne : a ≠ b) :
    ∃ line c d, Found catalog line a.category c ∧ Found catalog line b.category d ∧
      a = Span.ofOccurrence a.line a.category c.occurrence ∧
        b = Span.ofOccurrence b.line b.category d.occurrence := by
  obtain ⟨line, hget, hmem⟩ := exists_line_of_mem_classify ha
  obtain ⟨line', hget', hmem'⟩ := exists_line_of_mem_classify hb
  rw [← hline, hget] at hget'
  obtain rfl := Option.some.inj hget'
  rw [← hline] at hmem'
  have hspan := (mem_lineSpans_iff.mp hmem).2
  have hspan' := (mem_lineSpans_iff.mp hmem').2
  split at hspan
  case isTrue hcovers =>
    rw [if_pos hcovers] at hspan'
    exact absurd (hspan.trans hspan'.symm) hne
  case isFalse hcovers =>
    rw [if_neg hcovers] at hspan'
    obtain ⟨c, hfound, hc⟩ := exists_found_of_mem_codeSpans hspan
    obtain ⟨d, hfound', hd⟩ := exists_found_of_mem_codeSpans hspan'
    rw [hline] at hd
    exact ⟨line, c, d, hfound, hfound', hc, hd⟩

theorem laminar_of_mem_classify {sections : Sections}
    (ha : a ∈ classify (Catalog.assemble sections) text)
    (hb : b ∈ classify (Catalog.assemble sections) text) (hline : a.line = b.line)
    (hstart : a.category.layer = b.category.layer → a.start ≠ b.start) :
    Laminar a.category b.category a.columns b.columns := by
  have hne : a ≠ b := by
    rintro rfl
    exact hstart rfl rfl
  obtain ⟨line, c, d, hfound, hfound', hspan, hspan'⟩ :=
    exists_found_two_of_mem_classify ha hb hline hne
  have hc := hfound.mem_cuts
  have hd := hfound'.mem_cuts
  have hcuts : a.category.layer = b.category.layer → c ≠ d := by
    rintro hlayer rfl
    refine hstart hlayer ?_
    rw [hspan, hspan']
    rfl
  have hcolumns : a.columns = columns line c.places := by
    rw [hspan]
    exact columns_ofOccurrence hc _ _
  have hcolumns' : b.columns = columns line d.places := by
    rw [hspan']
    exact columns_ofOccurrence hd _ _
  rw [hcolumns, hcolumns']
  exact (laminar_of_mem_cuts hc hd hcuts).columns (Cut.places_of_mem hc) (Cut.places_of_mem hd)

end Spans

/-- Two spans of one line lie apart or one has all of the other. They lie apart if one scan has
found both, and what overlaps a string lies between its quotes, the first and the last of what the
string marks. -/
theorem spans_nest (sections : Sections) (text : List Char) :
    ∃ spans, classify? (Catalog.assemble sections) text = some spans ∧
      spans.Pairwise (fun a b => a.line = b.line →
        Laminar a.category b.category a.columns b.columns) ∧
      ∀ s ∈ spans, s.category = .string → ∃ line before inner behind,
        (lines text)[s.line]? = some line ∧
          s.Marks line before ('"' :: (inner ++ ['"'])) behind := by
  refine ⟨_, classify?_eq _ text, ?_, fun s hs hstring => ?_⟩
  · have hwords : ∀ identifier category,
        (Catalog.assemble sections).category? identifier = some category → category.layer = 0 :=
      fun _ _ => layer_of_category?
    refine (pairwise_classify hwords text).imp_of_mem fun {a b} ha hb hlayered hline => ?_
    refine laminar_of_mem_classify ha hb hline fun hlayer hstart => ?_
    have hlt := hlayered (Span.notAfter_iff.mpr (Or.inr ⟨hline, hstart.le⟩))
      (Span.notAfter_iff.mpr (Or.inr ⟨hline.symm, hstart.ge⟩))
    exact hlt.ne hlayer
  · have hcomment : s.category ≠ .comment := by
      rw [hstring]
      exact Category.noConfusion
    obtain ⟨line, c, behind, hget, hc, -, hmarks⟩ := exists_cut_of_mem_classify hs hcomment
    rw [hstring] at hc
    obtain ⟨inner, htext⟩ := Quotation.exists_inner_of_mem_cuts hc
    rw [htext] at hmarks
    exact ⟨line, c.before, inner, behind, hget, hmarks⟩

/-- A keyword between the quotes of a string, and one that is the exponent mark of a number. -/
theorem spans_nest_around_keyword :
    ∃ spans, classify? (Catalog.assemble { lvalue := ["e"] })
        ['"', '5', ' ', 'e', '"', ' ', '1', '.', 'e', '+', '3'] = some spans ∧
      Laminar .lvalue .string (3, 4) (0, 5) ∧ Laminar .lvalue .number (8, 9) (6, 11) ∧
      ∃ line before inner behind,
        (⟨0, 0, 5, .string⟩ : Span).Marks line before ('"' :: (inner ++ ['"'])) behind := by
  obtain ⟨spans, hspans, hnest, hquotes⟩ := spans_nest { lvalue := ["e"] }
    ['"', '5', ' ', 'e', '"', ' ', '1', '.', 'e', '+', '3']
  have hsymm : Std.Symm fun a b : Span => a.line = b.line →
      Laminar a.category b.category a.columns b.columns :=
    ⟨fun _ _ h hline => (h hline.symm).symm⟩
  have hclassify := Option.some.inj ((classify?_eq _ _).symm.trans hspans)
  have hword : ⟨0, 3, 1, .lvalue⟩ ∈ spans := hclassify ▸ List.mem_mergeSort.mpr (by decide)
  have hstring : ⟨0, 0, 5, .string⟩ ∈ spans := hclassify ▸ List.mem_mergeSort.mpr (by decide)
  have hmark : ⟨0, 8, 1, .lvalue⟩ ∈ spans := hclassify ▸ List.mem_mergeSort.mpr (by decide)
  have hnumber : ⟨0, 6, 5, .number⟩ ∈ spans := hclassify ▸ List.mem_mergeSort.mpr (by decide)
  obtain ⟨line, before, inner, behind, -, hmarks⟩ := hquotes _ hstring rfl
  exact ⟨spans, hspans, hnest.forall hword hstring (by decide) rfl,
    hnest.forall hmark hnumber (by decide) rfl, line, before, inner, behind, hmarks⟩

end FoamDict.Highlight
