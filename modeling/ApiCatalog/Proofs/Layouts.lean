import ApiCatalog.Proofs.FaultlessReading

/-!
# Every layout is read as the forms

Forms that can be printed are read again from their one-line texts and from a document in any style:
the indent and the width move tokens to other places and change none of them. The recovering reader
takes a bracket in the first column for the next declaration, so it finds the forms exactly if none
of their brackets is there. None is as long as the columns fit and clauses are indented. An indent
that is too wide goes round to nothing.

Main statement: `Form.readsAs_document_and_textLines`.
-/

namespace ApiCatalog

namespace Form

variable {forms : List Form}

/-! ### One line for each form -/

theorem toList_textLines (forms : List Form) :
    (textLines forms).toList = ['\n'].intercalate (forms.map print) ++ [] := by
  rw [textLines, String.toList_intercalate, List.map_map, List.append_nil]
  congr 1
  refine List.map_congr_left fun f _ => ?_
  rw [Function.comp_apply, text, String.toList_ofList]

section Printable

variable (h : ∀ f ∈ forms, f.MadeOf Atom.IsPrintable)
include h

theorem readsAs_textLines : ReadsAs (textLines forms).toList forms := by
  rw [toList_textLines]
  exact readsAs_intercalate (by decide) (by simp) (by simp) h fun f hf => spells_print f (h f hf)

/-- No line end is inside a form, so the recovering reader finds every form at the start of its
line. -/
theorem recoversAs_textLines (columns : ColumnsFit (textLines forms).toList) :
    RecoversAs (textLines forms).toList forms := by
  rw [toList_textLines] at columns ⊢
  exact recoversAs_intercalate (by decide) (by simp) (by simp) h
    (fun f hf => spells_print f (h f hf)) (fun f hf => isIndented_print (h f hf)) columns

/-! ### Documents -/

theorem readsAs_document (style : LayoutStyle) : ReadsAs (document style forms).toList forms := by
  obtain ⟨final, hfinal, text⟩ := exists_toList_document style forms
  rw [text]
  exact readsAs_intercalate (by decide) (List.forall_mem_singleton.2 (by decide)) hfinal h
    fun f hf => spells_layout style 0 f (h f hf)

omit h in
/-- The forms of a document begin where a line does, and reach no columns but those of the
document. -/
theorem staysBelow_of_mem_intercalate {n : Nat} {texts : List (List Char)} {text : List Char}
    (htexts : StaysBelow n 0 (['\n', '\n'].intercalate texts)) (htext : text ∈ texts) :
    StaysBelow n 0 text := by
  induction texts with
  | nil => cases htext
  | cons first texts ih =>
    cases texts with
    | nil =>
      rw [List.intercalate_singleton] at htexts
      rwa [List.mem_singleton.1 htext]
    | cons second texts =>
      rw [List.intercalate_cons_cons] at htexts
      rcases List.mem_cons.1 htext with rfl | htext
      · exact htexts.left.left
      · refine ih ?_ htext
        have := htexts.right
        rwa [columnAfter_append] at this

/-- In a document with indented clauses a line that does not begin a form begins with a blank. -/
theorem recoversAs_document {style : LayoutStyle} (hstyle : style.Indents UInt32.size)
    (columns : ColumnsFit (document style forms).toList) :
    RecoversAs (document style forms).toList forms := by
  obtain ⟨final, hfinal, text⟩ := exists_toList_document style forms
  rw [text] at columns ⊢
  refine recoversAs_intercalate (by decide) (List.forall_mem_singleton.2 (by decide)) hfinal h
    (fun f hf => spells_layout style 0 f (h f hf)) (fun f hf => ?_) columns
  exact isIndented_layout hstyle 0 f (h f hf)
    (staysBelow_of_mem_intercalate columns.staysBelow.left (List.mem_map_of_mem hf))

end Printable

/-- Forms that can be printed are what their texts are strictly read as, in whatever style they are
laid out. The recovering reader takes a text for the forms exactly if no declaration begins inside a
bracket there. So it does if the columns of the text fit in 32 bits and, in a document, clauses are
indented by an amount that leaves room for a column in 64 bits. -/
theorem readsAs_document_and_textLines (style : LayoutStyle)
    (h : ∀ f ∈ forms, f.MadeOf Atom.IsPrintable) :
    (ReadsAs (document style forms).toList forms ∧ ReadsAs (textLines forms).toList forms) ∧
      ((RecoversAs (document style forms).toList forms ↔
          NoneBeginsInside (document style forms).toList) ∧
        (RecoversAs (textLines forms).toList forms ↔
          NoneBeginsInside (textLines forms).toList)) ∧
      (ColumnsFit (textLines forms).toList → RecoversAs (textLines forms).toList forms) ∧
      (0 < style.indentWidth → style.indentWidth.toNat + UInt32.size ≤ UInt64.size →
        ColumnsFit (document style forms).toList →
          RecoversAs (document style forms).toList forms) :=
  ⟨⟨readsAs_document h style, readsAs_textLines h⟩,
    ⟨recoversAs_iff (readsAs_document h style), recoversAs_iff (readsAs_textLines h)⟩,
    recoversAs_textLines h,
    fun some room => recoversAs_document h
      (LayoutStyle.indents_of_le some (Nat.add_comm _ _ ▸ room))⟩

/-- A declaration with a clause for a vector that no line holds, and a string with a line end in
it. -/
theorem readsAs_document_and_textLines_narrow :
    let style : LayoutStyle := { indentWidth := 1, maxWidth := 4 }
    let forms := [list [symbol "class:", symbol "-+", keyword "::",
        vector [map [(ofAtom (.float ⟨0xbfe0000000000000⟩), symbol "?a")], list [symbol "é"]]],
      string "\n(\"", ofAtom (.int (-5))]
    (∀ f ∈ forms, f.MadeOf Atom.IsPrintable) ∧ ReadsAs (document style forms).toList forms ∧
      RecoversAs (document style forms).toList forms := by
  intro style forms
  have h : ∀ f ∈ forms, f.MadeOf Atom.IsPrintable := by
    simp [forms, keyword, string, ofAtom, MadeOf]
    decide +kernel
  have read := readsAs_document_and_textLines style h
  exact ⟨h, read.1.1, read.2.2.2 (by decide) (by decide)
    (columnsFit_of_length (by decide +kernel))⟩

/-- An indent that goes round to nothing puts the list of a clause into the first column. -/
theorem not_recoversAs_document_wide :
    let style : LayoutStyle := { indentWidth := 0xffffffffffffffff, maxWidth := 4 }
    let forms := [vector [list [symbol "class:", symbol "A", keyword "k", symbol "v",
      list [symbol "foo"]]]]
    (∀ f ∈ forms, f.MadeOf Atom.IsPrintable) ∧
      document style forms = "[(class: A\n:k v\n(foo))]\n" ∧
      ReadsAs (document style forms).toList forms ∧
      ¬RecoversAs (document style forms).toList forms := by
  intro style forms
  have h : ∀ f ∈ forms, f.MadeOf Atom.IsPrintable := by
    simp [forms, keyword, ofAtom, MadeOf]
    decide +kernel
  have text : document style forms = "[(class: A\n:k v\n(foo))]\n" := by decide +kernel
  refine ⟨h, text, readsAs_document h style, ?_⟩
  rw [recoversAs_iff (readsAs_document h style), text]
  decide +kernel

end Form

end ApiCatalog
