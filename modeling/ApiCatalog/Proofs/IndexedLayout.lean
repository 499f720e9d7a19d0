import ApiCatalog.Form.Layout
import ApiCatalog.Proofs.ByteOffsets
import ApiCatalog.Proofs.IndexedAnalysis

/-!
# Laying forms out behind what has been written

The text of a form is written behind an output, and the column it begins in is found in the output:
the characters are counted that a cut at the byte behind the last line end leaves. The items of a
declaration are divided at the first keyword. Every such cut and division has a result, and what is
written is the layout of the form from the column that the output ends in.

Main definitions: `column?`, `Form.layoutOnto?`, `Form.document?`.
Main statements: `column?_eq`, `Form.layoutOnto?_eq`, `Form.document?_eq`.
-/

namespace ApiCatalog

/-! ### The column that an output ends in -/

/-- The byte offset of the last line end, in a text with `offset` bytes before it. -/
def lastLineEnd? (offset : Nat) (text : List Char) : Option Nat :=
  match text with
  | [] => none
  | c :: cs =>
    (lastLineEnd? (offset + c.utf8Size) cs).or (if c = '\n' then some offset else none)

/-- The number of characters behind the last line end. -/
def column? (out : List Char) : Option Nat :=
  let lineStart := match lastLineEnd? 0 out with
    | none => 0
    | some i => i + 1
  (dropBytes lineStart out).map List.length

/-- A last line end has no other behind it. -/
theorem lastLineEnd?_spec (offset : Nat) (text : List Char) :
    (lastLineEnd? offset text = none ∧ '\n' ∉ text) ∨
      ∃ before line, text = before ++ '\n' :: line ∧ '\n' ∉ line ∧
        lastLineEnd? offset text = some (offset + byteCount before) := by
  induction text generalizing offset with
  | nil => exact .inl ⟨rfl, List.not_mem_nil⟩
  | cons c cs ih =>
    rw [lastLineEnd?]
    obtain ⟨none, unbroken⟩ | ⟨before, line, rfl, unbroken, last⟩ := ih (offset + c.utf8Size)
    · rw [none, Option.none_or]
      split
      · rename_i same
        subst same
        exact .inr ⟨[], cs, rfl, unbroken, rfl⟩
      · rename_i other
        exact .inl ⟨rfl, List.not_mem_cons_of_ne_of_not_mem (Ne.symm other) unbroken⟩
    · rw [last, Option.some_or, Nat.add_assoc]
      exact .inr ⟨c :: before, line, rfl, unbroken, rfl⟩

/-- The cut behind the last line end leaves the last line. -/
theorem column?_eq (out : List Char) : column? out = some (columnAfter 0 out) := by
  obtain ⟨none, unbroken⟩ | ⟨before, line, rfl, unbroken, last⟩ := lastLineEnd?_spec 0 out
  · have cut := dropBytes_append [] out
    rw [List.nil_append] at cut
    rw [column?, none, columnAfter_of_not_mem unbroken, Nat.zero_add]
    exact congrArg (Option.map List.length) cut
  · have cut := dropBytes_append (before ++ ['\n']) line
    rw [byteCount_append, List.append_assoc, List.singleton_append] at cut
    rw [column?, last, Nat.zero_add, columnAfter_append, columnAfter, List.foldl_cons, if_pos rfl,
      ← columnAfter, columnAfter_of_not_mem unbroken, Nat.zero_add]
    exact congrArg (Option.map List.length) cut

/-- A line with a character of two bytes. -/
example : column? "class: A\né b".toList = some 3 := by decide

/-! ### Forms behind an output -/

theorem sublist_of_itemsTo? {i : Nat} {items row : List Form} (h : itemsTo? i items = some row) :
    row.Sublist items := by
  unfold itemsTo? at h
  split at h <;> cases h
  exact List.take_sublist i items

theorem sublist_of_itemsFrom? {i : Nat} {items rest : List Form}
    (h : itemsFrom? i items = some rest) : rest.Sublist items := by
  unfold itemsFrom? at h
  split at h <;> cases h
  exact List.drop_sublist i items

theorem sizeOf_le_of_sublist {part items : List Form} (h : part.Sublist items) :
    sizeOf part ≤ sizeOf items := by
  induction h with
  | slnil => exact Nat.le_refl _
  | cons f _ ih =>
    rw [List.cons.sizeOf_spec]
    omega
  | cons_cons f _ ih =>
    rw [List.cons.sizeOf_spec, List.cons.sizeOf_spec]
    omega

namespace Form

/-- The output with the text of a form on one line behind it, whether or not it fits. -/
def printOnto? (out : List Char) (f : Form) : Option (List Char) := do
  let _ ← column? out
  some (out ++ f.print)

mutual

/-- The output with a form laid out behind it. -/
def layoutOnto? (style : LayoutStyle) (out : List Char) (f : Form) : Option (List Char) :=
  match f with
  | .atom a span => (Form.atom a span).printOnto? out
  | .seq .round items span =>
    if (Form.seq .round items span).isDeclaration then do
      let indent := style.indentFrom (← column? out)
      let clauseStart := items.findIdx isKeyword
      let ⟨row, _⟩ ← (itemsTo? clauseStart items).attach
      let out ← layoutAllOnto? style [' '] true (out ++ ['(']) row
      let ⟨clauses, _⟩ ← (itemsFrom? clauseStart items).attach
      let out ← layoutClausesOnto? style indent out clauses
      some (out ++ [')'])
    else (Form.seq .round items span).printOnto? out
  | .seq .square items span => do
    if (Form.seq .square items span).fits style (← column? out) then
      some (out ++ (Form.seq .square items span).print)
    else
      let column := (← column? out) + 1
      let out ← layoutAllOnto? style (newLine column) true (out ++ ['[']) items
      some (out ++ [']'])
  | .seq .curly items span => do
    if (Form.seq .curly items span).fits style (← column? out) then
      some (out ++ (Form.seq .curly items span).print)
    else
      let column := (← column? out) + 1
      let out ← layoutEntriesOnto? style column true (out ++ ['\x7b']) items
      some (out ++ ['\x7d'])
termination_by sizeOf f
decreasing_by
  · have := sizeOf_le_of_sublist (sublist_of_itemsTo? ‹itemsTo? _ items = some row›)
    rw [seq.sizeOf_spec]
    omega
  · have := sizeOf_le_of_sublist (sublist_of_itemsFrom? ‹itemsFrom? _ items = some clauses›)
    rw [seq.sizeOf_spec]
    omega
  · rw [seq.sizeOf_spec]
    omega
  · rw [seq.sizeOf_spec]
    omega

/-- The output with items laid out behind it, with a gap between any two. -/
def layoutAllOnto? (style : LayoutStyle) (gap : List Char) (isFirst : Bool) (out : List Char)
    (items : List Form) : Option (List Char) :=
  match items with
  | [] => some out
  | item :: rest => do
    let out ← layoutOnto? style (out ++ if isFirst then [] else gap) item
    layoutAllOnto? style gap false out rest
termination_by sizeOf items

/-- The output with clauses laid out behind it. Each begins a line with its keyword, and has a
value beside it unless another keyword follows. -/
def layoutClausesOnto? (style : LayoutStyle) (indent : Nat) (out : List Char)
    (clauses : List Form) : Option (List Char) :=
  match clauses with
  | [] => some out
  | key :: rest => do
    let out := out ++ (newLine indent ++ key.print)
    match rest with
    | [] => some out
    | value :: rest =>
      if value.isKeyword then layoutClausesOnto? style indent out (value :: rest)
      else
        let out ← layoutOnto? style (out ++ [' ']) value
        layoutClausesOnto? style indent out rest
termination_by sizeOf clauses

/-- The output with the entries of a map laid out behind it, each on its own line. -/
def layoutEntriesOnto? (style : LayoutStyle) (column : Nat) (isFirst : Bool) (out : List Char)
    (items : List Form) : Option (List Char) :=
  match items with
  | [] => some out
  | [key] => some (out ++ ((if isFirst then [] else newLine column) ++ key.print))
  | key :: value :: rest => do
    let text := (if isFirst then [] else newLine column) ++ key.print ++ [' ']
    let out ← layoutOnto? style (out ++ text) value
    layoutEntriesOnto? style column false out rest
termination_by sizeOf items

end

/-! ### What is written is the layout -/

theorem printOnto?_eq (out : List Char) (f : Form) : f.printOnto? out = some (out ++ f.print) := by
  rw [printOnto?, column?_eq]
  rfl

section Division

variable (items : List Form)

theorem itemsTo?_findIdx :
    itemsTo? (items.findIdx isKeyword) items = some (items.take (items.findIdx isKeyword)) :=
  if_pos List.findIdx_le_length

theorem itemsFrom?_findIdx :
    itemsFrom? (items.findIdx isKeyword) items = some (items.drop (items.findIdx isKeyword)) :=
  if_pos List.findIdx_le_length

/-- No item before the first keyword is one. -/
theorem isKeyword_of_mem_take {item : Form} (h : item ∈ items.take (items.findIdx isKeyword)) :
    item.isKeyword = false := by
  obtain ⟨i, inside, rfl⟩ := List.mem_take_iff_getElem.1 h
  exact List.not_of_lt_findIdx (Nat.lt_min.1 inside).1

/-- What follows the items before the first keyword begins with it. -/
theorem isKeyword_head_drop :
    ∀ key ∈ (items.drop (items.findIdx isKeyword)).head?, key.isKeyword = true := by
  intro key first
  rw [List.head?_drop] at first
  obtain ⟨inside, rfl⟩ := List.getElem?_eq_some_iff.1 first
  exact List.findIdx_getElem

end Division

/-- A keyword begins a line whatever stands before it. -/
theorem layoutClauses_of_isKeyword (style : LayoutStyle) (indent : Nat) (state state' : ClauseState)
    (column : Nat) {items : List Form} (h : ∀ key ∈ items.head?, key.isKeyword = true) :
    layoutClauses style indent state column items =
      layoutClauses style indent state' column items := by
  cases items with
  | nil => rfl
  | cons key rest => simp only [layoutClauses, h key rfl, Bool.true_or, if_true]

/-- Before the first keyword an item stands on the line of the head. -/
theorem layoutClauses_of_not_isKeyword (style : LayoutStyle) (indent : Nat) (isFirst : Bool)
    (column : Nat) {item : Form} (h : item.isKeyword = false) (rest : List Form) :
    layoutClauses style indent (if isFirst then .first else .positional) column (item :: rest) =
      (if isFirst then [] else [' ']) ++ item.layout style (column + if isFirst then 0 else 1) ++
        layoutClauses style indent .positional
          (columnAfter column ((if isFirst then [] else [' ']) ++
            item.layout style (column + if isFirst then 0 else 1))) rest := by
  cases isFirst <;> simp [layoutClauses, h]

/-- Where a new line is due, any item begins one. -/
theorem layoutClauses_key (style : LayoutStyle) (indent column : Nat) (key : Form)
    (rest : List Form) :
    layoutClauses style indent .key column (key :: rest) =
      newLine indent ++ key.print ++ layoutClauses style indent .value
        (columnAfter column (newLine indent ++ key.print)) rest := by
  simp [layoutClauses]

/-- A value stands beside its keyword. -/
theorem layoutClauses_value (style : LayoutStyle) (indent column : Nat) {value : Form}
    (h : value.isKeyword = false) (rest : List Form) :
    layoutClauses style indent .value column (value :: rest) =
      [' '] ++ value.layout style (column + 1) ++ layoutClauses style indent .key
        (columnAfter column ([' '] ++ value.layout style (column + 1))) rest := by
  simp [layoutClauses, h]

/-- Whether what is written behind an output is the layout of the form from the column there. -/
def IsWritten (style : LayoutStyle) (f : Form) : Prop :=
  ∀ out, f.layoutOnto? style out = some (out ++ f.layout style (columnAfter 0 out))

section Items

variable {style : LayoutStyle} {items : List Form} (h : ∀ f ∈ items, f.IsWritten style)
include h

theorem layoutAllOnto?_newLine (column : Nat) (isFirst : Bool) (out : List Char)
    (start : isFirst = true → columnAfter 0 out = column) :
    layoutAllOnto? style (newLine column) isFirst out items =
      some (out ++ layoutItems style column isFirst items) := by
  induction items generalizing out isFirst with
  | nil => rw [layoutAllOnto?, layoutItems, List.append_nil]
  | cons item rest ih =>
    obtain ⟨written, h⟩ := List.forall_mem_cons.1 h
    rw [layoutAllOnto?, layoutItems, written, columnAfter_append, columnAfter_gap start,
      Option.bind_eq_bind, Option.bind_some, ih h false _ fun later => absurd later Bool.false_ne_true]
    simp only [List.append_assoc]

theorem layoutEntriesOnto?_eq (column : Nat) (isFirst : Bool) (out : List Char)
    (start : isFirst = true → columnAfter 0 out = column) :
    layoutEntriesOnto? style column isFirst out items =
      some (out ++ layoutEntries style column isFirst items) := by
  induction items using List.twoStepInduction generalizing out isFirst with
  | nil => rw [layoutEntriesOnto?, layoutEntries, List.append_nil]
  | singleton key =>
    rw [layoutEntriesOnto?, layoutEntries]
  | cons_cons key value rest ih _ =>
    obtain ⟨written, h⟩ := List.forall_mem_cons.1 (List.forall_mem_cons.1 h).2
    rw [layoutEntriesOnto?, layoutEntries, written, Option.bind_eq_bind, Option.bind_some,
      ih h false _ fun later => absurd later Bool.false_ne_true]
    simp only [List.append_assoc, columnAfter_append _ _ (key.print ++ [' ']),
      columnAfter_append 0 out, columnAfter_gap start, columnAfter_gap fun _ => rfl]

/-- Items before the first keyword stand on the line of the head, and what follows them begins with
a keyword. -/
theorem layoutAllOnto?_space (indent : Nat) (isFirst : Bool) (out : List Char)
    (plain : ∀ item ∈ items, item.isKeyword = false) {rest : List Form}
    (keyed : ∀ key ∈ rest.head?, key.isKeyword = true) :
    ∃ text, layoutAllOnto? style [' '] isFirst out items = some (out ++ text) ∧
      layoutClauses style indent (if isFirst then .first else .positional) (columnAfter 0 out)
        (items ++ rest) =
      text ++ layoutClauses style indent .key (columnAfter 0 (out ++ text)) rest := by
  induction items generalizing out isFirst with
  | nil =>
    refine ⟨[], by rw [layoutAllOnto?, List.append_nil], ?_⟩
    rw [List.append_nil, List.nil_append, List.nil_append]
    exact layoutClauses_of_isKeyword style indent _ _ _ keyed
  | cons item row ih =>
    obtain ⟨written, h⟩ := List.forall_mem_cons.1 h
    obtain ⟨unkeyed, plain⟩ := List.forall_mem_cons.1 plain
    have place : columnAfter 0 (out ++ if isFirst then [] else [' ']) =
        columnAfter 0 out + if isFirst then 0 else 1 := by
      rw [columnAfter_append]
      cases isFirst <;> rfl
    -- Both sides write the same text for the item; what it is does not matter for the others.
    have text := written (out ++ if isFirst then [] else [' '])
    have head := layoutClauses_of_not_isKeyword style indent isFirst (columnAfter 0 out) unkeyed
      (row ++ rest)
    rw [place, List.append_assoc] at text
    generalize (if isFirst then [] else [' ']) ++
      item.layout style (columnAfter 0 out + if isFirst then 0 else 1) = line at text head
    obtain ⟨more, hmore, behind⟩ := ih h false (out ++ line) plain
    rw [columnAfter_append 0 out, if_neg Bool.false_ne_true, List.append_assoc] at behind
    refine ⟨line ++ more, ?_, ?_⟩
    · rw [layoutAllOnto?, text, Option.bind_eq_bind, Option.bind_some, hmore, List.append_assoc]
    · rw [List.cons_append, head, behind, List.append_assoc]

theorem layoutClausesOnto?_eq (indent : Nat) (out : List Char) :
    layoutClausesOnto? style indent out items =
      some (out ++ layoutClauses style indent .key (columnAfter 0 out) items) := by
  induction items using List.twoStepInduction generalizing out with
  | nil => rw [layoutClausesOnto?, layoutClauses, List.append_nil]
  | singleton key =>
    rw [layoutClausesOnto?, layoutClauses_key]
    simp only [layoutClauses, List.append_nil]
  | cons_cons key value rest ih ih' =>
    obtain ⟨-, h⟩ := List.forall_mem_cons.1 h
    rw [layoutClausesOnto?, layoutClauses_key]
    split
    · rename_i keyed
      have keyed : ∀ key ∈ (value :: rest).head?, key.isKeyword = true := by
        rintro _ ⟨⟩
        exact keyed
      rw [ih' value h, layoutClauses_of_isKeyword style indent .value .key _ keyed,
        columnAfter_append 0 out, List.append_assoc out]
    · rename_i unkeyed
      obtain ⟨written, h⟩ := List.forall_mem_cons.1 h
      rw [written, Option.bind_eq_bind, Option.bind_some, ih h,
        layoutClauses_value style indent _ (Bool.not_eq_true _ ▸ unkeyed)]
      have gap (column : Nat) : columnAfter column [' '] = column + 1 := rfl
      simp only [columnAfter_append, gap, List.append_assoc]

end Items

/-- What is written behind an output is the layout of the form from the column there. -/
theorem layoutOnto?_eq (style : LayoutStyle) (f : Form) : f.IsWritten style := by
  intro out
  -- By induction on the size: the items are the same forms after a division as before.
  match f with
  | .atom a span => rw [layoutOnto?, printOnto?_eq, layout, print]
  | .seq .round items span =>
    have parts : ∀ f ∈ items, f.IsWritten style := fun f _ => layoutOnto?_eq style f
    rw [layoutOnto?, layout]
    split
    · have start : columnAfter 0 (out ++ ['(']) = columnAfter 0 out + 1 :=
        (columnAfter_append 0 out _).trans (columnAfter_opening _ .round)
      obtain ⟨text, written, layout⟩ := layoutAllOnto?_space
        (fun f hf => parts f (List.mem_of_mem_take hf)) (style.indentFrom (columnAfter 0 out)) true
        (out ++ ['(']) (fun _ => isKeyword_of_mem_take items) (isKeyword_head_drop items)
      rw [List.take_append_drop, if_pos rfl, start] at layout
      simp only [column?_eq, Option.bind_eq_bind, Option.bind_some,
        attach_bind (itemsTo?_findIdx items), attach_bind (itemsFrom?_findIdx items), written,
        layoutClausesOnto?_eq fun f hf => parts f (List.mem_of_mem_drop hf), layout,
        List.append_assoc, List.cons_append, List.nil_append]
    · exact printOnto?_eq _ _
  | .seq .square items span =>
    have parts : ∀ f ∈ items, f.IsWritten style := fun f _ => layoutOnto?_eq style f
    rw [layoutOnto?, layout, column?_eq]
    simp only [Option.bind_eq_bind, Option.bind_some]
    split
    · rfl
    · have start : columnAfter 0 (out ++ ['[']) = columnAfter 0 out + 1 :=
        (columnAfter_append 0 out _).trans (columnAfter_opening _ .square)
      rw [layoutAllOnto?_newLine parts _ true _ fun _ => start]
      simp only [Option.bind_some, List.append_assoc, List.cons_append, List.nil_append]
  | .seq .curly items span =>
    have parts : ∀ f ∈ items, f.IsWritten style := fun f _ => layoutOnto?_eq style f
    rw [layoutOnto?, layout, column?_eq]
    simp only [Option.bind_eq_bind, Option.bind_some]
    split
    · rfl
    · have start : columnAfter 0 (out ++ ['\x7b']) = columnAfter 0 out + 1 :=
        (columnAfter_append 0 out _).trans (columnAfter_opening _ .curly)
      rw [layoutEntriesOnto?_eq parts _ true _ fun _ => start]
      simp only [Option.bind_some, List.append_assoc, List.cons_append, List.nil_append]
termination_by sizeOf f

/-! ### Documents -/

/-- The text of a form, laid out behind nothing. -/
def laidOut? (style : LayoutStyle) (f : Form) : Option String :=
  (f.layoutOnto? style []).map String.ofList

/-- The texts of forms, laid out with an empty line between any two, and a line end behind the
last. -/
def document? (style : LayoutStyle) (forms : List Form) : Option String := do
  let text := "\n\n".intercalate (← forms.mapM (laidOut? style))
  some (if text.isEmpty then text else text ++ "\n")

theorem laidOut?_eq (style : LayoutStyle) (f : Form) :
    f.laidOut? style = some (f.laidOut style) := by
  rw [laidOut?, layoutOnto?_eq]
  rfl

theorem document?_eq (style : LayoutStyle) (forms : List Form) :
    document? style forms = some (document style forms) := by
  have texts : forms.mapM (laidOut? style) = some (forms.map (laidOut style)) := by
    rw [funext (laidOut?_eq style)]
    exact List.mapM_pure
  rw [document?, texts]
  rfl

end Form

end ApiCatalog
