import ApiCatalog.Loading
import ApiCatalog.Proofs.ByteOffsets
import ApiCatalog.Proofs.ExactSpans
import ApiCatalog.Proofs.IndexedLayout
import ApiCatalog.Proofs.SearchOrder

/-!
# Nothing outside is reached from sources

From sources to catalogs, texts are cut at byte offsets, and lists are divided, gone through and
shortened at indices. Here each of these has no result if it reaches outside, and neither has what
is made of it. No such thing happens, whatever the sources and settings, as long as the lines and
columns of the sources can be counted: reading, analysis, layout, search and loading all have a
result, the same as by the definitions without offsets and indices.

Main definitions: `Reader.ofText?`, `Catalog.lookupOrder?`, `load?`.
Main statement: `load_reaches_nothing_outside`.
-/

namespace ApiCatalog

/-! ### Orders of search -/

theorem itemsFrom?_append {α : Type} (items more : List α) :
    itemsFrom? items.length (items ++ more) = some more := by
  have inside : items.length ≤ (items ++ more).length := by simp
  rw [itemsFrom?, if_pos inside, List.drop_left]

namespace Catalog

/-- The search through the pending names, behind the types already in order. What a chain adds to
the order is found in it again, from where the order ended before. -/
def searchFrom? (c : Catalog) (order : List TypeDeclaration) (pending : List String) :
    Option (List TypeDeclaration) :=
  match pending with
  | [] => some order
  | name :: rest =>
    let extended := order ++ c.chain (order.map (·.name)) name
    match found : itemsFrom? order.length extended with
    | none => none
    | some [] => searchFrom? c order rest
    | some (d :: ds) =>
      have chain : c.chain (order.map (·.name)) name = d :: ds :=
        Option.some.inj ((itemsFrom?_append order _).symm.trans found)
      have : unmet c.typeNames (order.map (·.name) ++
          (c.chain (order.map (·.name)) name).map (·.name)) <
            unmet c.typeNames (order.map (·.name)) :=
        unmet_lt (chain_head chain).1 (chain_head chain).2 (by simp [chain]) (by simp +contextual)
      searchFrom? c extended ((d :: ds).flatMap c.searchedCapabilities ++ rest)
termination_by (unmet c.typeNames (order.map (·.name)), pending.length)

/-- The types on which a member of the named type is searched for. -/
def lookupOrder? (c : Catalog) (name : String) : Option (List TypeDeclaration) :=
  c.searchFrom? [] [name]

theorem searchFrom?_eq (c : Catalog) (order : List TypeDeclaration) (pending : List String) :
    c.searchFrom? order pending = some (c.searchFrom order pending) := by
  fun_induction searchFrom? c order pending with
  | case1 order => rw [searchFrom]
  | case2 order name rest extended found =>
    rw [itemsFrom?_append] at found
    cases found
  | case3 order name rest extended found ih =>
    have chain := Option.some.inj ((itemsFrom?_append order _).symm.trans found)
    rw [ih, searchFrom_cons, chain, List.append_nil, List.flatMap_nil, List.nil_append]
  | case4 order name rest extended d ds found chain less ih =>
    rw [ih, searchFrom_cons, ← chain]

theorem lookupOrder?_eq (c : Catalog) (name : String) :
    c.lookupOrder? name = some (c.lookupOrder name) :=
  c.searchFrom?_eq [] [name]

end Catalog

/-! ### Names that are taken out -/

/-- The items without the one at an index, which must not lie behind them. -/
def removeAt? {α : Type} (i : Nat) (items : List α) : Option (List α) :=
  if i < items.length then some (items.eraseIdx i) else none

namespace OrderedMap

variable {α : Type}

/-- Removes the name, from the place in the order where it is found. -/
def erase? (m : OrderedMap α) (name : String) : Option (OrderedMap α) :=
  if m.contains name then do
    let order ← match m.order.idxOf? name with
      | none => some m.order
      | some i => removeAt? i m.order
    some ⟨order, m.entries.erase name⟩
  else some m

theorem erase?_eq (m : OrderedMap α) (name : String) : m.erase? name = some (m.erase name) := by
  unfold erase? erase
  split
  · rw [List.erase_eq_eraseIdx]
    cases place : m.order.idxOf? name with
    | none => rfl
    | some i =>
      obtain ⟨inside, -⟩ := List.findIdx?_eq_some_iff_getElem.1 place
      simp only [removeAt?, if_pos inside, Option.bind_eq_bind, Option.bind_some]
  · rfl

end OrderedMap

/-! ### Reading and collecting -/

/-- A text of which nothing has been read, if it can be divided into tokens. -/
def Reader.ofText? (source : List Char) : Option Reader :=
  (Cursor.lex? source).map fun lexed => ⟨source, lexed.stop, lexed.tokens, 0⟩

theorem Reader.ofText?_eq {source : List Char} (fits : CountsFit source) :
    ofText? source = some (ofText source) := by
  rw [ofText?, Cursor.lex?_eq fits]
  rfl

theorem foldlM_eq_some {α β : Type} {f : β → α → Option β} {g : β → α → β} {xs : List α}
    (h : ∀ x ∈ xs, ∀ s, f s x = some (g s x)) (s : β) : xs.foldlM f s = some (xs.foldl g s) := by
  induction xs generalizing s with
  | nil => rfl
  | cons x xs ih =>
    obtain ⟨first, h⟩ := List.forall_mem_cons.1 h
    rw [List.foldlM_cons, first, Option.bind_eq_bind, Option.bind_some, ih h, List.foldl_cons]

namespace Collected

/-- Takes the declaration of a name out. -/
def remove? (s : Collected) (name : String) : Option Collected := do
  some { s with types := ← s.types.erase? name, enums := ← s.enums.erase? name }

/-- Adds a declaration. -/
def add? (precedence : Precedence) (s : Collected) (declaration : Declaration) (origin : Origin) :
    Option Collected :=
  let name := declaration.name
  match declaration, precedence with
  | .augment a, _ => some (s.put (.augment a) origin)
  | declaration, .keepLast =>
    if s.contains name then do
      let s ← (s.report (duplicate name origin)).remove? name
      some (s.put declaration origin)
    else some (s.put declaration origin)
  | declaration, .keepFirst => some (s.add .keepFirst declaration origin)

/-- Adds the declaration of a form, or the problem that it has none. -/
def addForm? (precedence : Precedence) (source : Source) (s : Collected) (f : Form) :
    Option Collected := do
  match ← (Indexed.declaration f).run with
  | .ok d => s.add? precedence d ⟨source.name, f.span⟩
  | .error fault => some (s.report (source.locate fault.problem f.intendedName?))

/-- Adds the declarations and problems of a source. -/
def collect? (precedence : Precedence) (s : Collected) (source : Source) : Option Collected := do
  let (forms, problems) := (← Reader.ofText? source.text.toList).allRecovering.1
  let s := problems.foldl (fun s p => s.report (source.locate p none)) s
  forms.foldlM (addForm? precedence source) s

theorem remove?_eq (s : Collected) (name : String) : s.remove? name = some (s.remove name) := by
  rw [remove?, OrderedMap.erase?_eq, OrderedMap.erase?_eq]
  rfl

theorem add?_eq (precedence : Precedence) (s : Collected) (declaration : Declaration)
    (origin : Origin) :
    s.add? precedence declaration origin = some (s.add precedence declaration origin) := by
  cases declaration with
  | augment a => rfl
  | type d | enum d =>
    cases precedence with
    | keepFirst => rfl
    | keepLast =>
      simp only [add?, add, remove?_eq]
      split <;> rfl

theorem addForm?_eq (precedence : Precedence) (source : Source) (s : Collected) (f : Form) :
    s.addForm? precedence source f = some (s.addForm precedence source f) := by
  rw [addForm?, Indexed.declaration_eq, addForm, Declared.ofForm]
  cases Declaration.ofForm f with
  | ok d => exact add?_eq precedence s d _
  | error fault => rfl

theorem collect?_eq (precedence : Precedence) (s : Collected) {source : Source}
    (fits : CountsFit source.text.toList) :
    s.collect? precedence source = some (s.collect precedence source) := by
  rw [collect?, Reader.ofText?_eq fits]
  exact foldlM_eq_some (fun f _ s => addForm?_eq precedence source s f) _

end Collected

/-! ### Loading -/

/-- Loads a catalog from sources. The orders of search that are asked for when the catalog is built
and validated all exist by `Catalog.lookupOrder?_eq`. -/
def load? (settings : LoadSettings) (sources : List Source) : Option Loaded := do
  let s := (← sources.foldlM (Collected.collect? settings.duplicates) ∅).augmentAll
  let catalog := Catalog.ofMaps s.types s.enums
  let found := (catalog.problems settings.checkNames).map s.place
  some ⟨catalog, s.problems ++ found, settings.isStrict⟩

theorem load?_eq (settings : LoadSettings) {sources : List Source}
    (fits : ∀ s ∈ sources, CountsFit s.text.toList) :
    load? settings sources = some (load settings sources) := by
  have collected := foldlM_eq_some
    (fun source hsource s => Collected.collect?_eq settings.duplicates s (fits source hsource)) ∅
  rw [load?, collected]
  rfl

/-! ### Spans -/

/-- The length of a token's span is the number of bytes under it. -/
theorem length?_of_mem_lex {source : List Char} {t : Token} (ht : t ∈ (lex source).tokens) :
    t.span.length? = some (byteCount (t.span.text source)) := by
  have tiles : Tiles .start source (lex source).tokens := tiles_lexFrom .start source
  obtain ⟨pre, part, post, whole, -, span⟩ := tiles.exists_part ht
  rw [Position.start_after, Position.start_after] at span
  have covers : t.span.Covers source part := ⟨pre, post, whole, span⟩
  rw [covers.text_eq, covers.length?_eq]

/-- The length of the span of a form at any depth is the number of bytes under it. -/
theorem length?_of_isNodeOf {source : List Char} {f n : Form} (hf : f.IsReadFrom source)
    (hn : n.IsNodeOf f) : n.span.length? = some (byteCount (n.span.text source)) := by
  obtain ⟨g, hg, form, tokens⟩ := hf.exists_tree
  obtain ⟨g', hg', rfl, tokens'⟩ := FormTree.exists_of_isNodeOf hn hg form
  exact (FormTree.covers_and_first hg' (tokens'.trans tokens)).1.length?_eq

theorem length?_stop (source : List Char) : (lex source).stop.length? = some 0 := by
  have stop : (lex source).stop = _ := stop_lexFrom .start source
  rw [stop]
  simp [Span.length?, Span.between]

/-! ### Nothing outside is reached -/

/-- Nothing is reached outside from sources whose lines and columns can be counted, whatever the
settings. Each source is divided into tokens by cuts that lie inside it and between its characters;
the spans of its tokens, of its end, and of the forms that the strict or the recovering reader
gives, at any depth, all have lengths. Any form is analysed as any kind of declaration or as a
member with indices inside its items (a type expression needs none), and any forms are laid out in
any style with cuts inside of what has been written and divisions inside their items. Loading has a
result, and so has the search for members through any type of any catalog. Each result is that of
the definition without offsets and indices. -/
theorem load_reaches_nothing_outside (settings : LoadSettings) {sources : List Source}
    (fits : ∀ s ∈ sources, CountsFit s.text.toList) :
    (∀ s ∈ sources, let source := s.text.toList
      Reader.ofText? source = some (Reader.ofText source) ∧
        (∀ t ∈ (lex source).tokens,
          t.span.length? = some (byteCount (t.span.text source))) ∧
        (lex source).stop.length? = some 0 ∧
        ∀ f n : Form, f.IsReadFrom source → n.IsNodeOf f →
          n.span.length? = some (byteCount (n.span.text source))) ∧
      (∀ f : Form, Indexed.declaration f = (Declaration.ofForm f).certain ∧
        (∀ kind, Indexed.type kind f = (TypeDeclaration.ofForm kind f).certain) ∧
        Indexed.enumeration f = (Enumeration.ofForm f).certain ∧
        Indexed.augmentation f = (Augmentation.ofForm f).certain ∧
        Indexed.member f = (Member.ofForm f).certain) ∧
      (∀ style forms, Form.document? style forms = some (Form.document style forms)) ∧
      load? settings sources = some (load settings sources) ∧
      ∀ (c : Catalog) (name : String), c.lookupOrder? name = some (c.lookupOrder name) := by
  refine ⟨fun s hs => ?_, fun f => ?_, Form.document?_eq, load?_eq settings fits,
    Catalog.lookupOrder?_eq⟩
  · exact ⟨Reader.ofText?_eq (fits s hs), fun t => length?_of_mem_lex, length?_stop _,
      fun f n => length?_of_isNodeOf⟩
  · exact ⟨Indexed.declaration_eq f, fun kind => Indexed.type_eq kind f, Indexed.enumeration_eq f,
      Indexed.augmentation_eq f, Indexed.member_eq f⟩

/-- Two sources that declare a type again, with a member that has no type and a character of two
bytes. -/
theorem load_reaches_nothing_outside_again :
    let sources : List Source := [⟨"first", "(class: É :members [(property x)])"⟩,
      ⟨"again", "(class: É :members [(method f [] :see \"é\")]) (class: É"⟩]
    (∀ s ∈ sources, CountsFit s.text.toList) ∧
      load? .lenient sources = some (load .lenient sources) := by
  intro sources
  have fits : ∀ s ∈ sources, CountsFit s.text.toList := by
    intro s hs
    refine countsFit_of_length ?_
    simp only [sources, List.mem_cons, List.not_mem_nil, or_false] at hs
    rcases hs with rfl | rfl <;> decide
  exact ⟨fits, (load_reaches_nothing_outside .lenient fits).2.2.2.1⟩

end ApiCatalog
