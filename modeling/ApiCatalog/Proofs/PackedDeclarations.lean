import ApiCatalog.Proofs.Unpacking

/-!
# Packed declarations are unpacked again

A type expression, and with it whatever a declaration consists of, is unpacked from what was packed
of it exactly if there is room for the levels that it nests. Floating-point numbers are kept bit
for bit, integers whatever their sign.

Main statements: `TypeExpr.restores`, `TypeDeclaration.restores`, `Enumeration.restores`.
-/

namespace ApiCatalog

open MessagePack

/-! ### Type expressions -/

namespace TypeExpr

mutual

/-- How many levels a packed type expression nests. What joins a tag to its data is no level. -/
def packedLevels : TypeExpr → Nat
  | .nullable inner => inner.packedLevels
  | .nonNull inner => inner.packedLevels
  | .array element => element.packedLevels
  | .union alternatives => packedLevelsOfAll alternatives + 1
  | .promise payload => payload.packedLevels
  | .function params returns => max (packedLevelsOfParams params + 1) returns.packedLevels + 1
  | .record fields => packedLevelsOfFields fields + 1
  | _ => 0

/-- How many levels packed type expressions nest. -/
def packedLevelsOfAll : List TypeExpr → Nat
  | [] => 0
  | t :: ts => max t.packedLevels (packedLevelsOfAll ts)

/-- How many levels packed parameters nest. -/
def packedLevelsOfParams : List (TypeExpr × Bool) → Nat
  | [] => 0
  | (t, _) :: ts => max (t.packedLevels + 1) (packedLevelsOfParams ts)

/-- How many levels packed fields nest. -/
def packedLevelsOfFields : List (String × TypeExpr) → Nat
  | [] => 0
  | (_, t) :: ts => max (t.packedLevels + 1) (packedLevelsOfFields ts)

end

theorem unpackParam_struct {unpack : Unpacker TypeExpr} {t : TypeExpr} {v : MessagePack}
    {levels : Nat} (optional : Bool) (h : ∀ room, unpack room v = within levels room t)
    (room : Nat) :
    unpackParam unpack room (struct [("ty", v), ("optional", .bool optional)]) =
      within (levels + 1) room (t, optional) :=
  struct?_struct (by rfl) (by decide) (fun room => by simp [requiredField, h, bool?]) room

theorem unpackField_array {unpack : Unpacker TypeExpr} {t : TypeExpr} {v : MessagePack}
    {levels : Nat} (name : String) (h : ∀ room, unpack room v = within levels room t) (room : Nat) :
    unpackField unpack room (.array [ofString name, v]) = within (levels + 1) room (name, t) := by
  cases room with
  | zero => rfl
  | succ room => simp [unpackField, h, within_succ]

theorem unpackFunction_struct {unpack : Unpacker TypeExpr} {ps : List (TypeExpr × Bool)}
    {t : TypeExpr} {params returns : MessagePack} {m n : Nat}
    (hparams : ∀ room, list? (unpackParam unpack) room params = within m room ps)
    (hreturns : ∀ room, unpack room returns = within n room t) (room : Nat) :
    unpackFunction unpack room (struct [("params", params), ("returns", returns)]) =
      within (max m n + 1) room (.function ps t) :=
  struct?_struct (by rfl) (by decide) (fun room => by simp [requiredField, hparams, hreturns]) room

/-- What carries data is a level deeper than the data. -/
theorem exists_depth_of_variant {tag : String} {data : MessagePack} {depth : Nat}
    (h : (variant tag data).asRead.depth ≤ depth) :
    ∃ d, depth = d + 1 ∧ data.asRead.depth ≤ d := by
  rw [asRead_variant, depth_variant] at h
  exact ⟨depth - 1, by omega, by omega⟩

/-- The number of the tag of a type expression that carries data. -/
theorem variant?_tags {tag : String} {data : MessagePack} {i : Nat}
    (htag : tags.findIdx? (· == tag) = some i) :
    variant? tags (variant tag data).asRead = some (i, some data.asRead) := by
  rw [asRead_variant, variant?_variant, htag]
  rfl

mutual

/-- With the depth of what was packed, the unpacker comes to its end: each tag with data takes one
level of it. What lists and structures take of the room is counted apart. -/
theorem unpackNested_pack : (t : TypeExpr) → (depth room : Nat) → t.pack.asRead.depth ≤ depth →
    unpackNested depth room t.pack.asRead = within t.packedLevels room t
  | .any, 0, _, _ => rfl
  | .any, _ + 1, _, _ => rfl
  | .unknown, 0, _, _ => rfl
  | .unknown, _ + 1, _, _ => rfl
  | .primitive kind, _, _, h => by
    obtain ⟨d, rfl, -⟩ := exists_depth_of_variant h
    have kind : unit? Primitive.all Primitive.tag (ofString kind.tag) = some kind :=
      unit?_ofString (by cases kind <;> decide) (by decide)
    rw [pack, unpackNested, variant?_tags (i := 0) (by rfl)]
    simp [kind, packedLevels]
  | .named name, _, _, h => by
    obtain ⟨d, rfl, -⟩ := exists_depth_of_variant h
    rw [pack, unpackNested, variant?_tags (i := 3) (by rfl)]
    simp [packedLevels]
  | .nullable inner, _, room, h => by
    obtain ⟨d, rfl, hd⟩ := exists_depth_of_variant h
    rw [pack, unpackNested, variant?_tags (i := 4) (by rfl)]
    simp [unpackNested_pack inner d room hd, packedLevels]
  | .nonNull inner, _, room, h => by
    obtain ⟨d, rfl, hd⟩ := exists_depth_of_variant h
    rw [pack, unpackNested, variant?_tags (i := 5) (by rfl)]
    simp [unpackNested_pack inner d room hd, packedLevels]
  | .array element, _, room, h => by
    obtain ⟨d, rfl, hd⟩ := exists_depth_of_variant h
    rw [pack, unpackNested, variant?_tags (i := 6) (by rfl)]
    simp [unpackNested_pack element d room hd, packedLevels]
  | .buffer kind, _, _, h => by
    obtain ⟨d, rfl, -⟩ := exists_depth_of_variant h
    have kind : unit? BufferElement.all BufferElement.tag (ofString kind.tag) = some kind :=
      unit?_ofString (by cases kind <;> decide) (by decide)
    rw [pack, unpackNested, variant?_tags (i := 7) (by rfl)]
    simp [kind, packedLevels]
  | .union alternatives, _, room, h => by
    obtain ⟨d, rfl, hd⟩ := exists_depth_of_variant h
    rw [asRead_array, depth_array] at hd
    -- The items are unpacked with the depth of the whole list, which is more than they need.
    have all := mapM_packAll alternatives d
    have list := list?_array (fun room => all room (by omega)) room
    rw [pack, unpackNested, variant?_tags (i := 8) (by rfl)]
    simp [list, packedLevels]
  | .promise payload, _, room, h => by
    obtain ⟨d, rfl, hd⟩ := exists_depth_of_variant h
    rw [pack, unpackNested, variant?_tags (i := 9) (by rfl)]
    simp [unpackNested_pack payload d room hd, packedLevels]
  | .function params returns, _, room, h => by
    obtain ⟨d, rfl, hd⟩ := exists_depth_of_variant h
    simp only [asRead_struct, asRead_array, List.map_cons, List.map_nil, depth_struct, depth_array,
      depthOfAll] at hd
    have params := mapM_packParams params d
    have returns := unpackNested_pack returns d
    rw [pack, unpackNested, variant?_tags (i := 10) (by rfl)]
    simp only [asRead_struct, List.map_cons, List.map_nil, packedLevels]
    exact unpackFunction_struct (list?_array fun room => params room (by omega))
      (fun room => returns room (by omega)) room
  | .record fields, _, room, h => by
    obtain ⟨d, rfl, hd⟩ := exists_depth_of_variant h
    rw [asRead_array, depth_array] at hd
    have all := mapM_packFields fields d
    have list := list?_array (fun room => all room (by omega)) room
    rw [pack, unpackNested, variant?_tags (i := 11) (by rfl)]
    simp [list, packedLevels]

theorem mapM_packAll : (ts : List TypeExpr) → (depth room : Nat) →
    depthOfAll (asReadAll (packAll ts)) ≤ depth →
    (asReadAll (packAll ts)).mapM (unpackNested depth room) = within (packedLevelsOfAll ts) room ts
  | [], _, _, _ => by simp [packAll, asReadAll, packedLevelsOfAll]
  | t :: ts, depth, room, h => by
    simp only [packAll, asReadAll, depthOfAll] at h
    have first := unpackNested_pack t depth room (by omega)
    have others := mapM_packAll ts depth room (by omega)
    simp [packAll, asReadAll, List.mapM_cons, first, others, packedLevelsOfAll]

theorem mapM_packParams : (ts : List (TypeExpr × Bool)) → (depth room : Nat) →
    depthOfAll (asReadAll (packParams ts)) ≤ depth →
    (asReadAll (packParams ts)).mapM (unpackParam (unpackNested depth) room) =
      within (packedLevelsOfParams ts) room ts
  | [], _, _, _ => by simp [packParams, asReadAll, packedLevelsOfParams]
  | (t, optional) :: ts, depth, room, h => by
    simp only [packParams, asReadAll, asRead_struct, List.map_cons, List.map_nil, depthOfAll,
      depth_struct] at h
    have type := unpackNested_pack t depth
    have first := unpackParam_struct optional (fun room => type room (by omega)) room
    have others := mapM_packParams ts depth room (by omega)
    simp [packParams, asReadAll, List.mapM_cons, first, others, packedLevelsOfParams]

theorem mapM_packFields : (ts : List (String × TypeExpr)) → (depth room : Nat) →
    depthOfAll (asReadAll (packFields ts)) ≤ depth →
    (asReadAll (packFields ts)).mapM (unpackField (unpackNested depth) room) =
      within (packedLevelsOfFields ts) room ts
  | [], _, _, _ => by simp [packFields, asReadAll, packedLevelsOfFields]
  | (name, t) :: ts, depth, room, h => by
    simp only [packFields, asReadAll, asRead_array, depthOfAll, depth_array] at h
    have type := unpackNested_pack t depth
    have first := unpackField_array name (fun room => type room (by omega)) room
    have others := mapM_packFields ts depth room (by omega)
    simp [packFields, asReadAll, List.mapM_cons, first, others,
      packedLevelsOfFields]

end

theorem restores : Restores packedLevels pack unpack := fun t room =>
  unpackNested_pack t _ room (Nat.le_refl _)

end TypeExpr

/-! ### Annotations -/

/-- The level of a packed reference. -/
def Reference.packedLevels (_ : Reference) : Nat := 1

/-- How many levels a packed deprecation nests. -/
def Deprecation.packedLevels (d : Deprecation) : Nat :=
  optionLevels Reference.packedLevels d.replacement + 1

/-- The text of an option is no nil. -/
theorem optionalField_string (s : Option String) :
    optionalField string? (some (ofOption ofString s).asRead) = some s := by
  have field := optionalField_ofOption restores_string (fun _ => nofun) s 0
  cases s <;> simpa [optionLevels] using field

theorem Reference.restores : Restores packedLevels pack unpack := fun r room => by
  rw [pack, asRead_struct]
  refine struct?_struct (by rfl) (by decide) (fun room => ?_) room
  simp [requiredField, optionalField_string]

theorem Deprecation.restores : Restores packedLevels pack unpack := fun d room => by
  have replacement := optionalField_ofOption Reference.restores (fun _ => nofun) d.replacement
  rw [pack, asRead_struct]
  refine struct?_struct (by rfl) (by decide) (fun room => ?_) room
  simp [replacement, optionalField_string]

theorem Deprecation.optionalField_pack (d : Option Deprecation) (room : Nat) :
    optionalField (unpack room) (some (ofOption pack d).asRead) =
      within (optionLevels packedLevels d) room d :=
  optionalField_ofOption restores (fun _ => nofun) d room

/-! ### Members -/

/-- How many levels a packed parameter nests. -/
def Parameter.packedLevels (p : Parameter) : Nat := p.type.packedLevels + 1

/-- How many levels a packed kind of members nests. -/
def MemberKind.packedLevels : MemberKind → Nat
  | .property type .. => type.packedLevels + 1
  | .method params returns _ =>
    max (listLevels Parameter.packedLevels params) returns.packedLevels + 1

/-- How many levels a packed member nests. -/
def Member.packedLevels (m : Member) : Nat :=
  max m.kind.packedLevels (optionLevels Deprecation.packedLevels m.deprecated) + 1

theorem Parameter.restores : Restores packedLevels pack unpack := fun p room => by
  rw [pack, asRead_struct]
  refine struct?_struct (by rfl) (by decide) (fun room => ?_) room
  simp [requiredField, TypeExpr.restores p.type, bool?]

theorem MemberKind.unpackProperty_asRead (type : TypeExpr) (isReadonly isConstant : Bool)
    (room : Nat) :
    unpackProperty room (struct [("ty", type.pack), ("readonly", .bool isReadonly),
        ("constant", .bool isConstant)]).asRead =
      within (type.packedLevels + 1) room (.property type isReadonly isConstant) := by
  rw [asRead_struct]
  refine struct?_struct (by rfl) (by decide) (fun room => ?_) room
  simp [requiredField, TypeExpr.restores type, bool?]

theorem MemberKind.unpackMethod_asRead (params : List Parameter) (returns : TypeExpr)
    (mutates : List String) (room : Nat) :
    unpackMethod room (struct [("params", ofList Parameter.pack params), ("returns", returns.pack),
        ("mutates", ofList ofString mutates)]).asRead =
      within (max (listLevels Parameter.packedLevels params) returns.packedLevels + 1) room
        (.method params returns mutates) := by
  have nonempty := listLevels_pos Parameter.packedLevels params
  have levels : max (listLevels Parameter.packedLevels params) (max returns.packedLevels 1) =
      max (listLevels Parameter.packedLevels params) returns.packedLevels := by omega
  rw [asRead_struct]
  refine struct?_struct (by rfl) (by decide) (fun room => ?_) room
  simp [requiredField, Parameter.restores.list? params, TypeExpr.restores returns, strings?_ofList,
    levels]

theorem MemberKind.restores : Restores packedLevels pack unpack := fun
  | .property type isReadonly isConstant, room => by
    rw [pack, asRead_variant, unpack, variant?_variant]
    exact unpackProperty_asRead type isReadonly isConstant room
  | .method params returns mutates, room => by
    rw [pack, asRead_variant, unpack, variant?_variant]
    exact unpackMethod_asRead params returns mutates room

theorem Member.restores : Restores packedLevels pack unpack := fun m room => by
  have kind : 0 < m.kind.packedLevels := by cases m.kind <;> exact Nat.succ_pos _
  have levels : max m.kind.packedLevels
        (max (optionLevels Deprecation.packedLevels m.deprecated) 1) =
      max m.kind.packedLevels (optionLevels Deprecation.packedLevels m.deprecated) := by omega
  rw [pack, asRead_struct]
  refine struct?_struct (by rfl) (by decide) (fun room => ?_) room
  simp [requiredField, MemberKind.restores m.kind, Deprecation.optionalField_pack, strings?_ofList,
    levels]

/-! ### Types -/

/-- How many levels a packed declaration of a type nests. -/
def TypeDeclaration.packedLevels (d : TypeDeclaration) : Nat :=
  max
    (max (optionLevels (listLevels Parameter.packedLevels) d.constructor)
      (optionLevels TypeExpr.packedLevels d.aliased))
    (max (listLevels Member.packedLevels d.members)
      (optionLevels Deprecation.packedLevels d.deprecated)) + 1

theorem TypeExpr.asRead_pack_ne_nil (t : TypeExpr) : t.pack.asRead ≠ .nil := by
  cases t <;> exact nofun

theorem TypeDeclaration.restores : Restores packedLevels pack unpack := fun d room => by
  have kind : unit? TypeKind.all TypeKind.tag (ofString d.kind.tag) = some d.kind :=
    unit?_ofString (by cases d.kind <;> decide) (by decide)
  have constructor :=
    optionalField_ofOption Parameter.restores.list? (fun _ => nofun) d.constructor
  have aliased :=
    optionalField_ofOption TypeExpr.restores TypeExpr.asRead_pack_ne_nil d.aliased
  have nonempty := listLevels_pos Member.packedLevels d.members
  -- The fields in order, those that are lists of names among them.
  have levels : max 1 (max 1 (max (optionLevels (listLevels Parameter.packedLevels) d.constructor)
        (max (optionLevels TypeExpr.packedLevels d.aliased)
          (max (listLevels Member.packedLevels d.members)
            (max (optionLevels Deprecation.packedLevels d.deprecated) 1))))) + 1 =
      d.packedLevels := by
    unfold packedLevels
    omega
  rw [pack, asRead_struct, ← levels]
  refine struct?_struct (by rfl) (by decide) (fun room => ?_) room
  simp [requiredField, kind, optionalField_string, constructor, aliased,
    Member.restores.list? d.members, Deprecation.optionalField_pack, strings?_ofList]

/-! ### Enumerations -/

/-- How many levels a packed declaration of an enumeration nests. -/
def Enumeration.packedLevels (d : Enumeration) : Nat :=
  max (listLevels (fun _ : EnumSymbol => 1) d.symbols)
    (optionLevels Deprecation.packedLevels d.deprecated) + 1

/-- An integer of 64 bits is read as unsigned or, if it is negative, as signed. -/
theorem int64?_signed (n : Int64) : int64? (MessagePack.signed n.toInt).asRead = some n := by
  have low := Int64.le_toInt n
  have high := Int64.toInt_lt n
  rw [asRead]
  split
  · rename_i nonneg
    rw [int64?, if_pos (by omega), Int.toNat_of_nonneg nonneg, Int64.ofInt_toInt]
  · rw [int64?, if_pos ⟨low, high⟩, Int64.ofInt_toInt]

theorem Literal.unpack_pack (l : Literal) : unpack l.pack.asRead = some l := by
  cases l with
  | string s =>
    rw [pack, asRead_variant, unpack, variant?_variant]
    exact congrArg (Option.map Literal.string) (string?_ofString s)
  | int n =>
    rw [pack, asRead_variant, unpack, variant?_variant]
    exact congrArg (Option.map Literal.int) (int64?_signed n)
  | float x => rfl

theorem EnumSymbol.restores : Restores (fun _ => 1) pack unpack := fun v room => by
  rw [pack, asRead_struct]
  refine struct?_struct (by rfl) (by decide) (fun room => ?_) room
  simp [requiredField, Literal.unpack_pack]

theorem Enumeration.restores : Restores packedLevels pack unpack := fun d room => by
  have kind : unit? LiteralKind.all LiteralKind.tag (ofString d.kind.tag) = some d.kind :=
    unit?_ofString (by cases d.kind <;> decide) (by decide)
  have nonempty := listLevels_pos (fun _ : EnumSymbol => 1) d.symbols
  have levels : max (listLevels (fun _ : EnumSymbol => 1) d.symbols)
        (max (optionLevels Deprecation.packedLevels d.deprecated) 1) =
      max (listLevels (fun _ : EnumSymbol => 1) d.symbols)
        (optionLevels Deprecation.packedLevels d.deprecated) := by omega
  rw [pack, asRead_struct]
  refine struct?_struct (by rfl) (by decide) (fun room => ?_) room
  simp [requiredField, kind, EnumSymbol.restores.list? d.symbols, Deprecation.optionalField_pack,
    strings?_ofList, levels]

/-! ### Levels by the types of a declaration -/

/-- The types of a member's value, parameters and result. -/
def Member.types (m : Member) : List TypeExpr :=
  match m.kind with
  | .property type .. => [type]
  | .method params returns _ => returns :: params.map (·.type)

/-- The types that a declaration mentions. -/
def TypeDeclaration.types (d : TypeDeclaration) : List TypeExpr :=
  (d.constructor.getD []).map (·.type) ++ d.aliased.toList ++ d.members.flatMap Member.types

section Levels

variable {n : Nat}

theorem optionLevels_le {α : Type} {levels : α → Nat} {x : Option α}
    (h : ∀ y, x = some y → levels y ≤ n) : optionLevels levels x ≤ n := by
  cases x with
  | none => exact Nat.zero_le n
  | some y => exact h y rfl

theorem Deprecation.packedLevels_le (d : Deprecation) : d.packedLevels ≤ 2 :=
  Nat.succ_le_succ (optionLevels_le fun _ _ => Nat.le_refl 1)

theorem Parameter.listLevels_le {params : List Parameter}
    (h : ∀ t ∈ params.map (·.type), t.packedLevels ≤ n) :
    listLevels packedLevels params ≤ n + 2 :=
  MessagePack.listLevels_le fun p hp => Nat.succ_le_succ (h p.type (List.mem_map_of_mem hp))

theorem Member.packedLevels_le {m : Member} (h : ∀ t ∈ m.types, t.packedLevels ≤ n) :
    m.packedLevels ≤ n + 4 := by
  have deprecated := optionLevels_le fun d (_ : m.deprecated = some d) => d.packedLevels_le
  have kind : m.kind.packedLevels ≤ n + 3 := by
    unfold types at h
    cases hkind : m.kind with
    | property type =>
      rw [hkind] at h
      have := h type (by simp)
      simp only [MemberKind.packedLevels]
      omega
    | method params returns =>
      rw [hkind] at h
      rw [List.forall_mem_cons] at h
      have := Parameter.listLevels_le h.2
      simp only [MemberKind.packedLevels]
      omega
  unfold packedLevels
  omega

/-- Whatever else a declaration has nests only few levels. -/
theorem TypeDeclaration.packedLevels_le {d : TypeDeclaration}
    (h : ∀ t ∈ d.types, t.packedLevels ≤ n) : d.packedLevels ≤ n + 6 := by
  simp only [types, List.forall_mem_append] at h
  obtain ⟨⟨hconstructor, haliased⟩, hmembers⟩ := h
  have constructor : optionLevels (listLevels Parameter.packedLevels) d.constructor ≤ n + 2 :=
    optionLevels_le fun params hparams =>
      Parameter.listLevels_le (by simpa [hparams] using hconstructor)
  have aliased : optionLevels TypeExpr.packedLevels d.aliased ≤ n :=
    optionLevels_le fun t ht => haliased t (by simp [ht])
  have members : listLevels Member.packedLevels d.members ≤ n + 5 :=
    listLevels_le fun m hm => Member.packedLevels_le fun t ht =>
      hmembers t (List.mem_flatMap.2 ⟨m, hm, ht⟩)
  have deprecated := optionLevels_le fun e (_ : d.deprecated = some e) => e.packedLevels_le
  unfold packedLevels
  omega

theorem Enumeration.packedLevels_le (d : Enumeration) : d.packedLevels ≤ 3 := by
  have symbols : listLevels (fun _ : EnumSymbol => 1) d.symbols ≤ 2 :=
    listLevels_le fun _ _ => Nat.le_refl 1
  have deprecated := optionLevels_le fun e (_ : d.deprecated = some e) => e.packedLevels_le
  unfold packedLevels
  omega

end Levels

end ApiCatalog
