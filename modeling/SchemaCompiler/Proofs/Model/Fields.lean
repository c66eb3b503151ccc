import SchemaCompiler.Interface.TypeReference
import SchemaCompiler.Proofs.Operations

/-!
What the interface shows of a field. A field's node is cut into levels, each a run of optional
wrappers with the node they end in, which is an array on every level but the last. Null may stand on
the first two levels wherever the run says so, and on no deeper one.
-/

namespace SchemaCompiler

open Work

namespace Node

def run : Node → List Annotations
  | .optional a inner => a :: run inner
  | n => n.notes?.toList

def isWrapped : Node → Bool
  | .optional _ _ => true
  | _ => false

def nullish (n : Node) : Bool := n.isWrapped || n.run.any (·.nullable.truthy)

/-- The nodes that the levels begin with. -/
def levels : Node → List Node
  | .optional a inner => .optional a inner :: (levels inner).tail
  | .array a item => .array a item :: levels item
  | n => [n]

def arrays : Node → Nat
  | .optional _ inner => arrays inner
  | .array _ item => arrays item + 1
  | _ => 0

def leaf : Node → Node
  | .optional _ inner => leaf inner
  | .array _ item => leaf item
  | n => n

end Node

def Flagged (a : Annotations) : Prop := ∃ b, a.nullable = .bool b

inductive FieldTree : Node → Prop where
  | optional {a : Annotations} {inner : Node} : Flagged a → FieldTree inner →
      FieldTree (.optional a inner)
  | array {a : Annotations} {item : Node} : Flagged a → FieldTree item → FieldTree (.array a item)
  | boolean {a : Annotations} : Flagged a → FieldTree (.boolean a)
  | string {a : Annotations} : Flagged a → FieldTree (.string a)
  | number {a : Annotations} {isInteger : Value} : Flagged a → FieldTree (.number a isInteger)
  | enum {a : Annotations} {values : Value} : Flagged a → FieldTree (.enum a values)
  | object {a : Annotations} {shape : List (Value × Node)} : Flagged a → FieldTree (.object a shape)

inductive LeafType : Node → OutputType → Prop where
  | boolean {a : Annotations} : LeafType (.boolean a) (.scalar .boolean)
  | string {a : Annotations} : LeafType (.string a) (.scalar .string)
  | number {a : Annotations} {isInteger : Value} :
      LeafType (.number a isInteger) (.scalar (if isInteger.truthy then .int else .float))
  | enum {a : Annotations} {values : Value} {e : EnumType} : LeafType (.enum a values) (.enum e)
  | object {a : Annotations} {shape : List (Value × Node)} {c : ClassHandle} :
      LeafType (.object a shape) (.object c)

/-- A name within brackets for all levels but the last; a level is marked unless null may stand. -/
def bracketed (name : String) : (free : List Bool) → String
  | [] => name
  | [free] => if free then name else name ++ "!"
  | free :: rest => "[" ++ bracketed name rest ++ if free then "]" else "]!"

def firstTwo (flags : List Bool) : List Bool := flags.take 2 ++ (flags.drop 2).map fun _ => false

structure Faithful (key : Value) (node : Node) (f : CompiledField) : Prop where
  key : f.key = key
  reference : ∃ type name, LeafType node.leaf type ∧ type.typeName = .ok name ∧
    f.type = type.wrap node.arrays ∧
    f.type.reference f.nullable = .ok (bracketed name (firstTwo (node.levels.map Node.nullish)))
  nullable : f.nullable =
    if (node.levels[1]?.map Node.nullish).getD false then
      if node.nullish then .itemsAndList else .items
    else .ofBool node.nullish
  policy : f.nullable = .items ∨ f.nullable = .itemsAndList → 1 ≤ node.arrays
  description : f.description =
    ((node.run.find? (·.description.truthy)).map (·.description)).getD .null
  default : f.default = if f.nullable = .items then .null else
    ((node.run.find? (·.default ≠ .null)).map (·.default)).getD .null

namespace Node

theorem levels_eq_cons (n : Node) : n.levels = n :: n.levels.tail := by
  cases n <;> rfl

theorem length_levels (n : Node) : n.levels.length = n.arrays + 1 := by
  -- Wrappers add no level of their own, they take the place of the one inside.
  induction n using levels.induct with
  | case1 a inner ih =>
    rw [levels, arrays, ← ih, levels_eq_cons inner]
    rfl
  | case2 a item ih => rw [levels, arrays, List.length_cons, ih]
  | case3 n ho ha =>
    cases n with
    | optional a inner => exact absurd rfl (ho a inner)
    | array a item => exact absurd rfl (ha a item)
    | _ => rfl

theorem nullish_flagged {n : Node} {a : Annotations} {b : Bool} (hw : n.isWrapped = false)
    (hr : n.run = [a]) (hb : a.nullable = .bool b) : n.nullish = b := by
  rw [nullish, hw, hr]
  simp [hb, Value.truthy]

end Node

structure Classified (n : Node) (c : Classification) : Prop where
  -- An outer wrapper takes the inner marker over, so a marker of another form would get through.
  flagged : ∃ b, c.itself.nullable = .bool b
  itself : c.itself.marker = .bool n.nullish
  items : c.items.map Level.marker = n.levels[1]?.map fun l => .bool l.nullish
  type : (∃ t, LeafType n.leaf t ∧ c.enumSource = none ∧ c.type = t.wrap n.arrays) ∨
    ((∃ a values, n.leaf = .enum a values) ∧ (∃ s, c.enumSource = some s) ∧
      c.type = OutputType.placeholder.wrap n.arrays)

theorem orElse_bool (b d : Bool) : (Value.bool b).orElse (.bool d) = .bool (b || d) := by
  cases b <;> rfl

theorem classified_leaf {n : Node} {a : Annotations} {type : OutputType} (hn : n.notes? = some a)
    (hl : LeafType n type) (ha : Flagged a) : Classified n (.ofType type a) := by
  obtain ⟨b, hb⟩ := ha
  have hnull : n.nullish = b := by
    cases hl <;> cases hn <;> exact Node.nullish_flagged rfl rfl hb
  have hleaf : n.leaf = n := by cases hl <;> rfl
  refine ⟨⟨b, hb⟩, ?_, ?_, .inl ⟨type, ?_, rfl, ?_⟩⟩
  · rw [hnull, Classification.ofType, Level.marker, hb, orElse_bool, Bool.or_false]
  · cases hl <;> rfl
  · rwa [hleaf]
  · cases hl <;> rfl

theorem classified_enum {a : Annotations} {values : Value} (ha : Flagged a) :
    Classified (.enum a values) (.ofEnum a values) := by
  obtain ⟨b, hb⟩ := ha
  refine ⟨⟨b, hb⟩, ?_, rfl, .inr ⟨⟨a, values, rfl⟩, ⟨_, rfl⟩, rfl⟩⟩
  rw [Node.nullish_flagged rfl rfl hb, Classification.ofEnum, Level.marker, hb, orElse_bool,
    Bool.or_false]

theorem classified_optional {a : Annotations} {inner : Node} {c : Classification} (ha : Flagged a)
    (h : Classified inner c) : Classified (.optional a inner) (c.optional a) := by
  obtain ⟨b, hb⟩ := ha
  obtain ⟨d, hd⟩ := h.flagged
  refine ⟨⟨d || b, ?_⟩, ?_, ?_, h.type⟩
  · rw [Classification.optional, hd, hb, orElse_bool]
  · rw [Classification.optional, Level.marker, hd, hb, orElse_bool, orElse_bool, Bool.or_true]
    rfl
  · rw [Node.levels, List.getElem?_cons_succ]
    have hi := h.items
    rw [Node.levels_eq_cons inner, List.getElem?_cons_succ] at hi
    exact hi

theorem classified_array {a : Annotations} {item : Node} {c : Classification} (ha : Flagged a)
    (h : Classified item c) : Classified (.array a item) (c.array a) := by
  obtain ⟨b, hb⟩ := ha
  refine ⟨⟨b, hb⟩, ?_, ?_, ?_⟩
  · rw [Node.nullish_flagged rfl rfl hb, Classification.array, Level.marker, hb, orElse_bool,
      Bool.or_false]
  · rw [Node.levels, List.getElem?_cons_succ, Node.levels_eq_cons item]
    exact congrArg some h.itself
  · rcases h.type with ⟨t, hl, hs, ht⟩ | ⟨hl, hs, ht⟩
    · exact .inl ⟨t, hl, hs, congrArg OutputType.list ht⟩
    · exact .inr ⟨hl, hs, congrArg OutputType.list ht⟩

theorem classify_yields (o : Options) (key : Value) {n : Node} (h : FieldTree n) :
    Yields (classify o key n) (Classified n) := by
  induction h with
  | optional ha _ ih =>
    rw [classify]
    exact .bind ih fun c hc => .pure (classified_optional ha hc)
  | array ha _ ih =>
    rw [classify]
    exact .bind ih fun c hc => .pure (classified_array ha hc)
  | boolean ha =>
    rw [classify]
    exact .pure (classified_leaf rfl .boolean ha)
  | string ha =>
    rw [classify]
    exact .pure (classified_leaf rfl .string ha)
  | number ha =>
    rw [classify]
    exact .pure (classified_leaf rfl .number ha)
  | enum ha =>
    rw [classify]
    exact .pure (classified_enum ha)
  | @object a shape ha =>
    rw [classify]
    refine .bind (.any _) fun name _ => ?_
    extract_lets finish
    have hfinish (c : ClassHandle) : Yields (finish c) (Classified (.object a shape)) :=
      .pure (classified_leaf rfl .object ha)
    split
    · exact .bind (.any _) fun c _ => hfinish c
    · exact .bind (.any _) fun c _ => hfinish c

theorem fill_wrap (e : EnumType) (lists : Nat) :
    (OutputType.placeholder.wrap lists).fill e = (OutputType.enum e).wrap lists := by
  induction lists with
  | zero => rfl
  | succ lists ih =>
    rw [OutputType.wrap, OutputType.fill, ih]
    rfl

theorem fieldType_yields (o : Options) (key : Value) (node : Node) {n : Node} {c : Classification}
    (h : Classified n c) :
    Yields (fieldType o key node c) fun type => ∃ t, LeafType n.leaf t ∧ type = t.wrap n.arrays := by
  unfold fieldType
  rcases h.type with ⟨t, hl, hs, ht⟩ | ⟨⟨a, values, hl⟩, ⟨source, hs⟩, ht⟩
  · rw [hs]
    dsimp only
    split
    · exact .throw
    · exact .pure ⟨t, hl, ht⟩
  · rw [hs]
    refine .bind (.any _) fun e _ => .pure ⟨.enum e, ?_, ?_⟩
    · rw [hl]
      exact .enum
    · rw [ht, fill_wrap]

theorem fieldDescription_ok {n : Node} (h : FieldTree n) : n.fieldDescription =
    .ok (((n.run.find? (·.description.truthy)).map (·.description)).getD .null) := by
  have last (a : Annotations) : (if a.description.truthy then a.description else .null) =
      (([a].find? (·.description.truthy)).map (·.description)).getD .null := by
    rw [List.find?_singleton]
    split <;> rfl
  induction h with
  | @optional a inner _ _ ih =>
    rw [Node.fieldDescription, ih, Node.run, List.find?_cons]
    cases a.description.truthy <;> rfl
  | _ => exact congrArg Except.ok (last _)

theorem fieldDefault_ok {n : Node} (h : FieldTree n) : n.fieldDefault =
    .ok (((n.run.find? (·.default ≠ .null)).map (·.default)).getD .null) := by
  have last (a : Annotations) : a.default =
      (([a].find? (·.default ≠ .null)).map (·.default)).getD .null := by
    rw [List.find?_singleton]
    split
    · rfl
    · rename_i h
      simpa using h
  induction h with
  | @optional a inner _ _ ih =>
    rw [Node.fieldDefault, ih, Node.run, List.find?_cons]
    by_cases hd : a.default = .null <;> simp [hd]
  | _ => exact congrArg Except.ok (last _)

section Rendering

variable {type : OutputType} {name : String}

theorem reference_of_typeName (hn : type.typeName = .ok name) (hl : ∀ item, type ≠ .list item)
    (n : Nullability) : type.reference n = .ok (if n = .always then name else name ++ "!") := by
  cases type with
  | list item => exact absurd rfl (hl item)
  | _ =>
    rw [OutputType.reference, hn]
    · rfl
    · simp

theorem reference_wrap_ofBool (hn : type.typeName = .ok name) (hl : ∀ item, type ≠ .list item)
    (free : Bool) (lists : Nat) : (type.wrap lists).reference (.ofBool free) =
      .ok (bracketed name (free :: List.replicate lists false)) := by
  induction lists generalizing free with
  | zero =>
    rw [OutputType.wrap, reference_of_typeName hn hl]
    cases free <;> rfl
  | succ lists ih =>
    -- A policy without a word about items says never below the first bracket.
    have hitems : (Nullability.ofBool free).forItems = .ofBool false := by cases free <;> rfl
    rw [OutputType.wrap, OutputType.reference, hitems, ih]
    cases free <;> rfl

theorem reference_wrap_items (hn : type.typeName = .ok name) (hl : ∀ item, type ≠ .list item)
    (free : Bool) (lists : Nat) :
    (type.wrap (lists + 1)).reference (if free then .itemsAndList else .items) =
      .ok (bracketed name (free :: true :: List.replicate lists false)) := by
  have hitems : (if free then Nullability.itemsAndList else .items).forItems = .ofBool true := by
    cases free <;> rfl
  rw [OutputType.wrap, OutputType.reference, hitems, reference_wrap_ofBool hn hl]
  cases free <;> rfl

theorem LeafType.typeName_ok {n : Node} (h : LeafType n type) : ∃ name, type.typeName = .ok name := by
  cases h <;> exact ⟨_, rfl⟩

theorem LeafType.not_list {n : Node} (h : LeafType n type) (item : OutputType) :
    type ≠ .list item := by
  cases h <;> nofun

end Rendering

section Policy

variable {n : Node} {c : Classification}

theorem Classified.admitsNull (h : Classified n c) : c.itself.admitsNull = n.nullish := by
  rw [Level.admitsNull, h.itself]
  rfl

theorem Classified.itemsAdmitNull (h : Classified n c) :
    c.items.any (·.admitsNull) = (n.levels[1]?.map Node.nullish).getD false := by
  have hi := h.items
  cases hc : c.items with
  | none =>
    rw [hc, Option.map_none] at hi
    rw [Option.map_eq_none_iff.mp hi.symm]
    rfl
  | some items =>
    rw [hc, Option.map_some] at hi
    obtain ⟨l, hl, hm⟩ := Option.map_eq_some_iff.mp hi.symm
    rw [hl, Option.any_some, Level.admitsNull, ← hm]
    rfl

theorem Classified.nullability (h : Classified n c) : c.nullability =
    if (n.levels[1]?.map Node.nullish).getD false then
      if n.nullish then .itemsAndList else .items
    else .ofBool n.nullish := by
  rw [Classification.nullability, Classification.itemsOnly, h.itemsAdmitNull, h.admitsNull, h.itself]
  cases (n.levels[1]?.map Node.nullish).getD false <;> cases n.nullish <;> rfl

theorem Classified.itemsOnly_iff (h : Classified n c) : c.itemsOnly = true ↔ c.nullability = .items := by
  rw [h.nullability, Classification.itemsOnly, h.itemsAdmitNull, h.admitsNull]
  cases (n.levels[1]?.map Node.nullish).getD false <;> cases n.nullish <;>
    simp [Nullability.ofBool]

theorem Classified.policy (h : Classified n c)
    (hp : c.nullability = .items ∨ c.nullability = .itemsAndList) : 1 ≤ n.arrays := by
  rw [h.nullability] at hp
  cases hl : n.levels[1]? with
  | none =>
    rw [hl] at hp
    cases hb : n.nullish <;> simp [hb, Nullability.ofBool] at hp
  | some l =>
    have hlt := (List.getElem?_eq_some_iff.mp hl).1
    rw [n.length_levels] at hlt
    omega

theorem Classified.reference (h : Classified n c) {t : OutputType} {name : String}
    (hn : t.typeName = .ok name) (hl : ∀ item, t ≠ .list item) :
    (t.wrap n.arrays).reference c.nullability =
      .ok (bracketed name (firstTwo (n.levels.map Node.nullish))) := by
  have hlen := n.length_levels
  rw [h.nullability, n.levels_eq_cons]
  cases hrest : n.levels.tail with
  | nil =>
    have ha : n.arrays = 0 := by
      rw [n.levels_eq_cons, hrest] at hlen
      simpa using hlen.symm
    rw [ha]
    exact reference_wrap_ofBool hn hl n.nullish 0
  | cons m rest =>
    have ha : n.arrays = rest.length + 1 := by
      rw [n.levels_eq_cons, hrest] at hlen
      simpa using hlen.symm
    have hflags : firstTwo ((n :: m :: rest).map Node.nullish) =
        n.nullish :: m.nullish :: List.replicate rest.length false := by
      simp [firstTwo, List.map_const']
    rw [ha, hflags]
    change (t.wrap (rest.length + 1)).reference (if m.nullish then _ else _) = _
    cases m.nullish with
    | true => exact reference_wrap_items hn hl n.nullish rest.length
    | false => exact reference_wrap_ofBool hn hl n.nullish (rest.length + 1)

end Policy

theorem compileField_slot (o : Options) (key : Value) (node : Node) (kind : Kind)
    (classified : Work Classification) :
    Yields (compileField o key node kind classified) fun f => f.key = key ∧ f.slot = .ofField key kind := by
  unfold compileField
  refine .bind (.any _) fun c _ => ?_
  refine .bind (.any _) fun type _ => ?_
  refine .bind (.any _) fun default _ => ?_
  exact .bind (.any _) fun description _ => .pure ⟨rfl, rfl⟩

theorem compileNode_yields {o : Options} {key : Value} {node : Node} {P : CompiledField → Prop}
    (h : ∀ kind, Yields (compileField o key node kind (classify o key node)) P) :
    Yields (compileNode o key node) P := by
  rcases compileNode_cases o key node with ⟨kind, -, -, hrun⟩ | ⟨-, hrun⟩
  · rw [hrun]
    exact h kind
  · rw [hrun]
    exact .throw

theorem compileNode_slot (o : Options) (key : Value) (node : Node) :
    Yields (compileNode o key node) fun f => f.key = key ∧ ∃ kind, f.slot = .ofField key kind := by
  refine compileNode_yields fun kind w f w' hf => ?_
  obtain ⟨hkey, hslot⟩ := compileField_slot o key node kind _ w f w' hf
  exact ⟨hkey, kind, hslot⟩

theorem compileShape_keys (o : Options) (shape : List (Value × Node)) :
    Yields (compileShape o shape) fun fields =>
      fields.map (·.key) = shape.map (·.1) ∧ fields.map (·.slot.attr) = shape.map (·.1) := by
  induction shape with
  | nil =>
    rw [compileShape]
    exact .pure ⟨rfl, rfl⟩
  | cons entry rest ih =>
    obtain ⟨key, node⟩ := entry
    rw [compileShape_cons]
    refine .bind (compileNode_slot o key node) fun field hfield => ?_
    obtain ⟨hkey, kind, hslot⟩ := hfield
    refine .bind ih fun fields hfields => .pure ⟨?_, ?_⟩
    · rw [List.map_cons, List.map_cons, hfields.1, hkey]
    · rw [List.map_cons, List.map_cons, hfields.2, hslot]
      rfl

theorem compileField_yields (o : Options) (key : Value) {node : Node} (kind : Kind)
    (h : FieldTree node) :
    Yields (compileField o key node kind (classify o key node)) (Faithful key node) := by
  unfold compileField
  refine .bind (classify_yields o key h) fun c hc => ?_
  refine .bind (fieldType_yields o key node hc) fun type ht => ?_
  have hdefault : Yields (Work.ofExcept node.fieldDefault) fun v => node.fieldDefault = .ok v :=
    .ofExcept fun _ hv => hv
  have htext : Yields (Work.ofExcept node.fieldDescription) fun v => node.fieldDescription = .ok v :=
    .ofExcept fun _ hv => hv
  refine .bind hdefault fun default hd => ?_
  refine .bind htext fun text hx => ?_
  obtain ⟨t, hl, rfl⟩ := ht
  obtain ⟨name, hn⟩ := hl.typeName_ok
  rw [fieldDefault_ok h] at hd
  rw [fieldDescription_ok h] at hx
  cases hd
  cases hx
  refine .pure ⟨rfl, ⟨t, name, hl, hn, rfl, hc.reference hn hl.not_list⟩, hc.nullability, hc.policy,
    rfl, ?_⟩
  simp only [hc.itemsOnly_iff]

theorem compileShape_yields (o : Options) (shape : List (Value × Node)) :
    Yields (compileShape o shape) fun fields => ∀ (i : Nat) (key : Value) (node : Node),
      shape[i]? = some (key, node) → FieldTree node → ∃ f, fields[i]? = some f ∧ Faithful key node f := by
  induction shape with
  | nil =>
    rw [compileShape]
    exact .pure nofun
  | cons entry rest ih =>
    obtain ⟨first, head⟩ := entry
    have hfirst : Yields (compileNode o first head) fun f => FieldTree head → Faithful first head f :=
      compileNode_yields fun kind w f w' hf ht => compileField_yields o first kind ht w f w' hf
    rw [compileShape_cons]
    refine .bind hfirst fun field hfield => ?_
    refine .bind ih fun fields hfields => .pure fun i key node hi ht => ?_
    cases i with
    | zero =>
      cases hi
      exact ⟨field, rfl, hfield ht⟩
    | succ i => exact hfields i key node hi ht

/-- Every field of an accepted shape whose node is a nesting of wrappers and arrays shows what the
node says. -/
theorem compileShape_faithful (o : Options) (shape : List (Value × Node)) (w w' : Workspace)
    (fields : List CompiledField) (h : compileShape o shape w = .ok fields w') (i : Nat) (key : Value)
    (node : Node) (hi : shape[i]? = some (key, node)) (ht : FieldTree node) :
    ∃ f, fields[i]? = some f ∧ Faithful key node f :=
  compileShape_yields o shape w fields w' h i key node hi ht

def rows : Node :=
  .optional { description := .text "all" } (.array { default := .list [] }
    (.array { nullable := .bool true } (.string { nullable := .bool true })))

theorem compileShape_faithful_rows : ∃ f,
    compileShape {} [(.text "rows", rows)] {} = .ok [f] {} ∧ Faithful (.text "rows") rows f ∧
      f.type.reference f.nullable = .ok "[[String!]]" := by
  have hb (b : Bool) : Flagged { nullable := .bool b } := ⟨b, rfl⟩
  have ht : FieldTree rows :=
    .optional ⟨false, rfl⟩ (.array ⟨false, rfl⟩ (.array (hb true) (.string (hb true))))
  obtain ⟨f, hf, hs⟩ := compileShape_faithful {} [(.text "rows", rows)] {} {} _ rfl 0 (.text "rows")
    rows rfl ht
  cases hf
  exact ⟨_, rfl, hs, rfl⟩

end SchemaCompiler
