import SchemaCompiler.Proofs.Model.TypeRecords

namespace SchemaCompiler

open Work Node

variable {w : Workspace} {o : Options} {t : Title} {plain : Prop}

section Fields

variable {key : Value} {node : Node} {kind : Kind} {c : Classification}

theorem visits_leaf (n : Node) : n.visits = n.leaf.visits := by
  induction n using leaf.induct with
  | case1 a inner ih =>
    rw [visits, leaf]
    exact ih
  | case2 a item ih =>
    rw [visits, leaf]
    exact ih
  | case3 n ho ha =>
    rw [leaf]
    · exact ho
    · exact ha

theorem leaf_wrap (type : OutputType) (lists : Nat) : (type.wrap lists).leaf = type.leaf := by
  induction lists with
  | zero => rfl
  | succ lists ih => exact ih

theorem classify_leaf (o : Options) (key : Value) (n : Node) :
    ∃ g : Classification → Classification,
      (∀ c, (g c).enumSource = c.enumSource ∧ (g c).type = c.type.wrap n.arrays) ∧
      classify o key n = classify o key n.leaf >>= fun c => pure (g c) := by
  induction n using leaf.induct with
  | case1 a inner ih =>
    obtain ⟨g, hg, he⟩ := ih
    refine ⟨fun c => (g c).optional a, hg, ?_⟩
    rw [classify, leaf, he, bind_assoc]
    rfl
  | case2 a item ih =>
    obtain ⟨g, hg, he⟩ := ih
    refine ⟨fun c => (g c).array a, fun c => ⟨(hg c).1, congrArg OutputType.list (hg c).2⟩, ?_⟩
    rw [classify, leaf, he, bind_assoc]
    rfl
  | case3 n ho ha =>
    have harrays : n.arrays = 0 := by
      cases n with
      | optional a inner => exact absurd rfl (ho a inner)
      | array a item => exact absurd rfl (ha a item)
      | _ => rfl
    refine ⟨id, fun c => ⟨rfl, by rw [harrays]; rfl⟩, ?_⟩
    rw [leaf]
    · exact (bind_pure _).symm
    · exact ho
    · exact ha

theorem compileField_bind {α : Type} (x : Work α) (f : α → Work Classification) :
    compileField o key node kind (x >>= f) = x >>= fun a => compileField o key node kind (f a) := by
  unfold compileField
  exact bind_assoc ..

theorem fails_of_leafCheck {e : Failure} (h : leafCheck key node = .error e) :
    Fails ((key, node) :: node.visits) e := by
  refine ⟨_, List.mem_cons_self .., ?_⟩
  rw [fieldCheck, h]
  rfl

theorem fieldNotes_books (hw : Standing o.registry w) {type : OutputType}
    (hn : LeafNamed w o.registry t key node.leaf type.leaf) (hcheck : leafCheck key node = .ok ())
    (hp : Pass node.visits) : BooksField plain o t key node (do
      let default ← Work.ofExcept node.fieldDefault
      let description ← Work.ofExcept node.fieldDescription
      return {
        key, type, description
        nullable := c.nullability
        default := if c.itemsOnly then .null else default
        slot := .ofField key kind }) w [] := by
  have hdefault : Books o.registry plain (Work.ofExcept node.fieldDefault) w [] _
      fun v _ => node.fieldDefault = .ok v := .ofExcept hw fun _ hv => hv
  refine hdefault.bind hw (fun e he => ?_) fun default w1 hw1 hg1 hv _ => ?_
  · refine ⟨_, List.mem_cons_self .., ?_⟩
    rw [fieldCheck, hcheck, he]
    rfl
  have htext : Books o.registry plain (Work.ofExcept node.fieldDescription) w1 [] _
      fun v _ => node.fieldDescription = .ok v := .ofExcept hw1 fun _ hv => hv
  refine htext.bind hw1 (fun e he => ?_) fun description w2 hw2 hg2 hx _ => ?_
  · refine ⟨_, List.mem_cons_self .., ?_⟩
    rw [fieldCheck, hcheck, hv, he]
    rfl
  refine .pure hw2 (pass_iff.mp ?_) ⟨rfl, rfl, hx, hn.mono hw.coherent (hg1.trans hg2)⟩
  refine List.forall_mem_cons.mpr ⟨?_, hp⟩
  rw [fieldCheck, hcheck, hv, hx]
  rfl

theorem compileField_pure (c : Classification) : compileField o key node kind (pure c) = (do
    let type ← fieldType o key node c
    let default ← Work.ofExcept node.fieldDefault
    let description ← Work.ofExcept node.fieldDescription
    return {
      key, type, description
      nullable := c.nullability
      default := if c.itemsOnly then .null else default
      slot := .ofField key kind }) := rfl

theorem typedField_books (hw : Standing o.registry w) (hs : c.enumSource = none)
    (hn : LeafNamed w o.registry t key node.leaf c.type.leaf) (hcheck : leafCheck key node = .ok ())
    (hp : Pass node.visits) : BooksField plain o t key node (compileField o key node kind (pure c)) w [] := by
  have hclosed : c.type.isOpen = false := by
    unfold OutputType.isOpen
    generalize node.leaf = n, c.type.leaf = type at hn
    cases hn <;> rfl
  rw [compileField_pure, fieldType, hs]
  dsimp only
  rw [if_neg (by simp [hclosed])]
  exact fieldNotes_books hw hn hcheck hp

theorem enumField_books (hw : Standing o.registry w) (ho : o.Under t) (hplain : plain → t.Plain)
    {a : Annotations} {values : Value} {lists : Nat} (hl : node.leaf = .enum a values)
    (hs : c.enumSource = some ⟨a.description, values⟩) (hc : c.type = OutputType.placeholder.wrap lists) :
    BooksField plain o t key node (compileField o key node kind (pure c)) w [.enum t key a values] := by
  have hcheck : leafCheck key node = enumCheck key values := by rw [leafCheck, hl]
  have hp : Pass node.visits := by
    rw [visits_leaf, hl]
    exact List.forall_mem_nil _
  rw [compileField_pure, fieldType, hs]
  dsimp only
  rw [bind_assoc]
  refine (fieldEnum_books hw ho hplain key a values).bind hw (fun e he => fails_of_leafCheck (hcheck.trans he))
    fun e w1 hw1 _ hq hok => ?_
  have hpassed : leafCheck key node = .ok () := by
    rw [hcheck]
    cases h : enumCheck key values with
    | ok u => rfl
    | error e => exact absurd h (hok e)
  refine fieldNotes_books (o := o) hw1 ?_ hpassed hp
  rw [hc, fill_wrap, leaf_wrap, hl]
  exact .enum hq.1 hq.2

theorem offendingField_books (hw : Standing o.registry w) (hs : c.enumSource = none)
    (hopen : c.type.isOpen = true)
    (hcheck : leafCheck key node = .error (.unsupportedKind key node.innermost.kind?)) :
    BooksField plain o t key node (compileField o key node kind (pure c)) w [] := by
  rw [compileField_pure, fieldType, hs]
  dsimp only
  rw [if_pos hopen]
  exact .throw hw (fails_of_leafCheck hcheck)

theorem objectField_books (hw : Standing o.registry w) (ho : o.Under t) (hplain : plain → t.Plain)
    {a : Annotations} {shape : List (Value × Node)} (hl : node.leaf = .object a shape)
    {g : Classification → Classification}
    (hg : ∀ c, (g c).enumSource = c.enumSource ∧ (g c).type = c.type.wrap node.arrays)
    (hfields : ∀ o' : Options, o'.Under (t.nested key a.description) → o'.registry = o.registry →
      ∀ v, Standing o.registry v →
        BooksShape plain o.registry (t.nested key a.description) shape (compileShape o' shape) v) :
    BooksField plain o t key node
      (compileField o key node kind (classify o key (.object a shape) >>= fun c => pure (g c))) w
      (definitions t key node) := by
  have hcheck : leafCheck key node = (do nameCheck key a.description; keysCheck shape) := by
    rw [leafCheck, hl]
  have hvisits : node.visits = visitsShape shape := by
    rw [visits_leaf, hl, visits]
  have hdefs : definitions t key node = [] ++ ((.model (t.nested key a.description) a shape ::
      definitionsOf (t.nested key a.description) shape) ++ []) := by
    rw [definitions_leaf, hl, definitions, List.append_nil, List.nil_append]
  rw [classify_object ho.builder, hdefs, compileField_bind, bind_assoc]
  have hname : Books o.registry plain (Work.ofExcept (nestedName o key a.description)) w [] _
      fun name _ => nestedName o key a.description = .ok name := .ofExcept hw fun _ h => h
  refine hname.bind hw (fun e he => fails_of_leafCheck ?_) fun name w1 hw1 _ hn _ => ?_
  · rw [hcheck, nestedName_error ho he]
    rfl
  obtain ⟨hnamed, naming, hs, htitle, hdescribed, hunder⟩ := nestedName_ok ho hn
  have hmodel : Books o.registry plain
      (synthesize { o with name } (.object a shape) a.description fun inner => compileShape inner shape) w1
      (.model (t.nested key a.description) a shape :: definitionsOf (t.nested key a.description) shape)
      (Faults shape)
      fun c w' => c.name = (t.nested key a.description).name ∧
        (w'.registries o.registry).get? (.text c.name) = some (.object c) ∧
        w'.madeOf c = shownSource a shape :=
    synthesize_books (o := { o with name }) hw1 hs htitle hdescribed (fun hp => (hplain hp).nested _ _)
      (hfields _ hunder rfl w1 hw1)
  rw [bind_assoc]
  refine hmodel.bind hw1 (fun e he => ?_) fun handle w2 hw2 _ hq hok => ?_
  · rcases he with he | ⟨f, hf, he⟩
    · exact fails_of_leafCheck (by rw [hcheck, hnamed]; exact he)
    · exact ⟨f, List.mem_cons_of_mem _ (hvisits ▸ hf), he⟩
  obtain ⟨hcname, hheld, hmade⟩ := hq
  obtain ⟨hs, ht⟩ := hg (.ofType (.object handle) a)
  refine typedField_books hw2 hs ?_ ?_ ?_
  · rw [ht, leaf_wrap, hl]
    exact .object hcname hheld hmade
  · rw [hcheck, hnamed]
    cases h : keysCheck shape with
    | ok u => rfl
    | error e => exact absurd (.inl h) (hok e)
  · rw [hvisits]
    exact pass_iff.mpr fun e he => hok e (.inr he)

theorem leaf_not_wrapped (n : Node) :
    (∀ a inner, n.leaf ≠ .optional a inner) ∧ ∀ a item, n.leaf ≠ .array a item := by
  induction n using leaf.induct with
  | case1 a inner ih =>
    rw [leaf]
    exact ih
  | case2 a item ih =>
    rw [leaf]
    exact ih
  | case3 n ho ha =>
    rw [leaf]
    · exact ⟨ho, ha⟩
    · exact ho
    · exact ha

theorem compileField_books (hw : Standing o.registry w) (ho : o.Under t) (hplain : plain → t.Plain)
    (hkind : node.kind? = some kind)
    (hfields : ∀ a shape, node.leaf = .object a shape → ∀ o' : Options,
      o'.Under (t.nested key a.description) → o'.registry = o.registry →
      ∀ v, Standing o.registry v →
        BooksShape plain o.registry (t.nested key a.description) shape (compileShape o' shape) v) :
    BooksField plain o t key node (compileField o key node kind (classify o key node)) w
      (definitions t key node) := by
  obtain ⟨g, hg, he⟩ := classify_leaf o key node
  have hdefs := definitions_leaf t key node
  have hbelow := visits_leaf node
  generalize hl : node.leaf = leaf at he hdefs hbelow
  -- Wrappers and arrays only pass on what their leaf comes to, so the cases are those of the leaf.
  have typed (type : OutputType) (a : Annotations) (hs : classify o key leaf = pure (.ofType type a))
      (hd : definitions t key leaf = []) (hv : leaf.visits = [])
      (hn : LeafNamed w o.registry t key leaf type.leaf) (hcheck : leafCheck key node = .ok ()) :
      BooksField plain o t key node (compileField o key node kind (classify o key node)) w
        (definitions t key node) := by
    rw [he, hs, hdefs, hd]
    obtain ⟨hsource, htype⟩ := hg (.ofType type a)
    refine typedField_books hw hsource ?_ hcheck ?_
    · rw [htype, leaf_wrap, hl]
      exact hn
    · rw [hbelow, hv]
      exact List.forall_mem_nil _
  have offending (c : Classification) (hs : classify o key leaf = pure c)
      (hc : c.enumSource = none ∧ c.type = .placeholder) (hd : definitions t key leaf = [])
      (hcheck : leafCheck key node = .error (.unsupportedKind key node.innermost.kind?)) :
      BooksField plain o t key node (compileField o key node kind (classify o key node)) w
        (definitions t key node) := by
    rw [he, hs, hdefs, hd]
    obtain ⟨hsource, htype⟩ := hg c
    refine offendingField_books hw (hsource.trans hc.1) ?_ hcheck
    rw [htype, OutputType.isOpen, leaf_wrap, hc.2]
    rfl
  cases leaf with
  | optional a inner => exact absurd hl ((leaf_not_wrapped node).1 a inner)
  | array a item => exact absurd hl ((leaf_not_wrapped node).2 a item)
  | object a shape =>
    rw [he]
    exact objectField_books hw ho hplain hl hg (hfields a shape hl)
  | enum a values =>
    obtain ⟨hsource, htype⟩ := hg (.ofEnum a values)
    rw [he, classify, hdefs, definitions]
    exact enumField_books hw ho hplain hl hsource htype
  | boolean a => exact typed _ a (by rw [classify]) rfl rfl .boolean (by rw [leafCheck, hl])
  | string a => exact typed _ a (by rw [classify]) rfl rfl .string (by rw [leafCheck, hl])
  | number a isInteger => exact typed _ a (by rw [classify]) rfl rfl .number (by rw [leafCheck, hl])
  | union a variants =>
    exact offending _ (by rw [classify]) ⟨rfl, rfl⟩ rfl (by rw [leafCheck, hl])
  | literal a v => exact offending _ (by rw [classify]) ⟨rfl, rfl⟩ rfl (by rw [leafCheck, hl])
  | date a => exact offending _ (by rw [classify]) ⟨rfl, rfl⟩ rfl (by rw [leafCheck, hl])
  | any a => exact offending _ (by rw [classify]) ⟨rfl, rfl⟩ rfl (by rw [leafCheck, hl])
  | plain v =>
    by_cases hv : v = .null
    · subst hv
      refine offending {} (by rw [classify]) ⟨rfl, rfl⟩ rfl ?_
      rw [leafCheck, hl]
      rfl
    · have hmisuse : classify o key (.plain v) = Work.misuse .notNode := by
        rw [classify]
        simpa using hv
      rw [he, hmisuse]
      refine .throw hw (fails_of_leafCheck ?_)
      rw [leafCheck, hl]
      dsimp only
      rw [if_neg (by simp [hv, hkind])]

end Fields

theorem sizeOf_leaf (n : Node) : sizeOf n.leaf ≤ sizeOf n := by
  induction n using leaf.induct with
  | case1 a inner ih =>
    rw [leaf, Node.optional.sizeOf_spec]
    omega
  | case2 a item ih =>
    rw [leaf, Node.array.sizeOf_spec]
    omega
  | case3 n ho ha =>
    rw [leaf]
    · exact ho
    · exact ha

theorem leafCheck_of_kind {node : Node} (h : ∀ kind, node.kind? = some kind → kind.isField = false)
    (key : Value) : leafCheck key node = .error (.unsupportedKind key node.kind?) := by
  cases node with
  | union a variants => rfl
  | literal a v => rfl
  | date a => rfl
  | any a => rfl
  | plain v =>
    change (if v = .null ∨ (none : Option Kind) = none then _ else _) = _
    rw [if_pos (.inr rfl)]
    rfl
  | _ => cases h _ rfl

theorem booksShape_cons {key : Value} {node : Node} {rest : List (Value × Node)} {x : Work CompiledField}
    {xs : Work (List CompiledField)} (hw : Standing o.registry w)
    (hx : BooksField plain o t key node x w (definitions t key node))
    (hxs : ∀ v, Standing o.registry v → BooksShape plain o.registry t rest xs v) :
    BooksShape plain o.registry t ((key, node) :: rest)
      (do let d ← x; let fields ← xs; return d :: fields) w := by
  unfold BooksShape
  rw [definitionsOf, visitsShape]
  refine hx.bind hw ?_ fun d w1 hw1 _ hd hpass => ?_
  · rintro e ⟨f, hf, he⟩
    exact ⟨f, List.mem_append_left (visitsShape rest) hf, he⟩
  rw [← List.append_nil (definitionsOf t rest)]
  refine (hxs w1 hw1).bind hw1 ?_ fun fields w2 hw2 hg hfields hrest => ?_
  · rintro e ⟨f, hf, he⟩
    exact ⟨f, List.mem_cons_of_mem _ (List.mem_append_right _ hf), he⟩
  · refine .pure hw2 (pass_iff.mp ?_) (.cons (hd.mono hw1.coherent hg) hfields)
    rw [← List.cons_append, pass_append]
    exact ⟨pass_iff.mpr hpass, pass_iff.mpr hrest⟩

theorem compileShape_books (registry : Key) (t : Title) (hplain : plain → t.Plain) (o : Options)
    (ho : o.Under t) (hr : o.registry = registry) : (shape : List (Value × Node)) → (w : Workspace) →
    Standing registry w → BooksShape plain registry t shape (compileShape o shape) w
  | [], w, hw => by
    rw [compileShape]
    exact .pure hw (pass_iff.mp (List.forall_mem_nil _)) .nil
  | (key, node) :: rest, w, hw => by
    subst hr
    rw [compileShape_cons]
    refine booksShape_cons hw ?_ (compileShape_books o.registry t hplain o ho rfl rest)
    rcases compileNode_cases o key node with ⟨kind, hkind, -, hrun⟩ | ⟨hk, hrun⟩
    · rw [hrun]
      refine compileField_books hw ho hplain hkind fun a fields hl o' ho' hr' v hv => ?_
      -- Below wrappers the fields are no part of `node` by a pattern, only smaller.
      have hsize : sizeOf fields < sizeOf node := by
        have hleaf := sizeOf_leaf node
        rw [hl, Node.object.sizeOf_spec] at hleaf
        omega
      exact compileShape_books o.registry _ (fun hp => (hplain hp).nested _ _) o' ho' hr' fields v hv
    · rw [hrun]
      exact .throw hw (fails_of_leafCheck (leafCheck_of_kind hk key))
termination_by shape => sizeOf shape
decreasing_by
  all_goals
    simp only [List.cons.sizeOf_spec, Prod.mk.sizeOf_spec]
    omega

end SchemaCompiler
