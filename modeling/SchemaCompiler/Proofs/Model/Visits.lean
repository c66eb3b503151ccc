import SchemaCompiler.Proofs.Model.Fields

namespace SchemaCompiler

namespace Node

/-- Whether a field cannot have the node. -/
def offends (n : Node) : Bool :=
  match n.leaf with
  | .boolean _ | .string _ | .number _ _ | .enum _ _ | .object _ _ => false
  | _ => true

def wrappers : Node → List Kind
  | .optional _ inner => .optional :: wrappers inner
  | .array _ item => .array :: wrappers item
  | _ => []

/-- The kind of the innermost node: of the leaf, or of the last wrapper where the leaf is missing. -/
def tag (n : Node) : Option Kind := n.leaf.kind?.or n.wrappers.getLast?

mutual

def visits : Node → List (Value × Node)
  | .optional _ inner => visits inner
  | .array _ item => visits item
  | .object _ shape => visitsShape shape
  | _ => []

def visitsShape : List (Value × Node) → List (Value × Node)
  | [] => []
  | (key, node) :: rest => (key, node) :: (visits node ++ visitsShape rest)

end

def spoiled (n : Node) : Bool := n.offends || n.visits.any (·.2.offends)

mutual

/-- The node without what is visited after the first field that offends. -/
def cut : Node → Node
  | .optional a inner => .optional a (cut inner)
  | .array a item => .array a (cut item)
  | .object a shape => .object a (cutShape shape)
  | n => n

def cutShape : List (Value × Node) → List (Value × Node)
  | [] => []
  | (key, node) :: rest =>
    if node.spoiled then [(key, cut node)] else (key, node) :: cutShape rest

end

def untilOffence : List (Value × Node) → List (Value × Node)
  | [] => []
  | f :: rest => if f.2.offends then [f] else f :: untilOffence rest

inductive Reaches : Node → Node → Prop
  | refl (n : Node) : Reaches n n
  | optional (a : Annotations) {inner n : Node} : Reaches inner n → Reaches (.optional a inner) n
  | array (a : Annotations) {item n : Node} : Reaches item n → Reaches (.array a item) n
  | field (a : Annotations) {shape : List (Value × Node)} {f : Value × Node} {n : Node} :
    f ∈ shape → Reaches f.2 n → Reaches (.object a shape) n

def Clear (fields : List (Value × Node)) : Prop := ∀ f ∈ fields, f.2.offends = false

theorem clear_append {xs ys : List (Value × Node)} : Clear (xs ++ ys) ↔ Clear xs ∧ Clear ys :=
  List.forall_mem_append

theorem mem_visitsShape {shape : List (Value × Node)} {f g : Value × Node} (hf : f ∈ shape)
    (hg : g = f ∨ g ∈ visits f.2) : g ∈ visitsShape shape := by
  induction shape with
  | nil => cases hf
  | cons head rest ih =>
    rw [visitsShape, List.mem_cons, List.mem_append]
    rcases List.mem_cons.mp hf with rfl | hf
    · rcases hg with rfl | hg
      · exact .inl rfl
      · exact .inr (.inl hg)
    · exact .inr (.inr (ih hf))

theorem Reaches.mem_visits {n : Node} {b : Annotations} {fields : List (Value × Node)}
    (h : Reaches n (.object b fields)) {f : Value × Node} (hf : f ∈ fields) : f ∈ visits n := by
  generalize hm : Node.object b fields = m at h
  induction h with
  | refl n =>
    subst hm
    rw [visits]
    exact mem_visitsShape hf (.inl rfl)
  | optional a _ ih =>
    rw [visits]
    exact ih hm
  | array a _ ih =>
    rw [visits]
    exact ih hm
  | field a hmem _ ih =>
    rw [visits]
    exact mem_visitsShape hmem (.inr (ih hm))

theorem Reaches.trans {n m k : Node} (hn : Reaches n m) (hm : Reaches m k) : Reaches n k := by
  induction hn with
  | refl n => exact hm
  | optional a _ ih => exact .optional a (ih hm)
  | array a _ ih => exact .array a (ih hm)
  | field a hmem _ ih => exact .field a hmem (ih hm)

theorem reaches_leaf (n : Node) : Reaches n n.leaf := by
  induction n using leaf.induct with
  | case1 a inner ih => exact .optional a ih
  | case2 a item ih => exact .array a ih
  | case3 n ho ha =>
    rw [leaf]
    · exact .refl n
    · exact ho
    · exact ha

mutual

theorem reaches_of_mem_visits {f : Value × Node} : (n : Node) → f ∈ visits n →
    ∃ b fields, Reaches n (.object b fields) ∧ f ∈ fields
  | .optional a inner, h => by
    rw [visits] at h
    obtain ⟨b, fields, hreach, hf⟩ := reaches_of_mem_visits inner h
    exact ⟨b, fields, .optional a hreach, hf⟩
  | .array a item, h => by
    rw [visits] at h
    obtain ⟨b, fields, hreach, hf⟩ := reaches_of_mem_visits item h
    exact ⟨b, fields, .array a hreach, hf⟩
  | .object a shape, h => by
    rw [visits] at h
    rcases reaches_of_mem_visitsShape shape h with hf | ⟨g, hg, b, fields, hreach, hf⟩
    · exact ⟨a, shape, .refl _, hf⟩
    · exact ⟨b, fields, .field a hg hreach, hf⟩
  | .boolean _, h | .string _, h | .number _ _, h | .enum _ _, h | .union _ _, h | .literal _ _, h
  | .date _, h | .any _, h | .plain _, h => by cases h

theorem reaches_of_mem_visitsShape {f : Value × Node} : (shape : List (Value × Node)) →
    f ∈ visitsShape shape →
    f ∈ shape ∨ ∃ g ∈ shape, ∃ b fields, Reaches g.2 (.object b fields) ∧ f ∈ fields
  | [], h => by cases h
  | (key, node) :: rest, h => by
    rw [visitsShape] at h
    rcases List.mem_cons.mp h with rfl | h
    · exact .inl (List.mem_cons_self ..)
    rcases List.mem_append.mp h with h | h
    · obtain ⟨b, fields, hreach, hf⟩ := reaches_of_mem_visits node h
      exact .inr ⟨_, List.mem_cons_self .., b, fields, hreach, hf⟩
    · rcases reaches_of_mem_visitsShape rest h with hf | ⟨g, hg, hbelow⟩
      · exact .inl (List.mem_cons_of_mem _ hf)
      · exact .inr ⟨g, List.mem_cons_of_mem _ hg, hbelow⟩

end

theorem visits_of_offends {n : Node} (h : n.offends = true) : n.visits = [] := by
  unfold offends at h
  induction n using leaf.induct with
  | case1 a inner ih =>
    rw [visits]
    exact ih h
  | case2 a item ih =>
    rw [visits]
    exact ih h
  | case3 n ho ha =>
    cases n with
    | optional a inner => exact absurd rfl (ho a inner)
    | array a item => exact absurd rfl (ha a item)
    | object a shape => cases h
    | _ => rfl

theorem spoiled_eq_false {n : Node} : n.spoiled = false ↔ n.offends = false ∧ Clear n.visits := by
  simp [spoiled, Clear]

theorem cutShape_of_clear {shape : List (Value × Node)} (h : Clear (visitsShape shape)) :
    cutShape shape = shape := by
  induction shape with
  | nil => rfl
  | cons head rest ih =>
    obtain ⟨key, node⟩ := head
    rw [visitsShape] at h
    obtain ⟨hhead, hrest⟩ := List.forall_mem_cons.mp h
    obtain ⟨hbelow, hrest⟩ := clear_append.mp hrest
    have hsound : node.spoiled = false := spoiled_eq_false.mpr ⟨hhead, hbelow⟩
    rw [cutShape, hsound, if_neg (by simp), ih hrest]

theorem cut_of_clear {n : Node} (h : Clear n.visits) : n.cut = n := by
  induction n using leaf.induct with
  | case1 a inner ih =>
    rw [visits] at h
    rw [cut, ih h]
  | case2 a item ih =>
    rw [visits] at h
    rw [cut, ih h]
  | case3 n ho ha =>
    cases n with
    | optional a inner => exact absurd rfl (ho a inner)
    | array a item => exact absurd rfl (ha a item)
    | object a shape =>
      rw [visits] at h
      rw [cut, cutShape_of_clear h]
    | _ => rfl

theorem kind?_cut (n : Node) : n.cut.kind? = n.kind? := by cases n <;> rfl

theorem tag_below (kind : Kind) {inner : Node} (hi : inner ≠ .plain .null)
    (hl : ∀ v, inner.leaf = .plain v → v = .null) :
    inner.tag = inner.leaf.kind?.or (kind :: inner.wrappers).getLast? := by
  cases hw : inner.wrappers with
  | cons k ks => rw [tag, hw, List.getLast?_cons_cons]
  | nil =>
    have hk : ∃ k, inner.leaf.kind? = some k := by
      cases inner with
      | optional a n => cases hw
      | array a n => cases hw
      | plain v => exact absurd (congrArg Node.plain (hl v rfl)) hi
      | _ => exact ⟨_, rfl⟩
    obtain ⟨k, hk⟩ := hk
    rw [tag, hk]
    rfl

theorem innermost_kind? {n : Node} (h : ∀ v, n.leaf = .plain v → v = .null) :
    n.innermost.kind? = n.tag := by
  induction n using innermost.induct with
  | case1 a => rfl
  | case2 a => rfl
  | case3 a inner hi ih =>
    rw [innermost, ih h]
    · exact tag_below .optional hi h
    · exact hi
  | case4 a item hi ih =>
    rw [innermost, ih h]
    · exact tag_below .array hi h
    · exact hi
  | case5 n _ _ ho ha =>
    cases n with
    | optional a inner => exact absurd rfl (ho a inner)
    | array a item => exact absurd rfl (ha a item)
    | _ => rfl

theorem offends_of_kind {n : Node} (h : ∀ kind, n.kind? = some kind → kind.isField = false) :
    n.offends = true ∧ n.tag = n.kind? := by
  cases n with
  | union a variants => exact ⟨rfl, rfl⟩
  | literal a v => exact ⟨rfl, rfl⟩
  | date a => exact ⟨rfl, rfl⟩
  | any a => exact ⟨rfl, rfl⟩
  | plain v => exact ⟨rfl, rfl⟩
  | _ => cases h _ rfl

theorem untilOffence_append (xs ys : List (Value × Node)) :
    untilOffence (xs ++ ys) =
      if xs.any (·.2.offends) then untilOffence xs else xs ++ untilOffence ys := by
  induction xs with
  | nil => rfl
  | cons x xs ih =>
    rw [List.cons_append, untilOffence, untilOffence, ih, List.any_cons]
    cases x.2.offends
    · cases xs.any (·.2.offends) <;> rfl
    · rfl

mutual

theorem keys_cut : (n : Node) →
    (visits n.cut).map Prod.fst = (untilOffence n.visits).map Prod.fst
  | .optional a inner => by
    rw [cut, visits, visits]
    exact keys_cut inner
  | .array a item => by
    rw [cut, visits, visits]
    exact keys_cut item
  | .object a shape => by
    rw [cut, visits, visits]
    exact keys_cutShape shape
  | .boolean _ | .string _ | .number _ _ | .enum _ _ | .union _ _ | .literal _ _ | .date _ | .any _
  | .plain _ => rfl

theorem keys_cutShape : (shape : List (Value × Node)) →
    (visitsShape (cutShape shape)).map Prod.fst = (untilOffence (visitsShape shape)).map Prod.fst
  | [] => rfl
  | (key, node) :: rest => by
    have hnode := keys_cut node
    have hrest := keys_cutShape rest
    rw [cutShape, visitsShape, untilOffence, untilOffence_append]
    cases ho : node.offends with
    | true =>
      have hbelow := visits_of_offends ho
      have hcut : node.cut = node := cut_of_clear (hbelow ▸ nofun)
      have hs : node.spoiled = true := by simp [spoiled, ho]
      rw [if_pos hs, if_pos rfl, hcut, visitsShape, hbelow]
      rfl
    | false =>
      cases hb : node.visits.any (·.2.offends) with
      | true =>
        have hs : node.spoiled = true := by simp [spoiled, hb]
        rw [if_pos hs, if_neg (by simp), if_pos rfl, visitsShape, visitsShape, List.append_nil,
          List.map_cons, List.map_cons, hnode]
      | false =>
        have hs : node.spoiled = false := by simp [spoiled, ho, hb]
        rw [hs, if_neg (by simp), if_neg (by simp), if_neg (by simp), visitsShape, List.map_cons,
          List.map_cons, List.map_append, List.map_append, hrest]

end

end Node

end SchemaCompiler
