import SchemaCompiler.Proofs.Model.Places
import SchemaCompiler.Proofs.Naming.PascalCase
import SchemaCompiler.Proofs.Numerals

namespace SchemaCompiler

open Work

section Convention

variable (c : Naming.Convention) {o : Options} {description : Value} (hd : description.truthy = false)

include hd

theorem nestedName_unread (key : Value) :
    nestedName { o with convention := c } key description = nestedName o key description := by
  simp only [nestedName, hd]
  rfl

theorem synthesize_unread (source : Node) {compileFields others : Options → Work (List CompiledField)}
    (hf : ∀ name generatedName, compileFields { o with convention := c, name, generatedName } =
      others { o with name, generatedName }) :
    synthesize { o with convention := c } source description compileFields =
      synthesize o source description others := by
  have hname : modelName { o with convention := c } description = modelName o description := by
    simp only [modelName, hd]
    rfl
  unfold synthesize
  rw [hname]
  simp only [hf]
  rfl

end Convention

mutual

theorem classify_unread (c : Naming.Convention) {o : Options} (hb : o.builder = none) (key : Value) :
    (n : Node) → n.Undescribed → classify { o with convention := c } key n = classify o key n
  | .optional a inner, h => by
    rw [classify, classify, classify_unread c hb key inner (Node.eachDescription_optional.mp h)]
  | .array a item, h => by
    rw [classify, classify, classify_unread c hb key item (Node.eachDescription_array.mp h)]
  | .object a shape, h => by
    obtain ⟨hroot, hfields⟩ := Node.eachDescription_object.mp h
    rw [classify_object hb, classify_object (o := { o with convention := c }) hb, nestedName_unread c hroot]
    have hmodel (name : Value) :
        synthesize { o with convention := c, name } (.object a shape) a.description
            (fun inner => compileShape inner shape) =
          synthesize { o with name } (.object a shape) a.description fun inner => compileShape inner shape :=
      synthesize_unread c (o := { o with name }) hroot _ fun inner generatedName =>
        compileShape_unread c (o := { o with name := inner, generatedName }) hb shape hfields
    simp only [hmodel]
  | .enum _ _, _ | .boolean _, _ | .string _, _ | .number _ _, _ | .union _ _, _ | .literal _ _, _
  | .date _, _ | .any _, _ => by rw [classify, classify]
  | .plain v, _ => by
    cases v with
    | null => rw [classify, classify]
    | _ => rw [classify, classify] <;> simp

theorem compileShape_unread (c : Naming.Convention) {o : Options} (hb : o.builder = none) :
    (shape : List (Value × Node)) → (∀ f ∈ shape, f.2.Undescribed) →
    compileShape { o with convention := c } shape = compileShape o shape
  | [], _ => by rw [compileShape, compileShape]
  | (key, node) :: rest, h => by
    obtain ⟨hnode, hrest⟩ := List.forall_mem_cons.mp h
    rw [compileShape, compileShape, compileShape_unread c hb rest hrest, classify_unread c hb key node hnode]
    rfl

end

theorem compileModel_unread (c : Naming.Convention) {o : Options} (hb : o.builder = none) {a : Annotations}
    {shape : List (Value × Node)} (h : (Node.object a shape).Undescribed) :
    compileModel { o with convention := c } (.object a shape) = compileModel o (.object a shape) := by
  obtain ⟨hroot, hfields⟩ := Node.eachDescription_object.mp h
  have hshape (name : Value) (generatedName : Bool) :
      compileShape { o with convention := c, name, generatedName } shape =
        compileShape { o with name, generatedName } shape :=
    compileShape_unread c (o := { o with name, generatedName }) hb shape hfields
  change synthesize _ _ _ (fun inner => compileShape inner shape) =
    synthesize _ _ _ fun inner => compileShape inner shape
  exact synthesize_unread c hroot _ hshape

structure Call where
  options : Options
  notes : Annotations
  shape : List (Value × Node)

def drawnTitle (n : Int) : Title := ⟨sequenceName (.int n), true⟩

namespace Call

def run (c : Call) : Work ClassHandle := compileModel c.options (.object c.notes c.shape)

structure Draws (registry sequence : Key) (c : Call) : Prop where
  builder : c.options.builder = none
  enumName : c.options.enumName = none
  unnamed : c.options.name.truthy = false
  registry : c.options.registry = registry
  sequence : c.options.sequence = sequence
  undescribed : (Node.object c.notes c.shape).Undescribed

def definitions (c : Call) (n : Int) : List Definition :=
  .model (drawnTitle n) c.notes c.shape :: definitionsOf (drawnTitle n) c.shape

def afterAll (w : Workspace) (calls : List Call) : Workspace := calls.foldl (fun w c => c.run.after w) w

end Call

section Numbers

variable {m n : Int}

theorem not_isAlpha_of_mem_repr {x : Char} (h : x ∈ n.repr.toList) : x.isAlpha = false := by
  have hdigit {k : Nat} (hx : x ∈ Nat.toDigits 10 k) : x.isAlpha = false := by
    have hx := isDigit_of_mem_toDigits hx
    simp only [Char.isDigit, Bool.and_eq_true, decide_eq_true_eq, ge_iff_le, UInt32.le_iff_toNat_le,
      Char.toNat_val] at hx
    have hnine : ('9').toNat = 57 := rfl
    rw [Naming.isAlpha_eq, Bool.or_eq_false_iff, Bool.eq_false_iff, Bool.eq_false_iff]
    constructor
    · intro hupper
      have := Naming.isUpper_iff.mp hupper
      omega
    · intro hlower
      have := Naming.isLower_iff.mp hlower
      omega
  rw [toList_repr] at h
  split at h
  · exact hdigit h
  · rcases List.mem_cons.mp h with rfl | h
    · decide
    · exact hdigit h

theorem toList_sequenceName (n : Int) :
    (sequenceName (.int n)).toList = "ClassFromZod_".toList ++ n.repr.toList := by
  simp [sequenceName, Value.display, Value.literal, ToString.toString]

theorem sequenceName_injective (h : sequenceName (.int m) = sequenceName (.int n)) : m = n := by
  have hchars := congrArg String.toList h
  rw [toList_sequenceName, toList_sequenceName, List.append_cancel_left_eq] at hchars
  exact repr_injective hchars

end Numbers

theorem plain_drawnTitle (n : Int) : (drawnTitle n).Plain := by
  intro h
  rw [drawnTitle, toList_sequenceName, List.mem_append, toList_repr] at h
  have hdigits (k : Nat) : '\x00' ∉ Nat.toDigits 10 k :=
    fun h => absurd (isDigit_of_mem_toDigits h) (by decide)
  rcases h with h | h
  · exact absurd h (by decide)
  · split at h
    · exact hdigits _ h
    · rcases List.mem_cons.mp h with h | h
      · exact absurd h (by decide)
      · exact hdigits _ h

def Letterless (key : Value) : Prop := ∀ s, key = .text s → ∀ x ∈ s.toList, x.isAlpha = false

theorem letterless_of_pascalKey {key : Value} (h : ∀ x ∈ (Naming.pascalKey key).toList, x.isAlpha = false) :
    Letterless key := by
  rintro s rfl x hx
  cases halpha : x.isAlpha with
  | false => rfl
  | true =>
    obtain ⟨y, hy, hyalpha⟩ := Naming.exists_isAlpha hx halpha false
    rw [Naming.pascalKey, Naming.pascalCase, String.toList_ofList] at h
    rw [h y hy] at hyalpha
    cases hyalpha

theorem mem_pascalPath {keys : List Value} {key : Value} (hk : key ∈ keys) {x : Char}
    (hx : x ∈ (Naming.pascalKey key).toList) : x ∈ (pascalPath keys).toList := by
  induction keys with
  | nil => cases hk
  | cons k rest ih =>
    rw [pascalPath, String.toList_append, List.mem_append]
    rcases List.mem_cons.mp hk with rfl | hk
    · exact .inl hx
    · exact .inr (ih hk)

/-- Below a root with a drawn name, only an object can be called as a drawn root would be, and only where no
key on the way has a letter. -/
theorem place_of_drawn {m n : Int} {shape : List (Value × Node)} (hd : ∀ f ∈ shape, f.2.Undescribed)
    {d : Definition} (hmem : d ∈ definitionsOf (drawnTitle m) shape)
    (hname : d.name = sequenceName (.int n)) : ∃ p ∈ placesOf shape, p.node.isEnum = false ∧
      sequenceName (.int m) ++ pascalPath p.keys = sequenceName (.int n) ∧ ∀ key ∈ p.keys, Letterless key := by
  have hshown := List.mem_map_of_mem (f := Definition.shown) hmem
  rw [shown_definitionsOf _ shape hd] at hshown
  obtain ⟨p, hp, hpd⟩ := List.mem_map.mp hshown
  have hplace : p.name (drawnTitle m) = sequenceName (.int n) := by
    rw [← hname]
    exact congrArg Prod.snd hpd
  have hchars := congrArg String.toList hplace
  rw [toList_sequenceName] at hchars
  unfold Place.name at hplace hchars
  cases henum : p.node.isEnum with
  | true =>
    -- The name of an enum ends in a letter, that of a drawn root in a digit.
    rw [if_pos henum, String.toList_append] at hchars
    have hlast := congrArg List.getLast? hchars
    rw [List.getLast?_append_of_ne_nil _ (by decide), List.getLast?_append] at hlast
    cases hdigit : n.repr.toList.getLast? with
    | none =>
      rw [hdigit] at hlast
      exact absurd hlast (by decide)
    | some x =>
      rw [hdigit, Option.some_or] at hlast
      have hx := not_isAlpha_of_mem_repr (List.mem_of_getLast? hdigit)
      rw [← Option.some.inj hlast] at hx
      exact absurd hx (by decide)
  | false =>
    rw [henum] at hplace hchars
    rw [if_neg (by simp)] at hplace hchars
    refine ⟨p, hp, henum, hplace, fun key hkey => letterless_of_pascalKey fun x hx => ?_⟩
    rw [String.toList_append, drawnTitle, toList_sequenceName, List.append_assoc,
      List.append_cancel_left_eq] at hchars
    apply not_isAlpha_of_mem_repr (n := n)
    rw [← hchars]
    exact List.mem_append_right _ (mem_pascalPath hkey hx)

namespace Call

variable {registry sequence : Key} {c : Call} {w : Workspace} {n : Int}

theorem Draws.run_standard (h : c.Draws registry sequence) : ∃ o : Options, o.Standard ∧ o.name.truthy = false ∧
    o.registry = registry ∧ o.sequence = sequence ∧ c.run = compileModel o (.object c.notes c.shape) := by
  refine ⟨{ c.options with convention := .colon }, ⟨h.builder, h.enumName, rfl, fun ht => ?_⟩, h.unnamed,
    h.registry, h.sequence, (compileModel_unread .colon h.builder h.undescribed).symm⟩
  exact absurd ht (by simp [h.unnamed])

theorem Draws.run_books (h : c.Draws registry sequence) (hw : Standing registry w)
    (hn : w.sequences sequence = .int n) :
    Ends c.run w (fun _ w' => Adds registry (c.definitions n) (w.setSequence sequence (.int (n + 1))) w')
      fun e w' => Adds registry (c.definitions n) (w.setSequence sequence (.int (n + 1))) w' ∧
        (Faults c.shape e ∨ Collides registry (w.setSequence sequence (.int (n + 1))) (c.definitions n) e) := by
  obtain ⟨hroot, -⟩ := Node.eachDescription_object.mp h.undescribed
  obtain ⟨options, hstandard, hunnamed, rfl, rfl, hcall⟩ := h.run_standard
  have hnone : statedName? options c.notes.description = .ok none := by
    rw [statedName?, if_neg (by simp [hunnamed]), if_neg (by simp [hroot])]
  have hname : modelName options c.notes.description w =
      .ok ⟨.text (sequenceName (.int n)), c.notes.description, true⟩
        (w.setSequence options.sequence (.int (n + 1))) := by
    rw [modelName_eq, hnone]
    simp only [hn, Value.next?]
  obtain ⟨o, naming, hs, htitle, hdescribed, hunder, hregistry, hrun⟩ :=
    compileModel_named hstandard c.notes hname
  rw [hn, hstandard.drawn hnone] at htitle hunder
  have hv : Standing o.registry (w.setSequence options.sequence (.int (n + 1))) := by
    obtain ⟨counted, told, made, lines⟩ := hw.coherent
    rw [hregistry]
    exact hw.of_registries ⟨counted, told, made, lines⟩ rfl rfl
  have hplain := plain_drawnTitle n
  have hfields := compileShape_books o.registry (drawnTitle n) (fun _ : True => hplain) (o.within naming) hunder
    rfl c.shape _ hv
  have hbooks := synthesize_books hv hs htitle hdescribed (fun _ => hplain) hfields
  rw [hregistry] at hbooks
  unfold Ends
  rw [hcall, hrun]
  exact hbooks.imp (fun _ _ hq => hq.1) fun e w' he => ⟨he.1, he.2 trivial⟩

structure Ran (registry sequence : Key) (n : Int) (calls : List Call) (w : Workspace) : Prop where
  standing : Standing registry w
  drawn : w.sequences sequence = .int (n + calls.length)
  names : ∀ entry ∈ (w.registries registry).entries, ∃ (i : Nat) (c : Call), calls[i]? = some c ∧
    ∃ d ∈ c.definitions (n + i), entry.name = .text d.name

theorem Ran.snoc {calls : List Call} (h : Ran registry sequence n calls w) (hc : c.Draws registry sequence) :
    Ran registry sequence n (calls ++ [c]) (c.run.after w) := by
  have hadds : Adds registry (c.definitions (n + calls.length))
      (w.setSequence sequence (.int (n + calls.length + 1))) (c.run.after w) := by
    have hbooks := hc.run_books h.standing h.drawn
    unfold Ends at hbooks
    unfold after
    cases hr : c.run w with
    | ok _ w' =>
      rw [hr] at hbooks
      exact hbooks
    | error _ w' =>
      rw [hr] at hbooks
      exact hbooks.1
  refine ⟨hadds.standing, ?_, fun entry he => ?_⟩
  · rw [hadds.sequences, List.length_append, List.length_singleton, Int.natCast_add, ← Int.add_assoc]
    exact update_same ..
  · rcases hadds.recorded entry he with hold | ⟨d, hd, hrecorded⟩
    · obtain ⟨i, c', hi, hnamed⟩ := h.names entry hold
      have hlt := (List.getElem?_eq_some_iff.mp hi).1
      exact ⟨i, c', by rw [List.getElem?_append_left hlt, hi], hnamed⟩
    · exact ⟨calls.length, c, List.getElem?_concat_length, d, hd, hrecorded.name⟩

theorem ran_afterAll (hr : Reached w) (hempty : (w.registries registry).entries = [])
    (hn : w.sequences sequence = .int n) {calls : List Call} (hc : ∀ c ∈ calls, c.Draws registry sequence) :
    Ran registry sequence n calls (afterAll w calls) := by
  induction calls using List.reverseRecOn with
  | nil =>
    refine ⟨.of_reached hr hempty, by simpa [afterAll] using hn, fun entry he => ?_⟩
    rw [afterAll, List.foldl_nil, hempty] at he
    cases he
  | append_singleton calls c ih =>
    obtain ⟨hcalls, hlast⟩ := List.forall_mem_append.mp hc
    rw [afterAll, List.foldl_append]
    exact (ih hcalls).snoc (List.forall_mem_singleton.mp hlast)

/-- A compilation that is refused the name drawn for its root has it taken by an object that the same or an
earlier compilation named by a number and by keys, none of which has a letter. -/
theorem drawn_name_taken (hr : Reached w) (hempty : (w.registries registry).entries = [])
    (hn : w.sequences sequence = .int n) {before : List Call} {last : Call}
    (hc : ∀ c ∈ before ++ [last], c.Draws registry sequence) :
    (afterAll w before).sequences sequence = .int (n + before.length) ∧
    ∀ w', last.run (afterAll w before) =
        .error (.duplicateType (.text (sequenceName (.int (n + before.length))))) w' →
      ∃ (i : Nat) (c : Call) (p : Place), (before ++ [last])[i]? = some c ∧ p ∈ placesOf c.shape ∧
        p.node.isEnum = false ∧
        sequenceName (.int (n + i)) ++ pascalPath p.keys = sequenceName (.int (n + before.length)) ∧
        ∀ key ∈ p.keys, Letterless key := by
  obtain ⟨hbefore, hlast⟩ := List.forall_mem_append.mp hc
  have hran := ran_afterAll hr hempty hn hbefore
  refine ⟨hran.drawn, fun w' he => ?_⟩
  have hplace {i : Nat} {c : Call} {d : Definition} (hi : (before ++ [last])[i]? = some c)
      (hd : d ∈ definitionsOf (drawnTitle (n + i)) c.shape)
      (hname : d.name = sequenceName (.int (n + before.length))) :
      ∃ (i : Nat) (c : Call) (p : Place), (before ++ [last])[i]? = some c ∧ p ∈ placesOf c.shape ∧
        p.node.isEnum = false ∧
        sequenceName (.int (n + i)) ++ pascalPath p.keys = sequenceName (.int (n + before.length)) ∧
        ∀ key ∈ p.keys, Letterless key := by
    have hdraws := hc c (List.mem_of_getElem? hi)
    obtain ⟨-, hfields⟩ := Node.eachDescription_object.mp hdraws.undescribed
    obtain ⟨p, hp, hrest⟩ := place_of_drawn hfields hd hname
    exact ⟨i, c, p, hi, hp, hrest⟩
  have hbooks := (List.forall_mem_singleton.mp hlast).run_books hran.standing hran.drawn
  unfold Ends at hbooks
  rw [he] at hbooks
  rcases hbooks.2 with hfaults | ⟨name, hname, hclash | ⟨entry, hentry, hentryName, -⟩⟩
  · exact absurd rfl (hfaults.unnamed _)
  · cases hname
    -- The root is the first definition, so another one has its name.
    have hother : ∃ d ∈ definitionsOf (drawnTitle (n + before.length)) last.shape,
        d.name = sequenceName (.int (n + before.length)) := by
      by_contra hnone
      refine hclash (List.pairwise_cons.mpr ⟨fun d hd _ hdn => absurd ⟨d, hd, hdn⟩ hnone, ?_⟩)
      exact List.pairwise_of_forall_mem_list fun d hd _ _ hdn => absurd ⟨d, hd, hdn⟩ hnone
    obtain ⟨d, hd, hdn⟩ := hother
    exact hplace List.getElem?_concat_length hd hdn
  · cases hname
    obtain ⟨i, c, hi, d, hd, hdn⟩ := hran.names entry hentry
    have hlt := (List.getElem?_eq_some_iff.mp hi).1
    rw [hentryName] at hdn
    have hdn := (Key.text.inj hdn).symm
    rcases List.mem_cons.mp hd with rfl | hd
    · have := sequenceName_injective hdn
      omega
    · exact hplace (by rw [List.getElem?_append_left hlt, hi]) hd hdn

def emptyBox (tag : Nat) : Call := ⟨{}, { tag }, []⟩

def boxOf (key : String) : Call := ⟨{}, { tag := 10 }, [(.text key, .object { tag := 11 } [])]⟩

def tenBoxes : List Call := emptyBox 0 :: boxOf "0" :: (List.range' 1 8).map emptyBox

theorem draws_emptyBox (tag : Nat) : (emptyBox tag).Draws .null .null :=
  ⟨rfl, rfl, rfl, rfl, rfl, Node.eachDescription_object.mpr ⟨rfl, nofun⟩⟩

theorem draws_boxOf (key : String) : (boxOf key).Draws .null .null :=
  ⟨rfl, rfl, rfl, rfl, rfl, Node.eachDescription_object.mpr ⟨rfl, List.forall_mem_singleton.mpr
    (Node.eachDescription_object.mpr ⟨rfl, nofun⟩)⟩⟩

theorem draws_tenBoxes : ∀ c ∈ tenBoxes ++ [emptyBox 9], c.Draws .null .null := by
  intro c hc
  simp only [tenBoxes, List.cons_append, List.mem_cons, List.mem_append, List.mem_map, List.not_mem_nil,
    or_false] at hc
  rcases hc with rfl | rfl | ⟨tag, -, rfl⟩ | rfl
  · exact draws_emptyBox 0
  · exact draws_boxOf "0"
  · exact draws_emptyBox tag
  · exact draws_emptyBox 9

theorem drawn_name_taken_tenBoxes :
    (∀ c ∈ tenBoxes ++ [emptyBox 9], c.Draws .null .null) ∧
    (∃ w, (emptyBox 9).run (afterAll {} tenBoxes) =
      .error (.duplicateType (.text (sequenceName (.int 10)))) w) ∧
    ∃ (i : Nat) (c : Call) (p : Place), (tenBoxes ++ [emptyBox 9])[i]? = some c ∧
      p ∈ placesOf c.shape ∧ p.node.isEnum = false ∧
      sequenceName (.int i) ++ pascalPath p.keys = sequenceName (.int 10) ∧
      ∀ key ∈ p.keys, Letterless key := by
  have hrun : ∃ w, (emptyBox 9).run (afterAll {} tenBoxes) =
      .error (.duplicateType (.text (sequenceName (.int 10)))) w := error_of_outcome (by decide +kernel)
  refine ⟨draws_tenBoxes, hrun, ?_⟩
  obtain ⟨w, hw⟩ := hrun
  obtain ⟨-, htaken⟩ := drawn_name_taken (.refl {}) rfl rfl draws_tenBoxes
  obtain ⟨i, c, p, hi, hp, henum, hname, hkeys⟩ := htaken w hw
  rw [Int.zero_add, Int.zero_add] at hname
  exact ⟨i, c, p, hi, hp, henum, hname, hkeys⟩

/-- A number that was never drawn before does not make the name a new one. After ten boxes the part of the
second has the name of the eleventh, and a box has that of its only part where the key of the part is all
underscores. -/
theorem drawn_name_repeated :
    (∃ (calls : List Call) (c : Call), (∀ d ∈ calls ++ [c], d.Draws .null .null) ∧
      (afterAll {} calls).sequences .null = .int 10 ∧
      ∃ w, c.run (afterAll {} calls) = .error (.duplicateType (.text "ClassFromZod_10")) w) ∧
    ∃ c : Call, c.Draws .null .null ∧ ∃ w, c.run {} = .error (.duplicateType (.text "ClassFromZod_0")) w :=
  ⟨⟨tenBoxes, emptyBox 9, draws_tenBoxes, by decide +kernel, error_of_outcome (by decide +kernel)⟩,
    boxOf "_", draws_boxOf "_", error_of_outcome (by decide +kernel)⟩

end Call

end SchemaCompiler
