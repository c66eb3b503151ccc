import SchemaCompiler.Proofs.Model.DistinctiveNames

namespace SchemaCompiler

structure Unambiguous (w : Workspace) (id : Key) : Prop where
  scalars : ∀ entry ∈ (w.registries id).entries, ∀ s : Scalar, entry.type.name ≠ s.name
  types : ∀ c ∈ (w.registries id).objects, ∀ d ∈ (w.registries id).objects, ∀ m k,
    w.class? c = some m → w.class? d = some k → ∀ f ∈ m.fields, ∀ g ∈ k.fields,
      f.type.typeName = g.type.typeName → f.type = g.type

section Types

variable {entries : List Registry.Entry} {type other : OutputType}

theorem mem_of_mem_objects {r : Registry} {c : ClassHandle} (h : c ∈ r.objects) :
    ∃ entry ∈ r.entries, entry.type = .object c := by
  simp only [Registry.objects, Registry.types, List.mem_filterMap, List.mem_map] at h
  obtain ⟨t, ⟨entry, he, rfl⟩, ht⟩ := h
  refine ⟨entry, he, ?_⟩
  split at ht <;> cases ht
  assumption

theorem Scalar.name_injective {s t : Scalar} (h : s.name = t.name) : s = t := by
  cases s <;> cases t <;> first | rfl | exact absurd h (by decide)

def Single (entries : List Registry.Entry) (type : OutputType) : Prop :=
  (∃ s, type = .scalar s) ∨ ∃ e ∈ entries, type = e.type.toOutput

theorem Known.cases (h : Known entries type) :
    (∃ item, type = .list item ∧ Known entries item) ∨ Single entries type := by
  cases type with
  | list item => exact .inl ⟨item, rfl, h⟩
  | _ => exact .inr h

theorem Known.typeName (h : Known entries type) : ∃ name, type.typeName = .ok name := by
  induction type with
  | list item ih =>
    obtain ⟨name, hname⟩ := ih h
    exact ⟨"[" ++ name ++ "]", by rw [OutputType.typeName, hname]; rfl⟩
  | _ =>
    rcases h.cases with ⟨_, he, -⟩ | ⟨s, he⟩ | ⟨e, -, he⟩
    · cases he
    · exact ⟨s.name, by rw [he, OutputType.typeName]⟩
    · exact ⟨e.type.name, by rw [he, typeName_toOutput]⟩

theorem Single.leaf (h : Single entries type) : type.leaf = type := by
  rcases h with ⟨s, rfl⟩ | ⟨e, -, rfl⟩
  · rfl
  · cases e.type <;> rfl

variable (hs : ∀ e ∈ entries, NotScalar e.type.name)
  (hu : ∀ e ∈ entries, ∀ e' ∈ entries, e.type.name = e'.type.name → e.type = e'.type)

include hs hu

theorem Single.eq_of_typeName (h : Single entries type) (h' : Single entries other)
    (he : type.typeName = other.typeName) : type = other := by
  rcases h with ⟨s, rfl⟩ | ⟨e, hmem, rfl⟩ <;> rcases h' with ⟨s', rfl⟩ | ⟨e', hmem', rfl⟩ <;>
    simp only [typeName_toOutput, OutputType.typeName, Except.ok.injEq] at he
  · rw [Scalar.name_injective he]
  · exact absurd he.symm (hs e' hmem' s)
  · exact absurd he (hs e hmem s')
  · rw [hu e hmem e' hmem' he]

theorem type_of_typeName (h : Known entries type) (h' : Known entries other)
    (hl : ∀ name, type.leaf.typeName = .ok name → NotList name)
    (hl' : ∀ name, other.leaf.typeName = .ok name → NotList name)
    (he : type.typeName = other.typeName) : type = other := by
  have hlisted {item single : OutputType} (hi : Known entries item) (hsingle : Single entries single)
      (hn : ∀ name, single.leaf.typeName = .ok name → NotList name) :
      (OutputType.list item).typeName ≠ single.typeName := by
    obtain ⟨name, hname⟩ := hi.typeName
    rw [OutputType.typeName, hname]
    intro he
    rw [hsingle.leaf, ← he] at hn
    exact hn _ rfl name rfl
  induction type generalizing other with
  | list item ih =>
    rcases h'.cases with ⟨item', rfl, hitem⟩ | hsingle
    · have hlast : Known entries item := h
      obtain ⟨name, hname⟩ := hlast.typeName
      obtain ⟨name', hname'⟩ := hitem.typeName
      rw [OutputType.typeName, OutputType.typeName, hname, hname'] at he
      have hbrackets : "[" ++ name ++ "]" = "[" ++ name' ++ "]" := Except.ok.inj he
      obtain rfl : name = name' := by simpa [← String.toList_inj] using hbrackets
      rw [ih h hitem hl hl' (hname.trans hname'.symm)]
    · exact absurd he (hlisted h hsingle hl')
  | _ =>
    rcases h.cases with ⟨_, hlist, -⟩ | hsingle
    · cases hlist
    · rcases h'.cases with ⟨item', rfl, hitem⟩ | hother
      · exact absurd he.symm (hlisted hitem hsingle hl)
      · exact hsingle.eq_of_typeName hs hu hother he

end Types

/-- Whatever is compiled in whatever order, type names are unambiguous as long as no name that is given,
read in a description or found by a naming of enums is that of a scalar. The last two must not be that of
a list either; a root may be called so, for no field is of its type. A root with a given name may have
any description. -/
theorem typeName_unambiguous (sequences : Key → Value) (actions : List Action)
    (h : ∀ action ∈ actions, action.Distinctive) (id : Key) :
    Unambiguous (afterAll sequences actions) id := by
  have hc := closed_afterAll sequences actions
  obtain ⟨scalars, -, models⟩ := namedApart_afterAll sequences h
  generalize afterAll sequences actions = w at hc scalars models
  have ho := hc.ordered id
  have hu : ∀ e ∈ (w.registries id).entries, ∀ e' ∈ (w.registries id).entries,
      e.type.name = e'.type.name → e.type = e'.type := by
    intro e he e' he' hn
    obtain ⟨_, _, hp⟩ := ho.placed he
    obtain ⟨_, _, hp'⟩ := ho.placed he'
    have hheld := ho.get?_eq he
    rw [hp.named, hn, ← hp'.named, ho.get?_eq he'] at hheld
    exact (Option.some.inj hheld).symm
  have hfield {c : ClassHandle} {m : ModelClass} {f : Field} (hcm : c ∈ (w.registries id).objects)
      (hm : w.class? c = some m) (hf : f ∈ m.fields) : Known (w.registries id).entries f.type ∧
        ∀ name, f.type.leaf.typeName = .ok name → NotList name := by
    obtain ⟨entry, hentry, ht⟩ := mem_of_mem_objects hcm
    obtain ⟨before, hsub, hp⟩ := ho.placed hentry
    obtain ⟨m', hm', -, hk⟩ := hp.known c ht
    obtain ⟨m'', hm'', hl⟩ := models id entry hentry c ht
    cases Option.some.inj (hm.symm.trans hm')
    cases Option.some.inj (hm.symm.trans hm'')
    exact ⟨(hk f hf).mono hsub, hl f hf⟩
  refine ⟨scalars id, ?_⟩
  intro c hcm d hdm m k hm hk f hf g hg
  obtain ⟨hkf, hlf⟩ := hfield hcm hm hf
  obtain ⟨hkg, hlg⟩ := hfield hdm hk hg
  exact type_of_typeName (scalars id) hu hkf hkg hlf hlg

def boxActions (lid : String) : List Action :=
  [.compile (.named (.text "Box")) (.object {} [(.text "labels", .array {} (.string {})),
      (.text "lids", .array {} (.object { description := .text lid } []))]),
    .clearMemo .null,
    .compile {} (.object {} [(.text "state", .enum {} (.list [.text "on"]))])]

theorem typeName_unambiguous_box :
    (∀ action ∈ boxActions "Lid: what closes it", action.Distinctive) ∧
      Unambiguous (afterAll (fun _ => .int 0) (boxActions "Lid: what closes it")) .null := by
  have hlid : Naming.Convention.colon.Distinctive (.text "Lid: what closes it") := by
    intro t ht
    refine distinctive_of_colon ht fun s => ?_
    cases ht
    cases s <;> decide
  have hactions : ∀ action ∈ boxActions "Lid: what closes it", action.Distinctive := by
    simp only [boxActions, List.forall_mem_cons, List.not_mem_nil, false_imp_iff, implies_true, and_true]
    have hbox : Distinctive "Box" := distinctive_of_last (c := 'x') (by decide) (by decide)
    refine ⟨⟨⟨hbox.scalar, nofun⟩, ?_⟩, trivial, ⟨distinctive_none.scalar, nofun⟩, ?_⟩
    · refine ⟨nofun, List.forall_mem_cons.mpr ⟨nofun, ?_⟩⟩
      refine List.forall_mem_singleton.mpr (Node.eachDescription_array.mpr ?_)
      exact Node.eachDescription_object.mpr ⟨hlid, nofun⟩
    · exact ⟨fun _ => nofun, List.forall_mem_singleton.mpr nofun⟩
  exact ⟨hactions, typeName_unambiguous _ _ hactions .null⟩

theorem box_ambiguous :
    let w := afterAll (fun _ => .int 0) (boxActions "String: what closes it")
    (∃ entry ∈ (w.registries .null).entries, entry.type.name = Scalar.string.name) ∧
    (∃ c ∈ (w.registries .null).objects, ∃ m, w.class? c = some m ∧ ∃ f ∈ m.fields, ∃ g ∈ m.fields,
      f.type.typeName = g.type.typeName ∧ f.type ≠ g.type) ∧
    ¬ Unambiguous w .null := by
  intro w
  have hentry : ∃ entry ∈ (w.registries .null).entries, entry.type.name = Scalar.string.name :=
    ⟨⟨.text "String", .object ⟨0, "String"⟩, .text "what closes it"⟩, by decide +kernel, rfl⟩
  have hbox : (w.class? ⟨1, "Box"⟩).map (·.fields.map (·.type)) =
      some [.list (.scalar .string), .list (.object ⟨0, "String"⟩)] := by decide +kernel
  obtain ⟨m, hm, htypes⟩ := Option.map_eq_some_iff.mp hbox
  obtain ⟨f, rest, hfields, hf, hrest⟩ := List.map_eq_cons_iff.mp htypes
  obtain ⟨g, rest, rfl, hg, -⟩ := List.map_eq_cons_iff.mp hrest
  refine ⟨hentry, ⟨⟨1, "Box"⟩, by decide +kernel, m, hm, f, ?_, g, ?_, ?_, ?_⟩, fun h => ?_⟩
  · simp [hfields]
  · simp [hfields]
  · rw [hf, hg]
    rfl
  · rw [hf, hg]
    decide
  · obtain ⟨entry, he, hname⟩ := hentry
    exact h.scalars entry he _ hname

end SchemaCompiler
