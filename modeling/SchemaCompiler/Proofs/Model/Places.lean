import SchemaCompiler.Proofs.Model.GeneratedNames

namespace SchemaCompiler

structure Place where
  keys : List Value
  node : Node

def pascalPath : List Value → String
  | [] => ""
  | key :: rest => Naming.pascalKey key ++ pascalPath rest

def Node.isEnum : Node → Bool
  | .enum .. => true
  | _ => false

namespace Place

def below (key : Value) (p : Place) : Place := ⟨key :: p.keys, p.node⟩

/-- The name of what is made at a place below a root with the title: a drawn name is no part of the name
of an enum, and neither are the keys of the models around it. -/
def name (t : Title) (p : Place) : String :=
  if p.node.isEnum then
    (if t.drawn then pascalPath (p.keys.drop (p.keys.length - 1)) else t.name ++ pascalPath p.keys) ++ "Enum"
  else t.name ++ pascalPath p.keys

end Place

mutual

def places (key : Value) : Node → List Place
  | .optional _ inner => places key inner
  | .array _ item => places key item
  | .enum a values => [⟨[key], .enum a values⟩]
  | .object a shape => ⟨[key], .object a shape⟩ :: (placesOf shape).map (.below key)
  | _ => []

def placesOf : List (Value × Node) → List Place
  | [] => []
  | (key, node) :: rest => places key node ++ placesOf rest

end

def Node.Undescribed : Node → Prop := EachDescription fun description => description.truthy = false

theorem ownTitle?_of_not_truthy {description : Value} (h : description.truthy = false) :
    Naming.ownTitle? description = none := by
  cases description with
  | text s =>
    obtain rfl : s = "" := by simpa [Value.truthy] using h
    rfl
  | _ => rfl

theorem Title.nested_of_not_truthy (t : Title) (key : Value) {description : Value}
    (h : description.truthy = false) :
    t.nested key description = ⟨t.name ++ Naming.pascalKey key, t.drawn⟩ := by
  rw [Title.nested, ownTitle?_of_not_truthy h]

def Definition.shown (d : Definition) : Node × String := (d.source, d.name)

def Place.shown (t : Title) (p : Place) : Node × String := (p.node, p.name t)

theorem Place.shown_below (t : Title) (key : Value) {p : Place} (hp : p.keys ≠ []) :
    (p.below key).shown t = p.shown ⟨t.name ++ Naming.pascalKey key, t.drawn⟩ := by
  obtain ⟨k, rest, hk⟩ := List.exists_cons_of_ne_nil hp
  simp [Place.shown, Place.name, Place.below, hk, pascalPath, String.append_assoc]

mutual

theorem keys_places {p : Place} (key : Value) : (n : Node) → p ∈ places key n →
    ∃ rest, p.keys = key :: rest
  | .optional a inner, h => by
    rw [places] at h
    exact keys_places key inner h
  | .array a item, h => by
    rw [places] at h
    exact keys_places key item h
  | .enum a values, h => by
    rw [places] at h
    rw [List.mem_singleton.mp h]
    exact ⟨[], rfl⟩
  | .object a shape, h => by
    rw [places] at h
    rcases List.mem_cons.mp h with rfl | h
    · exact ⟨[], rfl⟩
    · obtain ⟨q, -, rfl⟩ := List.mem_map.mp h
      exact ⟨q.keys, rfl⟩
  | .boolean _, h | .string _, h | .number _ _, h | .union _ _, h | .literal _ _, h | .date _, h
  | .any _, h | .plain _, h => by cases h

theorem keys_placesOf {p : Place} : (shape : List (Value × Node)) → p ∈ placesOf shape →
    ∃ f ∈ shape, ∃ rest, p.keys = f.1 :: rest
  | [], h => by cases h
  | (key, node) :: rest, h => by
    rw [placesOf] at h
    rcases List.mem_append.mp h with h | h
    · obtain ⟨more, hmore⟩ := keys_places key node h
      exact ⟨_, List.mem_cons_self .., more, hmore⟩
    · obtain ⟨f, hf, more, hmore⟩ := keys_placesOf rest h
      exact ⟨f, List.mem_cons_of_mem _ hf, more, hmore⟩

end

mutual

theorem shown_definitions (t : Title) (key : Value) : (n : Node) → n.Undescribed →
    (definitions t key n).map Definition.shown = (places key n).map (Place.shown t)
  | .optional a inner, h => by
    rw [definitions, places]
    exact shown_definitions t key inner (Node.eachDescription_optional.mp h)
  | .array a item, h => by
    rw [definitions, places]
    exact shown_definitions t key item (Node.eachDescription_array.mp h)
  | .enum a values, _ => by
    rw [definitions, places]
    cases ht : t.drawn <;>
      simp [Definition.shown, Place.shown, Definition.source, Definition.name, Title.enumName, Place.name,
        Node.isEnum, pascalPath, ht]
  | .object a shape, h => by
    obtain ⟨hroot, hfields⟩ := Node.eachDescription_object.mp h
    have hbelow : (placesOf shape).map (fun p => (p.below key).shown t) =
        (placesOf shape).map (Place.shown ⟨t.name ++ Naming.pascalKey key, t.drawn⟩) := by
      apply List.map_congr_left
      intro p hp
      obtain ⟨f, -, rest, hkeys⟩ := keys_placesOf shape hp
      exact p.shown_below t key (by simp [hkeys])
    rw [definitions, places, t.nested_of_not_truthy key hroot, List.map_cons, List.map_cons, List.map_map,
      shown_definitionsOf _ shape hfields]
    congr 1
    · simp [Definition.shown, Place.shown, Definition.source, Definition.name, Place.name, Node.isEnum,
        pascalPath]
    · exact hbelow.symm
  | .boolean _, _ | .string _, _ | .number _ _, _ | .union _ _, _ | .literal _ _, _ | .date _, _
  | .any _, _ | .plain _, _ => rfl

theorem shown_definitionsOf (t : Title) : (shape : List (Value × Node)) →
    (∀ f ∈ shape, f.2.Undescribed) →
    (definitionsOf t shape).map Definition.shown = (placesOf shape).map (Place.shown t)
  | [], _ => rfl
  | (key, node) :: rest, h => by
    obtain ⟨hnode, hrest⟩ := List.forall_mem_cons.mp h
    rw [definitionsOf, placesOf, List.map_append, List.map_append, shown_definitions t key node hnode,
      shown_definitionsOf t rest hrest]

end

end SchemaCompiler
