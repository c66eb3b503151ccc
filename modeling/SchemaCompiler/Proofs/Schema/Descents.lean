import SchemaCompiler.Proofs.Schema.Parts
import SchemaCompiler.Proofs.Schema.Paths

/-!
Ways down a document to the schemas that are read with it. The reader writes down a path as it goes. It
leads to the schema, unless the way crosses a union that is read as the second of its two variants: that
one is written down as the first.
-/

namespace SchemaCompiler.Schema

open Value (valueAt? entryOrNull)

inductive Descent where
  | property (name : String)
  | items
  | variant (keyword : String) (index : Nat)
  | lone (keyword : String) (index : Nat)
deriving DecidableEq, Repr

namespace Descent

def place : Descent → List String
  | .property name => ["properties", name]
  | .items => ["items"]
  | .variant keyword index | .lone keyword index => [keyword, toString index]

def written : Descent → List String
  | .lone keyword _ => [keyword, "0"]
  | d => d.place

def below (path : String) (d : Descent) : String := onward path d.written

end Descent

def placeOf (way : List Descent) : List String := way.flatMap Descent.place

def writtenOf (way : List Descent) : List String := way.flatMap Descent.written

/-- The way crosses a union that is read as its second variant. -/
def Displaced (way : List Descent) : Prop := ∃ keyword, Descent.lone keyword 1 ∈ way

section Paths

variable (path : String)

theorem below_property (name : String) :
    s!"{path}/properties/{name}" = (Descent.property name).below path := by
  have hkeyword : "/properties/" = "/" ++ "properties" ++ "/" := rfl
  change path ++ "/properties/" ++ name = onward path ["properties", name]
  rw [onward_pair, hkeyword, ← String.append_assoc, ← String.append_assoc]

theorem below_items : s!"{path}/items" = Descent.items.below path := by
  have hkeyword : "/items" = "/" ++ "items" := rfl
  change path ++ "/items" = onward path ["items"]
  rw [onward_single, hkeyword, ← String.append_assoc]

variable {path} {keyword place : String}

theorem below_variant (h : place = s!"{path}/{keyword}") (index : Nat) :
    s!"{place}/{index}" = (Descent.variant keyword index).below path := by
  subst h
  exact (onward_pair path keyword (toString index)).symm

theorem below_lone (h : place = s!"{path}/{keyword}") (index : Nat) :
    s!"{place}/0" = (Descent.lone keyword index).below path := by
  have hindex : "/0" = "/" ++ "0" := rfl
  subst h
  change path ++ "/" ++ keyword ++ "/0" = onward path [keyword, "0"]
  rw [onward_pair, hindex, ← String.append_assoc]

end Paths

inductive Beneath (entries : Entries) : Descent → Value → Prop where
  | property {nullable : Bool} {properties : Entries} {name : String} {u : Value} :
      formOf entries = .body .object nullable →
      valueAt? "properties" entries = some (.record properties) → (name, u) ∈ properties →
      Beneath entries (.property name) u
  | items {nullable : Bool} {u : Value} : formOf entries = .body .array nullable →
      valueAt? "items" entries = some u → u ≠ .null → (∀ items, u ≠ .list items) →
      Beneath entries .items u
  | variant {keyword : String} {variants : List Value} {index : Nat} {u : Value} :
      formOf entries = .union keyword (.list variants) → loneVariant? variants = none →
      variants[index]? = some u → Beneath entries (.variant keyword index) u
  | lone {keyword : String} {variants : List Value} {index : Nat} {u : Value} :
      formOf entries = .union keyword (.list variants) → loneVariant? variants = some u →
      variants[index]? = some u → Beneath entries (.lone keyword index) u

inductive Leads : Value → List Descent → Value → Prop where
  | here (v : Value) : Leads v [] v
  | down {entries : Entries} {d : Descent} {u x : Value} {way : List Descent} : Beneath entries d u →
      Leads u way x → Leads (.record entries) (d :: way) x

/-- No reference is met in the document, and the names of properties are apart and have no slash. -/
structure Addressable (document : Value) : Prop where
  unreferring : ∀ entries, Under (.record entries) document → valueAt? "$ref" entries = none
  slashless : ∀ entries, Under (.record entries) document → ∀ properties,
    valueAt? "properties" entries = some (.record properties) → Slashless (properties.map (·.1))
  distinct : ∀ entries, Under (.record entries) document → ∀ properties,
    valueAt? "properties" entries = some (.record properties) → (properties.map (·.1)).Nodup

theorem Addressable.part {entries : Entries} {u : Value} (h : Addressable (.record entries))
    (hu : u ∈ parts entries) : Addressable u where
  unreferring es hes := h.unreferring es (.part hu hes)
  slashless es hes := h.slashless es (.part hu hes)
  distinct es hes := h.distinct es (.part hu hes)

theorem length_of_loneVariant? {variants : List Value} {u : Value}
    (h : loneVariant? variants = some u) : variants.length = 2 := by
  unfold loneVariant? at h
  split at h
  · rfl
  · cases h

section Steps

variable {entries : Entries} {d : Descent} {u : Value}

theorem Beneath.mem_parts (h : Beneath entries d u) : u ∈ parts entries := by
  unfold parts
  cases h with
  | property hf hp hmem =>
    simp only [hf, hp]
    exact List.mem_map.mpr ⟨_, hmem, rfl⟩
  | items hf hi hnull hlist =>
    simp only [hf, hi]
    exact List.mem_singleton_self u
  | variant hf hl hv =>
    simp only [hf, variantsRead, hl]
    exact List.mem_of_getElem? hv
  | lone hf hl hv =>
    simp only [hf, variantsRead, hl]
    exact List.mem_singleton_self u

theorem at?_variant {keyword : String} {variants : List Value}
    (hf : formOf entries = .union keyword (.list variants)) (index : Nat) :
    at? [keyword, toString index] (.record entries) = variants[index]? := by
  have hitem := itemAt?_toString 0 index variants
  rw [Nat.zero_add] at hitem
  rw [at?, stepTo?, (formOf_union hf).2, Option.bind_some, at?, stepTo?, hitem]
  exact Option.bind_fun_some _

theorem Beneath.at?_place (h : Beneath entries d u) (ha : Addressable (.record entries)) :
    at? d.place (.record entries) = some u := by
  cases h with
  | property hf hp hmem =>
    have hname := Value.valueAt?_of_mem (ha.distinct entries (.refl _) _ hp) hmem
    rw [Descent.place, at?, stepTo?, hp, Option.bind_some, at?, stepTo?, hname]
    rfl
  | items hf hi =>
    rw [Descent.place, at?, stepTo?, hi]
    rfl
  | variant hf hl hv => exact (at?_variant hf _).trans hv
  | lone hf hl hv => exact (at?_variant hf _).trans hv

theorem Beneath.slashless (h : Beneath entries d u) (ha : Addressable (.record entries)) :
    Slashless d.place ∧ Slashless d.written := by
  have hunion {keyword : String} {variants : Value} (hf : formOf entries = .union keyword variants)
      (index : Nat) : Slashless [keyword, toString index] := by
    have hkeyword : '/' ∉ keyword.toList := by
      rcases (formOf_union hf).1 with rfl | rfl <;> decide
    exact slashless_pair.mpr ⟨hkeyword, slash_not_mem_toString index⟩
  cases h with
  | @property _ _ name _ hf hp hmem =>
    have hname : '/' ∉ name.toList :=
      ha.slashless entries (.refl _) _ hp name (List.mem_map.mpr ⟨_, hmem, rfl⟩)
    have hplace : Slashless ["properties", name] := slashless_pair.mpr ⟨by decide, hname⟩
    exact ⟨hplace, hplace⟩
  | items =>
    have hplace : Slashless ["items"] := List.forall_mem_singleton.mpr (by decide)
    exact ⟨hplace, hplace⟩
  | variant hf => exact ⟨hunion hf _, hunion hf _⟩
  | lone hf => exact ⟨hunion hf _, hunion hf 0⟩

theorem Beneath.written_eq_place_iff (h : Beneath entries d u) :
    d.written = d.place ↔ ∀ keyword, d ≠ .lone keyword 1 := by
  cases h with
  | property => simp [Descent.written]
  | items => simp [Descent.written]
  | variant => simp [Descent.written]
  | @lone keyword variants index _ hf hl hv =>
    have hindex : index < 2 := by
      obtain ⟨hlt, -⟩ := List.getElem?_eq_some_iff.mp hv
      rwa [length_of_loneVariant? hl] at hlt
    have hcases : index = 0 ∨ index = 1 := by omega
    rcases hcases with rfl | rfl
    · exact iff_of_true rfl nofun
    · have hne : Descent.written (.lone keyword 1) ≠ Descent.place (.lone keyword 1) :=
        fun h => absurd (List.cons.inj h).2 (by decide)
      exact iff_of_false hne fun h => h keyword rfl

theorem length_written (d : Descent) : d.written.length = d.place.length := by
  cases d <;> rfl

end Steps

section Ways

variable {v x : Value} {way : List Descent}

theorem Leads.at?_placeOf (h : Leads v way x) (ha : Addressable v) : at? (placeOf way) v = some x := by
  induction h with
  | here v => rfl
  | @down entries d u x way hd _ ih =>
    change at? (d.place ++ placeOf way) _ = _
    rw [at?_append, hd.at?_place ha, Option.bind_some, ih (ha.part hd.mem_parts)]

theorem Leads.slashless (h : Leads v way x) (ha : Addressable v) :
    Slashless (placeOf way) ∧ Slashless (writtenOf way) := by
  induction h with
  | here v => exact ⟨nofun, nofun⟩
  | down hd _ ih =>
    obtain ⟨hplace, hwritten⟩ := hd.slashless ha
    obtain ⟨hplaces, hwrittens⟩ := ih (ha.part hd.mem_parts)
    exact ⟨List.forall_mem_append.mpr ⟨hplace, hplaces⟩, List.forall_mem_append.mpr ⟨hwritten, hwrittens⟩⟩

theorem Leads.writtenOf_eq_placeOf_iff (h : Leads v way x) :
    writtenOf way = placeOf way ↔ ¬ Displaced way := by
  induction h with
  | here v => simp [writtenOf, placeOf, Displaced]
  | @down entries d u x way hd _ ih =>
    have hsplit : writtenOf (d :: way) = placeOf (d :: way) ↔
        d.written = d.place ∧ writtenOf way = placeOf way :=
      ⟨fun h => List.append_inj h (length_written d), fun ⟨h, k⟩ => congrArg₂ (· ++ ·) h k⟩
    rw [hsplit, hd.written_eq_place_iff, ih]
    simp [Displaced, not_or, forall_and, eq_comm]

theorem Leads.target? (h : Leads v way x) (ha : Addressable v) :
    target? (pathTo (placeOf way)) v = some x ∧
      (pathTo (writtenOf way) = pathTo (placeOf way) ↔ ¬ Displaced way) := by
  obtain ⟨hplace, hwritten⟩ := h.slashless ha
  refine ⟨(target?_pathTo hplace v).trans (h.at?_placeOf ha), ?_⟩
  rw [← h.writtenOf_eq_placeOf_iff]
  exact ⟨pathTo_injective hwritten hplace, congrArg pathTo⟩

end Ways

end SchemaCompiler.Schema
