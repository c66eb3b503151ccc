import SchemaCompiler.Proofs.Schema.Meeting
import SchemaCompiler.Proofs.Schema.Overlaying

namespace SchemaCompiler.Schema

open Outcome
open Node (Alike)
open Value (valueAt? entryOrNull)

/-- Whatever the first schema is read as, the second is read alike, and no reference is followed. -/
def ReadsAs (follow : Follow (Except Failure)) (v w : Value) : Prop :=
  ∀ path node, readSchema follow v path = .ok node →
    ∀ (follow' : Follow (Except Failure)) elsewhere, ∃ node',
      readSchema follow' w elsewhere = .ok node' ∧ Alike node node'

/-- The union with these entries singles out the same variant after its references are replaced. -/
def Agrees (resolve : String → Option Value) (entries : Entries) : Prop :=
  ∀ keyword variants, formOf entries = .union keyword (.list variants) →
    loneVariant? (variants.map (inline resolve)) = (loneVariant? variants).map (inline resolve)

section Reading

variable {follow : Follow (Except Failure)} {resolve : String → Option Value}

theorem readVariants_inlined {place : String} {index : Nat} {variants : List Value} {nodes : List Node}
    (hv : ∀ v ∈ variants, ReadsAs follow v (inline resolve v))
    (h : readVariants follow place index variants = .ok nodes)
    (follow' : Follow (Except Failure)) (elsewhere : String) :
    ∃ nodes', readVariants follow' elsewhere index (variants.map (inline resolve)) = .ok nodes' ∧
      Node.listWithoutPaths nodes = Node.listWithoutPaths nodes' := by
  induction variants generalizing index nodes with
  | nil =>
    rw [readVariants] at h
    cases h
    exact ⟨[], by rw [List.map_nil, readVariants]; rfl, rfl⟩
  | cons v rest ih =>
    rw [readVariants] at h
    obtain ⟨node, hnode, h⟩ := bind_eq_ok_iff.mp h
    obtain ⟨others, hothers, h⟩ := bind_eq_ok_iff.mp h
    cases h
    obtain ⟨node', hnode', ha⟩ := hv v (by simp) _ _ hnode follow' s!"{elsewhere}/{index}"
    obtain ⟨others', hothers', hl⟩ := ih (fun u hu => hv u (List.mem_cons_of_mem _ hu)) hothers
    refine ⟨node' :: others', ?_, ?_⟩
    · rw [List.map_cons, readVariants, hnode', ok_bind, hothers']
      rfl
    · rw [Node.listWithoutPaths, Node.listWithoutPaths, ha, hl]

theorem readProperties_inlined {required : List String} {place : String} {properties : Entries}
    {shape : List (Value × Node)}
    (hv : ∀ v ∈ properties.map (·.2), ReadsAs follow v (inline resolve v))
    (h : readProperties follow required place properties = .ok shape)
    (follow' : Follow (Except Failure)) (elsewhere : String) :
    ∃ shape', readProperties follow' required elsewhere (inlineFields resolve properties) = .ok shape' ∧
      Node.shapeWithoutPaths shape = Node.shapeWithoutPaths shape' := by
  induction properties generalizing shape with
  | nil =>
    rw [readProperties] at h
    cases h
    exact ⟨[], by rw [inlineFields, readProperties]; rfl, rfl⟩
  | cons entry rest ih =>
    obtain ⟨name, v⟩ := entry
    rw [readProperties] at h
    obtain ⟨node, hnode, h⟩ := bind_eq_ok_iff.mp h
    obtain ⟨others, hothers, h⟩ := bind_eq_ok_iff.mp h
    cases h
    obtain ⟨node', hnode', ha⟩ := hv v (by simp) _ _ hnode follow' s!"{elsewhere}/properties/{name}"
    obtain ⟨others', hothers', hl⟩ := ih (fun u hu => hv u (List.mem_cons_of_mem _ hu)) hothers
    let wanted := s!"{elsewhere}/properties/{name}"
    let kept := if name ∈ required then node' else .optional { path := .text wanted } node'
    refine ⟨(.text name, kept) :: others', ?_, ?_⟩
    · rw [inlineFields, readProperties, hnode', ok_bind, hothers']
      rfl
    · rw [Node.shapeWithoutPaths, Node.shapeWithoutPaths, hl]
      dsimp only [kept]
      split
      · rw [ha]
      · rw [Node.withoutPaths, Node.withoutPaths, ha]
        rfl

theorem readBody_inlined {entries : Entries} {path : String} {body : Body} {nullable : Bool}
    {node : Node} (hf : formOf entries = .body body nullable)
    (hv : ∀ u ∈ parts entries, ReadsAs follow u (inline resolve u))
    (h : readBody follow entries path body = .ok node)
    (follow' : Follow (Except Failure)) (elsewhere : String) :
    ∃ node', readBody follow' (inlineEntries resolve entries) elsewhere body = .ok node' ∧
      Alike node node' := by
  cases body with
  | object =>
    rw [readBody_object, ofExcept_eq] at h
    rw [readBody_object, ofExcept_eq, requiredNames_inlineEntries, valueAt?_inlineEntries]
    obtain ⟨required, hrequired, h⟩ := bind_eq_ok_iff.mp h
    rw [hrequired, ok_bind]
    cases hp : valueAt? "properties" entries with
    | none =>
      rw [hp] at h
      cases h
      exact ⟨_, rfl, rfl⟩
    | some v =>
      cases v with
      | record properties =>
        rw [hp] at h
        have hps : parts entries = properties.map (·.2) := by simp only [parts, hf, hp]
        rw [hps] at hv
        obtain ⟨shape, hshape, h⟩ := bind_eq_ok_iff.mp h
        cases h
        obtain ⟨shape', hshape', hl⟩ := readProperties_inlined hv hshape follow' elsewhere
        refine ⟨.object {} shape', ?_, ?_⟩
        · change (readProperties follow' required elsewhere (inlineFields resolve properties) >>= _) = _
          rw [hshape']
          rfl
        · rw [Alike, Node.withoutPaths, Node.withoutPaths, hl]
      | _ =>
        rw [hp] at h
        cases h
  | array =>
    have hi' := valueAt?_inlineEntries resolve "items" entries
    rw [readBody_array] at h
    split at h
    · rename_i hi
      cases h
      rw [hi] at hi'
      rw [readBody_array, hi']
      exact ⟨_, rfl, rfl⟩
    · rename_i hi
      cases h
      rw [hi] at hi'
      rw [readBody_array, hi']
      exact ⟨_, rfl, rfl⟩
    · cases h
    · rename_i items hn hl hi
      have hps : parts entries = [items] := by simp only [parts, hf, hi]
      obtain ⟨item, hitem, h⟩ := bind_eq_ok_iff.mp h
      cases h
      obtain ⟨item', hitem', ha⟩ := hv items (by simp [hps]) _ _ hitem follow' s!"{elsewhere}/items"
      obtain ⟨schema, rfl⟩ := record_of_readSchema hitem
      obtain ⟨schema', hs⟩ := inline_record_eq_record resolve schema
      rw [hi] at hi'
      rw [readBody_array_record follow' elsewhere (hi'.trans (congrArg some hs)), ← hs, hitem']
      refine ⟨.array {} item', rfl, ?_⟩
      rw [Alike, Node.withoutPaths, Node.withoutPaths, ha]
  | text =>
    rw [readBody, ofExcept_eq] at h
    rw [readBody, ofExcept_eq, entryOrNull,
      valueAt?_inlineEntries_plain _ _ _ (by decide)]
    exact ⟨node, h, rfl⟩
  | number isInteger =>
    rw [readBody] at h
    rw [readBody]
    exact ⟨node, h, rfl⟩
  | boolean =>
    rw [readBody] at h
    rw [readBody]
    exact ⟨node, h, rfl⟩
  | any =>
    rw [readBody] at h
    rw [readBody]
    exact ⟨node, h, rfl⟩

theorem readUnion_inlined {entries : Entries} {path place keyword : String} {variants : Value}
    {node : Node} (hf : formOf entries = .union keyword variants) (ha : Agrees resolve entries)
    (hv : ∀ u ∈ parts entries, ReadsAs follow u (inline resolve u))
    (h : readUnion follow entries path place variants = .ok node)
    (follow' : Follow (Except Failure)) (elsewhere target : String) :
    ∃ node', readUnion follow' (inlineEntries resolve entries) elsewhere target
        (inlineVariants resolve variants) = .ok node' ∧ Alike node node' := by
  cases variants with
  | list variants =>
    have hp : parts entries = variantsRead variants := by simp only [parts, hf]
    have hl := ha keyword variants hf
    rw [hp, variantsRead] at hv
    rw [readUnion_list] at h
    rw [inlineVariants, inlineAll_eq_map, readUnion_list, hl]
    cases hlone : loneVariant? variants with
    | some v =>
      rw [hlone] at h hv
      obtain ⟨inner, hinner, h⟩ := bind_eq_ok_iff.mp h
      cases h
      obtain ⟨inner', hinner', hi⟩ := hv v (by simp) _ _ hinner follow' s!"{target}/0"
      refine ⟨overlayTexts entries inner'.asNullable, ?_, alike_overlayTexts entries hi.asNullable⟩
      dsimp only [Option.map_some]
      rw [hinner', ok_bind, overlayTexts_inlineEntries]
      rfl
    | none =>
      rw [hlone] at h hv
      obtain ⟨nodes, hnodes, h⟩ := bind_eq_ok_iff.mp h
      cases h
      obtain ⟨nodes', hnodes', hi⟩ := readVariants_inlined hv hnodes follow' target
      refine ⟨annotate entries elsewhere (.union {} nodes'), ?_, alike_annotate entries ?_ path elsewhere⟩
      · dsimp only [Option.map_none]
        rw [hnodes', ok_bind, annotate_inlineEntries]
        rfl
      · rw [Alike, Node.withoutPaths, Node.withoutPaths, hi]
  | _ =>
    rw [readUnion_of_not_list _ _ _ _ (by simp), ofExcept_eq] at h
    obtain ⟨nodes, hnodes, h⟩ := bind_eq_ok_iff.mp h
    obtain ⟨hnone, rfl⟩ := readForeign_ok hnodes
    cases h
    refine ⟨annotate entries elsewhere (.union {} []), ?_, alike_annotate entries rfl path elsewhere⟩
    rw [inlineVariants, readUnion_of_not_list _ _ _ _ (by simp), ofExcept_eq,
      hnone, readForeign, ok_bind, annotate_inlineEntries]
    · rfl
    · simp

theorem valueAt?_of_formOf_union {entries : Entries} {keyword : String} {variants : Value}
    (h : formOf entries = .union keyword variants) : valueAt? "$ref" entries = none := by
  cases hr : valueAt? "$ref" entries with
  | none => rfl
  | some target =>
    rw [formOf, hr] at h
    cases h

def Resolves (follow : Follow (Except Failure)) (resolve : String → Option Value)
    (reference : String) : Prop :=
  ∀ path node, follow reference path = .ok node → ∃ schema, resolve reference = some schema ∧
    ∀ (follow' : Follow (Except Failure)) elsewhere, ∃ node',
      readSchema follow' schema elsewhere = .ok node' ∧ Alike node node'

theorem readsAs_inline {v : Value}
    (agree : ∀ entries, Under (.record entries) v → Agrees resolve entries)
    (resolves : ∀ entries reference, Under (.record entries) v →
      formOf entries = .reference (.text reference) → Resolves follow resolve reference) :
    ReadsAs follow v (inline resolve v) := by
  induction v using parts_induction with
  | other v hv =>
    intro path node h
    obtain ⟨entries, rfl⟩ := record_of_readSchema h
    exact absurd rfl (hv entries)
  | record entries ih =>
    have hparts : ∀ u ∈ parts entries, ReadsAs follow u (inline resolve u) := fun u hu =>
      ih u hu (fun es hes => agree es (.part hu hes))
        fun es reference hes => resolves es reference (.part hu hes)
    intro path node h follow' elsewhere
    rw [readSchema_record] at h
    cases hr : valueAt? "$ref" entries with
    | some target =>
      have hf : formOf entries = .reference target := by rw [formOf, hr]
      rw [hf] at h
      cases target with
      | text reference =>
        obtain ⟨inner, hinner, h⟩ := bind_eq_ok_iff.mp h
        cases h
        obtain ⟨schema, hs, hread⟩ := resolves entries reference (.refl _) hf _ _ hinner
        obtain ⟨inner', hinner', ha⟩ := hread follow' elsewhere
        obtain ⟨definition, rfl⟩ := record_of_readSchema hinner'
        rw [inline_reference resolve hr hs, readSchema_overlaid, hinner']
        exact ⟨_, rfl, alike_overlay entries ha⟩
      | _ => cases h
    | none =>
      rw [inline_record resolve hr, readSchema_record, formOf_inlineEntries]
      cases hf : formOf entries with
      | reference target =>
        rw [valueAt?_of_formOf_reference hf] at hr
        cases hr
      | constant value =>
        rw [hf] at h
        cases h
        refine ⟨_, rfl, ?_⟩
        rw [annotate_inlineEntries]
        exact alike_annotate entries rfl path elsewhere
      | union keyword variants =>
        rw [hf] at h
        exact readUnion_inlined hf (agree entries (.refl _)) hparts h follow' elsewhere _
      | enum values =>
        rw [hf] at h
        dsimp only at h
        rw [ofExcept_eq] at h
        obtain ⟨inner, hinner, h⟩ := bind_eq_ok_iff.mp h
        cases h
        dsimp only [Form.inlined]
        rw [ofExcept_eq, hinner, ok_bind, annotate_inlineEntries]
        exact ⟨_, rfl, alike_annotate entries rfl path elsewhere⟩
      | mixed types =>
        rw [hf] at h
        cases h
      | body body nullable =>
        rw [hf] at h
        obtain ⟨inner, hinner, h⟩ := bind_eq_ok_iff.mp h
        cases h
        obtain ⟨inner', hinner', ha⟩ := readBody_inlined hf hparts hinner follow' elsewhere
        dsimp only [Form.inlined]
        rw [hinner', ok_bind, annotate_inlineEntries]
        refine ⟨_, rfl, ?_⟩
        have han := alike_annotate entries ha path elsewhere
        cases nullable with
        | true => exact han.asNullable
        | false => exact han

end Reading

theorem readsAs_inline_resolved (definitions : Value) (busy : List String) (v : Value)
    (agree : ∀ busy' entries, Met definitions busy v busy' (.record entries) →
      Agrees (resolved definitions busy') entries) :
    ReadsAs (expand definitions busy) v (inline (resolved definitions busy) v) := by
  -- Within a definition the structure of the schema carries the proof, across references the number
  -- of definitions that are still free does.
  induction hn : remaining definitions busy using Nat.strongRecOn generalizing busy v with
  | ind n ih =>
    apply readsAs_inline
    · intro entries hu
      exact agree busy entries (.of_under hu (.self _ _))
    · intro entries reference hu hf path node h
      rcases expand_cases definitions busy reference path with ⟨e, he, _⟩ | ⟨schema, hs, hl, hb, he⟩
      · cases he.symm.trans h
      · have hlt : remaining definitions (lastSegment reference :: busy) < n := by
          rw [← hn]
          exact remaining_lt hl hb
        refine ⟨_, resolved_eq _ hs hl hb, ?_⟩
        refine ih _ hlt _ _ (fun busy' es hm => ?_) rfl _ _ (he.symm.trans h)
        exact agree busy' es (.of_under hu (.definition hf hs hl hb hm))

theorem not_alike_collapsed {entries entries' : Entries} {path : String} {inner : Node}
    {nodes : List Node} {node : Node} (hn : node ∈ nodes) (h : Alike inner node) :
    ¬ Alike (overlayTexts entries inner.asNullable) (annotate entries' path (.union {} nodes)) := by
  rw [overlayTexts, Node.asNullable, Node.mapNotes_mapNotes, annotate]
  exact Node.not_alike_union (fun _ => rfl) hn h

theorem not_alike_of_lone {follow : Follow (Except Failure)} {resolve : String → Option Value}
    {entries : Entries} {keyword path : String} {variants : List Value} {node : Node}
    (hf : formOf entries = .union keyword (.list variants))
    (hv : ∀ v ∈ variants, ReadsAs follow v (inline resolve v))
    (hd : (loneVariant? variants).isSome ≠ (loneVariant? (variants.map (inline resolve))).isSome)
    (h : readSchema follow (.record entries) path = .ok node)
    {follow' : Follow (Except Failure)} {elsewhere : String} {node' : Node}
    (h' : readSchema follow' (inline resolve (.record entries)) elsewhere = .ok node') :
    ¬ Alike node node' := by
  have hf' : formOf (inlineEntries resolve entries) =
      .union keyword (.list (variants.map (inline resolve))) := by
    rw [formOf_inlineEntries, hf, Form.inlined, inlineVariants, inlineAll_eq_map]
  rw [inline_record resolve (valueAt?_of_formOf_union hf), readSchema_union_list hf'] at h'
  rw [readSchema_union_list hf] at h
  cases hl : loneVariant? variants with
  | some v =>
    cases hl' : loneVariant? (variants.map (inline resolve)) with
    | some w => simp [hl, hl'] at hd
    | none =>
      rw [hl] at h
      rw [hl'] at h'
      obtain ⟨inner, hinner, h⟩ := bind_eq_ok_iff.mp h
      obtain ⟨nodes', hnodes', h'⟩ := bind_eq_ok_iff.mp h'
      cases h
      cases h'
      have hmem := mem_of_loneVariant? hl
      obtain ⟨q, m, hm, hread⟩ := mem_of_readVariants hnodes' (List.mem_map_of_mem hmem)
      obtain ⟨m', hread', ha⟩ := hv v hmem _ _ hinner follow' q
      cases hread.symm.trans hread'
      exact not_alike_collapsed hm ha
  | none =>
    cases hl' : loneVariant? (variants.map (inline resolve)) with
    | none => simp [hl, hl'] at hd
    | some w =>
      rw [hl] at h
      rw [hl'] at h'
      obtain ⟨nodes, hnodes, h⟩ := bind_eq_ok_iff.mp h
      obtain ⟨inner', hinner', h'⟩ := bind_eq_ok_iff.mp h'
      cases h
      cases h'
      obtain ⟨u, hu, rfl⟩ := List.mem_map.mp (mem_of_loneVariant? hl')
      obtain ⟨q, m, hm, hread⟩ := mem_of_readVariants hnodes hu
      obtain ⟨m', hread', ha⟩ := hv u hu _ _ hread follow' _
      cases hinner'.symm.trans hread'
      intro hal
      exact not_alike_collapsed hm ha.symm hal.symm

/-- An accepted document is read like the one in which references are replaced if every union met
singles out the same variant in both. A union that singles one out on one side only, although its
variants are read alike, is itself read differently. -/
theorem readDocument_inlineDocument (document : Value) (node : Node)
    (h : readDocument document = .ok node) :
    ((∀ busy entries, Met (definitionsOf document) [] document busy (.record entries) →
        Agrees (resolved (definitionsOf document) busy) entries) →
      ∃ node', readDocument (inlineDocument document) = .ok node' ∧ Alike node node') ∧
    ∀ busy entries keyword variants,
      Met (definitionsOf document) [] document busy (.record entries) →
      formOf entries = .union keyword (.list variants) →
      (∀ v ∈ variants, ReadsAs (expand (definitionsOf document) busy) v
        (inline (resolved (definitionsOf document) busy) v)) →
      (loneVariant? variants).isSome ≠
        (loneVariant? (variants.map (inline (resolved (definitionsOf document) busy)))).isSome →
      ¬ ReadsAs (expand (definitionsOf document) busy) (.record entries)
        (inline (resolved (definitionsOf document) busy) (.record entries)) := by
  constructor
  · intro agree
    exact readsAs_inline_resolved _ _ document agree _ node h _ _
  · intro busy entries keyword variants hm hf hv hd hr
    obtain ⟨q, n, hn⟩ := hm.accepted h
    obtain ⟨n', hn', ha⟩ := hr q n hn (expand (definitionsOf document) busy) q
    exact not_alike_of_lone hf hv hd hn hn' ha

def nullByReference : Value :=
  .record [("definitions", .record [("N", .record [("type", .text "null")])]),
    ("oneOf", .list [.record [("type", .text "string")], .record [("$ref", .text "#/definitions/N")]])]

theorem resolved_nullByReference : resolved (definitionsOf nullByReference) [] "#/definitions/N" =
    some (.record [("type", .text "null")]) :=
  resolved_eq (.record [("type", .text "null")]) (by decide +kernel) rfl (by simp)

theorem inline_nullByReference :
    inline (resolved (definitionsOf nullByReference) []) (.record [("$ref", .text "#/definitions/N")]) =
      .record [("type", .text "null")] :=
  inline_reference _ rfl resolved_nullByReference

theorem readDocument_nullByReference : readDocument nullByReference =
    .ok (.union { path := .text "#" } [.string { path := .text "#/oneOf/0" },
      .any { path := .text "#/definitions/N" }]) := by
  have hs : "#/definitions/N".startsWith "#" = true := by decide +kernel
  have hl : lastSegment "#/definitions/N" = "N" := by decide
  simp [readDocument, nullByReference, definitionsOf, definitions, Value.orElse, Value.truthy,
    readSchema_record, formOf, valueAt?, entryOrNull, statedTypes, bodyOf, readUnion_list, loneVariant?,
    isNullVariant, readVariants, readBody, textNode, Value.isKey, readReference, expand_eq, hs, hl,
    lookup, annotate, overlay, overlayTexts, marked, Node.mapNotes]
  decide

theorem readsAs_nullByReference (v : Value)
    (hv : v ∈ [Value.record [("type", .text "string")], .record [("$ref", .text "#/definitions/N")]]) :
    ReadsAs (expand (definitionsOf nullByReference) []) v
      (inline (resolved (definitionsOf nullByReference) []) v) := by
  apply readsAs_inline_resolved
  intro busy entries hm keyword variants hf
  simp only [List.mem_cons, List.not_mem_nil, or_false] at hv
  rcases hv with rfl | rfl
  · cases hm with
    | self => cases hf
    | part hu => cases hu
    | definition hr => cases hr
  · cases hm with
    | self => cases hf
    | part hu => cases hu
    | definition hr hs hl hb hm =>
      cases hr
      cases hl
      cases hm with
      | self => cases hf
      | part hu => cases hu
      | definition hr => cases hr

theorem nullByReference_read_otherwise : ∃ node node', readDocument nullByReference = .ok node ∧
    readDocument (inlineDocument nullByReference) = .ok node' ∧ ¬ Alike node node' := by
  have hi : inlineDocument nullByReference = .record
      [("definitions", .record [("N", .record [("type", .text "null")])]),
        ("oneOf", .list [.record [("type", .text "string")], .record [("type", .text "null")]])] := by
    unfold inlineDocument
    change Value.record [_, (_, Value.list (inlineAll _ _))] = _
    rw [inlineAll, inlineAll, inlineAll, inline_nullByReference]
    rfl
  have hr : readDocument (inlineDocument nullByReference) =
      .ok (.string { nullable := .bool true, path := .text "#/oneOf/0" }) := by
    rw [hi]
    simp [readDocument, readSchema_record, formOf, valueAt?, entryOrNull, statedTypes, bodyOf,
      readUnion_list, loneVariant?, isNullVariant, readBody, textNode, Value.isKey, annotate,
      overlayTexts, marked, Node.asNullable, Node.mapNotes, Value.truthy]
    decide
  refine ⟨_, _, readDocument_nullByReference, hr, ?_⟩
  intro h
  cases h

def nullableReference : Value :=
  .record [("definitions", .record [("A", .record [("type", .text "string")])]),
    ("oneOf", .list [.record [("$ref", .text "#/definitions/A")], .record [("type", .text "null")]])]

theorem readDocument_nullableReference : readDocument nullableReference =
    .ok (.string { nullable := .bool true, path := .text "#/definitions/A" }) := by
  have hs : "#/definitions/A".startsWith "#" = true := by decide +kernel
  have hl : lastSegment "#/definitions/A" = "A" := by decide
  simp [readDocument, nullableReference, definitionsOf, definitions, Value.orElse, Value.truthy,
    readSchema_record, formOf, valueAt?, entryOrNull, statedTypes, bodyOf, readUnion_list, loneVariant?,
    isNullVariant, readBody, textNode, Value.isKey, readReference, expand_eq, hs, hl, lookup, annotate,
    overlay, overlayTexts, marked, Node.asNullable, Node.mapNotes]

theorem agrees_nullableReference (busy : List String) (entries : Entries)
    (hm : Met (definitionsOf nullableReference) [] nullableReference busy (.record entries)) :
    Agrees (resolved (definitionsOf nullableReference) busy) entries := by
  have ha : inline (resolved (definitionsOf nullableReference) [])
      (.record [("$ref", .text "#/definitions/A")]) = .record [("type", .text "string")] :=
    inline_reference _ rfl
      (resolved_eq (.record [("type", .text "string")]) (by decide +kernel) rfl (by simp))
  intro keyword variants hf
  cases hm with
  | self =>
    cases hf
    change loneVariant? [inline _ _, _] =
      some (inline _ (.record [("$ref", .text "#/definitions/A")]))
    rw [ha]
    rfl
  | part hu hm =>
    rcases List.mem_singleton.mp hu with rfl
    cases hm with
    | self => cases hf
    | part hu => cases hu
    | definition hr hs hl hb hm =>
      cases hr
      cases hl
      cases hm with
      | self => cases hf
      | part hu => cases hu
      | definition hr => cases hr
  | definition hr => cases hr

theorem readDocument_inlineDocument_both :
    (∃ node', readDocument (inlineDocument nullableReference) = .ok node' ∧
      Alike (.string { nullable := .bool true, path := .text "#/definitions/A" }) node') ∧
    ¬ ReadsAs (expand (definitionsOf nullByReference) []) nullByReference
      (inline (resolved (definitionsOf nullByReference) []) nullByReference) := by
  constructor
  · exact (readDocument_inlineDocument nullableReference _ readDocument_nullableReference).1
      agrees_nullableReference
  · refine (readDocument_inlineDocument nullByReference _ readDocument_nullByReference).2 [] _ "oneOf" _
      (.self _ _) rfl readsAs_nullByReference ?_
    rw [List.map_cons, List.map_cons, inline_nullByReference]
    decide

end SchemaCompiler.Schema
