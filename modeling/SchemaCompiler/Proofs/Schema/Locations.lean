import SchemaCompiler.Proofs.Schema.Failing
import SchemaCompiler.Proofs.Schema.Nullable
import SchemaCompiler.Proofs.Schema.ParserState
import SchemaCompiler.Proofs.Schema.Pointers

namespace SchemaCompiler

namespace Node

def children : Node → List Node
  | .object _ shape => shape.map (·.2)
  | .array _ item => [item]
  | .optional _ inner => [inner]
  | .union _ variants => variants
  | _ => []

inductive Within : Node → Node → Prop where
  | refl (n : Node) : Within n n
  | child {n c tree : Node} : c ∈ tree.children → Within n c → Within n tree

def path? (n : Node) : Option Value := n.notes?.map Annotations.path

theorem children_mapNotes (f : Annotations → Annotations) (n : Node) :
    (n.mapNotes f).children = n.children := by
  cases n <;> rfl

theorem path?_mapNotes {f : Annotations → Annotations} (hf : ∀ a, (f a).path = a.path) (n : Node) :
    (n.mapNotes f).path? = n.path? := by
  rw [path?, notes?_mapNotes, Option.map_map]
  exact congrArg (n.notes?.map ·) (funext hf)

end Node

namespace Schema

open Outcome
open Node (Within)
open Value (valueAt? entryOrNull)

/-- The node is what reading the schema at the path gives, annotations other than the path aside, or the
wrapper around that. -/
inductive ReadFrom (follow : Follow (Except Failure)) (x : Value) (path : String) : Node → Prop where
  | node {node : Node} {f : Annotations → Annotations} : readSchema follow x path = .ok node →
      (∀ a, (f a).path = a.path) → ReadFrom follow x path (node.mapNotes f)
  | wrapper {node : Node} : readSchema follow x path = .ok node →
      ReadFrom follow x path (.optional { path := .text path } node)

/-- The node has the path that is written down on a way to the schema that it was read from. What fills
an array whose items are left open was read from none. -/
inductive Located (follow : Follow (Except Failure)) (path : String) (v : Value) : Node → Prop where
  | read {way : List Descent} {x : Value} {node : Node} : Leads v way x →
      ReadFrom follow x (onward path (writtenOf way)) node →
      node.path? = some (.text (onward path (writtenOf way))) → Located follow path v node
  | filler {way : List Descent} {entries : Entries} {nullable : Bool} : Leads v way (.record entries) →
      formOf entries = .body .array nullable → entryOrNull "items" entries = .null →
      Located follow path v (.any { path := .text (onward path (writtenOf way ++ ["items"])) })

/-- The path is written down on a way to the schema at fault. Where the variants of a union are no list,
what is at fault is the first thing that they run through, and the path is that of a first variant. -/
inductive Reported (path : String) (v : Value) : String → DocumentFault → Prop where
  | schema {way : List Descent} {x : Value} {fault : DocumentFault} : Leads v way x → Faulty x fault →
      Reported path v (onward path (writtenOf way)) fault
  | variants {way : List Descent} {entries : Entries} {keyword : String} {variants first : Value}
      {more : List Value} : Leads v way (.record entries) → formOf entries = .union keyword variants →
      (∀ items, variants ≠ .list items) → variants.elements? = some (first :: more) →
      Reported path v (onward path (writtenOf way ++ [keyword, "0"])) (.notObject first.formName)

section Steps

variable (follow : Follow (Except Failure)) (entries : Entries) (path : String)

inductive Child : Node → Prop where
  | read {d : Descent} {u : Value} {node : Node} : Beneath entries d u →
      readSchema follow u (d.below path) = .ok node → Child node
  | wrapper {d : Descent} {u : Value} {node : Node} : Beneath entries d u →
      readSchema follow u (d.below path) = .ok node →
      Child (.optional { path := .text (d.below path) } node)
  | filler {nullable : Bool} : formOf entries = .body .array nullable →
      entryOrNull "items" entries = .null → Child (.any { path := .text (Descent.items.below path) })

inductive Built : Node → Prop where
  | whole {node : Node} : node.path? = some (.text path) →
      (∀ c ∈ node.children, Child follow entries path c) → Built node
  | lone {keyword : String} {index : Nat} {u : Value} {node : Node} {f : Annotations → Annotations} :
      Beneath entries (.lone keyword index) u →
      readSchema follow u ((Descent.lone keyword index).below path) = .ok node →
      (∀ a, (f a).path = a.path) → Built (node.mapNotes f)

end Steps

section Reading

variable {follow : Follow (Except Failure)} {entries : Entries} {path : String}

theorem readVariants_each {place : String} {index : Nat} {variants : List Value} {nodes : List Node}
    (h : readVariants follow place index variants = .ok nodes) {node : Node} (hn : node ∈ nodes) :
    ∃ (i : Nat) (u : Value), variants[i]? = some u ∧ readSchema follow u s!"{place}/{index + i}" = .ok node := by
  induction variants generalizing index nodes with
  | nil =>
    rw [readVariants] at h
    cases h
    cases hn
  | cons v rest ih =>
    rw [readVariants] at h
    obtain ⟨first, hfirst, h⟩ := bind_eq_ok_iff.mp h
    obtain ⟨others, hothers, h⟩ := bind_eq_ok_iff.mp h
    cases h
    rcases List.mem_cons.mp hn with rfl | hn
    · exact ⟨0, v, rfl, hfirst⟩
    · obtain ⟨i, u, hu, hread⟩ := ih hothers hn
      refine ⟨i + 1, u, hu, ?_⟩
      rw [Nat.add_comm i, ← Nat.add_assoc]
      exact hread

theorem readProperties_each {required : List String} {path : String} {properties : Entries}
    {shape : List (Value × Node)} (h : readProperties follow required path properties = .ok shape)
    {field : Value × Node} (hf : field ∈ shape) :
    ∃ name u node, (name, u) ∈ properties ∧ readSchema follow u s!"{path}/properties/{name}" = .ok node ∧
      (field.2 = node ∨ field.2 = .optional { path := .text s!"{path}/properties/{name}" } node) := by
  induction properties generalizing shape with
  | nil =>
    rw [readProperties] at h
    cases h
    cases hf
  | cons entry rest ih =>
    obtain ⟨name, u⟩ := entry
    rw [readProperties] at h
    obtain ⟨node, hnode, h⟩ := bind_eq_ok_iff.mp h
    obtain ⟨others, hothers, h⟩ := bind_eq_ok_iff.mp h
    cases h
    rcases List.mem_cons.mp hf with rfl | hf
    · refine ⟨name, u, node, List.mem_cons_self, hnode, ?_⟩
      dsimp only
      split
      · exact .inl rfl
      · exact .inr rfl
    · obtain ⟨other, w, m, hmem, hread⟩ := ih hothers hf
      exact ⟨other, w, m, List.mem_cons_of_mem _ hmem, hread⟩

theorem path?_annotate {node : Node} {a : Annotations} (h : node.notes? = some a) :
    (annotate entries path node).path? = some (.text path) := by
  rw [annotate, Node.path?, Node.notes?_mapNotes, h]
  rfl

theorem Built.mapNotes {f : Annotations → Annotations} (hf : ∀ a, (f a).path = a.path) {node : Node}
    (h : Built follow entries path node) : Built follow entries path (node.mapNotes f) := by
  cases h with
  | whole hpath hchildren =>
    refine .whole ((Node.path?_mapNotes hf node).trans hpath) ?_
    rw [Node.children_mapNotes]
    exact hchildren
  | lone hb hread hg =>
    rw [Node.mapNotes_mapNotes]
    exact .lone hb hread fun a => (hf _).trans (hg a)

theorem readBody_built {body : Body} {nullable : Bool} {node : Node}
    (hf : formOf entries = .body body nullable)
    (h : readBody follow entries path body = .ok node) :
    node.notes? = some {} ∧ ∀ c ∈ node.children, Child follow entries path c := by
  cases body with
  | object =>
    rw [readBody_object, ofExcept_eq] at h
    obtain ⟨required, -, h⟩ := bind_eq_ok_iff.mp h
    split at h
    · cases h
      exact ⟨rfl, List.forall_mem_nil _⟩
    · rename_i properties hp
      obtain ⟨shape, hshape, h⟩ := bind_eq_ok_iff.mp h
      cases h
      refine ⟨rfl, fun c hc => ?_⟩
      obtain ⟨field, hfield, rfl⟩ := List.mem_map.mp hc
      obtain ⟨name, u, m, hmem, hread, hfield⟩ := readProperties_each hshape hfield
      rw [below_property] at hread hfield
      have hbeneath : Beneath entries (.property name) u := .property hf hp hmem
      rcases hfield with heq | heq
      · rw [heq]
        exact .read hbeneath hread
      · rw [heq]
        exact .wrapper hbeneath hread
    · cases h
  | array =>
    rw [readBody_array, below_items] at h
    split at h
    · rename_i hi
      cases h
      exact ⟨rfl, List.forall_mem_singleton.mpr (.filler hf (by rw [entryOrNull, hi]; rfl))⟩
    · rename_i hi
      cases h
      exact ⟨rfl, List.forall_mem_singleton.mpr (.filler hf (by rw [entryOrNull, hi]; rfl))⟩
    · cases h
    · rename_i items hnull hlist hi
      obtain ⟨item, hitem, h⟩ := bind_eq_ok_iff.mp h
      cases h
      exact ⟨rfl, List.forall_mem_singleton.mpr (.read (.items hf hi hnull hlist) hitem)⟩
  | text =>
    rw [readBody, ofExcept_eq] at h
    unfold textNode at h
    split at h
    · cases h
    · split at h
      · split at h <;> cases h <;> exact ⟨rfl, List.forall_mem_nil _⟩
      · cases h
        exact ⟨rfl, List.forall_mem_nil _⟩
  | number isInteger =>
    rw [readBody] at h
    cases h
    exact ⟨rfl, List.forall_mem_nil _⟩
  | boolean =>
    rw [readBody] at h
    cases h
    exact ⟨rfl, List.forall_mem_nil _⟩
  | any =>
    rw [readBody] at h
    cases h
    exact ⟨rfl, List.forall_mem_nil _⟩

theorem readUnion_built {keyword : String} {variants : Value} {node : Node}
    (hf : formOf entries = .union keyword variants)
    (h : readUnion follow entries path s!"{path}/{keyword}" variants = .ok node) :
    Built follow entries path node := by
  cases variants with
  | list variants =>
    rw [readUnion_list] at h
    split at h
    · rename_i u hl
      obtain ⟨m, hm, h⟩ := bind_eq_ok_iff.mp h
      cases h
      obtain ⟨index, hindex⟩ := List.mem_iff_getElem?.mp (mem_of_loneVariant? hl)
      rw [below_lone rfl index] at hm
      rw [overlayTexts, Node.asNullable, Node.mapNotes_mapNotes]
      exact .lone (.lone hf hl hindex) hm fun _ => rfl
    · rename_i hl
      obtain ⟨nodes, hnodes, h⟩ := bind_eq_ok_iff.mp h
      cases h
      refine .whole (path?_annotate rfl) fun c hc => ?_
      rw [annotate, Node.children_mapNotes] at hc
      obtain ⟨i, u, hu, hread⟩ := readVariants_each hnodes hc
      rw [Nat.zero_add, below_variant rfl] at hread
      exact .read (.variant hf hl hu) hread
  | _ =>
    rw [readUnion_of_not_list _ _ _ _ (by simp), ofExcept_eq] at h
    obtain ⟨nodes, hnodes, h⟩ := bind_eq_ok_iff.mp h
    obtain ⟨-, rfl⟩ := readForeign_ok hnodes
    cases h
    exact .whole (path?_annotate rfl) (List.forall_mem_nil _)

theorem readSchema_built (hr : valueAt? "$ref" entries = none) {node : Node}
    (h : readSchema follow (.record entries) path = .ok node) :
    Built follow entries path node := by
  rw [readSchema_record] at h
  split at h
  · rename_i target hf
    cases hr.symm.trans (valueAt?_of_formOf_reference hf)
  · cases h
    exact .whole (path?_annotate rfl) (List.forall_mem_nil _)
  · exact readUnion_built ‹_› h
  · rename_i values hf
    obtain ⟨m, hm, h⟩ := bind_eq_ok_iff.mp h
    rw [ofExcept_eq] at hm
    unfold enumNode at hm
    split at hm <;> cases hm
    cases h
    exact .whole (path?_annotate rfl) (List.forall_mem_nil _)
  · cases h
  · rename_i body nullable hf
    obtain ⟨m, hm, h⟩ := bind_eq_ok_iff.mp h
    obtain ⟨hnotes, hchildren⟩ := readBody_built hf hm
    have hsame : (annotate entries path m).children = m.children := Node.children_mapNotes _ m
    have hwhole : Built follow entries path (annotate entries path m) :=
      .whole (path?_annotate hnotes) (hsame ▸ hchildren)
    have hkeeps (a : Annotations) : ({ a with nullable := .bool true } : Annotations).path = a.path := rfl
    cases nullable <;> cases h
    · exact hwhole
    · exact hwhole.mapNotes hkeeps

end Reading

section Documents

variable {follow : Follow (Except Failure)} {path : String} {v : Value}

theorem onward_writtenOf (path : String) (d : Descent) (way : List Descent) :
    onward (d.below path) (writtenOf way) = onward path (writtenOf (d :: way)) :=
  (onward_append path d.written (writtenOf way)).symm

theorem onward_writtenOf_append (path : String) (d : Descent) (way : List Descent) (more : List String) :
    onward (d.below path) (writtenOf way ++ more) = onward path (writtenOf (d :: way) ++ more) := by
  rw [onward_append, onward_append, onward_writtenOf]

theorem onward_nil (path : String) : onward path [] = path := String.append_empty

theorem Located.down {entries : Entries} {d : Descent} {u : Value} {node : Node} (hb : Beneath entries d u)
    (h : Located follow (d.below path) u node) : Located follow path (.record entries) node := by
  cases h with
  | read hl hread hpath =>
    rw [onward_writtenOf] at hread hpath
    exact .read (.down hb hl) hread hpath
  | filler hl hf hi =>
    rw [onward_writtenOf_append]
    exact .filler (.down hb hl) hf hi

theorem Reported.down {entries : Entries} {d : Descent} {u : Value} {place : String} {fault : DocumentFault}
    (hb : Beneath entries d u) (h : Reported (d.below path) u place fault) :
    Reported path (.record entries) place fault := by
  cases h with
  | schema hl hfault =>
    rw [onward_writtenOf]
    exact .schema (.down hb hl) hfault
  | variants hl hf hno helements =>
    rw [onward_writtenOf_append]
    exact .variants (.down hb hl) hf hno helements

theorem Reported.here {fault : DocumentFault} (h : Faulty v fault) : Reported path v path fault := by
  have hown := @Reported.schema path v [] v fault (.here v) h
  rwa [writtenOf, List.flatMap_nil, onward_nil] at hown

theorem readSchema_root (ha : Addressable v) {tree : Node} (h : readSchema follow v path = .ok tree) :
    ∃ way x node, ∃ f : Annotations → Annotations, Leads v way x ∧
      readSchema follow x (onward path (writtenOf way)) = .ok node ∧ (∀ a, (f a).path = a.path) ∧
      tree = node.mapNotes f ∧ node.path? = some (.text (onward path (writtenOf way))) := by
  induction v using parts_induction generalizing path tree with
  | other v hno =>
    obtain ⟨entries, rfl⟩ := record_of_readSchema h
    exact absurd rfl (hno entries)
  | record entries ih =>
    cases readSchema_built (ha.unreferring entries (.refl _)) h with
    | whole hpath hchildren =>
      rw [← onward_nil path] at h hpath
      exact ⟨[], _, tree, id, .here _, h, fun _ => rfl, by cases tree <;> rfl, hpath⟩
    | @lone keyword index u m g hb hm hg =>
      obtain ⟨way, x, node, f, hl, hread, hf, rfl, hpath⟩ := ih u hb.mem_parts (ha.part hb.mem_parts) hm
      rw [onward_writtenOf] at hread hpath
      exact ⟨.lone keyword index :: way, x, node, g ∘ f, .down hb hl, hread,
        fun a => (hg (f a)).trans (hf a), Node.mapNotes_mapNotes f g node, hpath⟩

theorem readSchema_located (ha : Addressable v) {tree node : Node}
    (h : readSchema follow v path = .ok tree) (hn : Within node tree) : Located follow path v node := by
  induction v using parts_induction generalizing path tree with
  | other v hno =>
    obtain ⟨entries, rfl⟩ := record_of_readSchema h
    exact absurd rfl (hno entries)
  | record entries ih =>
    have hbeneath {d : Descent} {u : Value} {m : Node} (hb : Beneath entries d u)
        (hm : readSchema follow u (d.below path) = .ok m) (hw : Within node m) :
        Located follow path (.record entries) node :=
      (ih u hb.mem_parts (ha.part hb.mem_parts) hm hw).down hb
    cases hn with
    | refl =>
      -- Past a union the root has the path of a variant, and other notes than that was read with.
      obtain ⟨way, x, m, f, hl, hread, hf, rfl, hpath⟩ := readSchema_root ha h
      exact .read hl (.node hread hf) ((Node.path?_mapNotes hf m).trans hpath)
    | child hc hw =>
      cases readSchema_built (ha.unreferring entries (.refl _)) h with
      | whole hpath hchildren =>
        cases hchildren _ hc with
        | read hb hm => exact hbeneath hb hm hw
        | @wrapper d u m hb hm =>
          cases hw with
          | refl =>
            rw [← onward_nil (d.below path)] at hm ⊢
            exact Located.down hb (.read (.here u) (.wrapper hm) rfl)
          | child hc hw =>
            rw [List.mem_singleton.mp hc] at hw
            exact hbeneath hb hm hw
        | filler hf hi =>
          cases hw with
          | refl => exact .filler (.here _) hf hi
          | child hc => cases hc
      | lone hb hm hf =>
        rw [Node.children_mapNotes] at hc
        exact hbeneath hb hm (.child hc hw)

theorem readSchema_reported (ha : Addressable v) {place : String} {fault : DocumentFault}
    (h : readSchema follow v path = .error (.document place fault)) : Reported path v place fault := by
  induction v using parts_induction generalizing path with
  | other v hno =>
    rw [readSchema_of_not_record _ hno] at h
    cases h
    exact .here (.notObject hno)
  | record entries ih =>
    cases readSchema_fails h with
    | reference hf => cases (ha.unreferring entries (.refl _)).symm.trans (valueAt?_of_formOf_reference hf)
    | fault hfault => exact .here hfault
    | variants hf hno helements => exact .variants (.here _) hf hno helements
    | part _ _ _ hb hu => exact (ih _ hb.mem_parts (ha.part hb.mem_parts) hu).down hb

/-- The nodes of a parsed document have the paths that are written down on the ways to the schemas that
they were read from, and a fault that of the way to the schema at fault. A way leads to its schema by what
is written down exactly if it is not displaced. -/
theorem paths_located {document : Value} (ha : Addressable document) (p : Parser) :
    (∀ tree p', Parser.parse document p = .ok tree p' → ∀ node, Within node tree →
      Located (expand (definitionsOf document) []) "#" document node) ∧
    (∀ path fault p', Parser.parse document p = .error (.document path fault) p' →
      Reported "#" document path fault) ∧
    ∀ way x, Leads document way x → target? (pathTo (placeOf way)) document = some x ∧
      (pathTo (writtenOf way) = pathTo (placeOf way) ↔ ¬ Displaced way) := by
  rw [parse_eq]
  refine ⟨fun tree p' h node hn => ?_, fun path fault p' h => ?_, fun way x hl => hl.target? ha⟩
  · cases hd : readDocument document with
    | ok m =>
      rw [hd] at h
      cases h
      exact readSchema_located ha hd hn
    | error e =>
      rw [hd] at h
      cases h
  · cases hd : readDocument document with
    | ok m =>
      rw [hd] at h
      cases h
    | error e =>
      rw [hd] at h
      cases h
      exact readSchema_reported ha hd

end Documents

def nullFirst : Entries := [("oneOf", .list [nullSchema, textSchema])]

theorem addressable_nullFirst : Addressable (.record nullFirst) := by
  have hunder {entries : Entries} (h : Under (.record entries) (.record nullFirst)) :
      valueAt? "$ref" entries = none ∧ valueAt? "properties" entries = none := by
    generalize hx : Value.record entries = x at h
    cases h with
    | refl =>
      cases hx
      exact ⟨rfl, rfl⟩
    | part hu h =>
      rw [List.mem_singleton.mp hu] at h
      cases h with
      | refl =>
        cases hx
        exact ⟨rfl, rfl⟩
      | part hu => cases hu
  constructor
  · exact fun entries h => (hunder h).1
  · intro entries h properties hp
    cases (hunder h).2.symm.trans hp
  · intro entries h properties hp
    cases (hunder h).2.symm.trans hp

theorem parse_nullFirst (p : Parser) : Parser.parse (.record nullFirst) p =
    .ok (.string { nullable := .bool true, path := .text "#/oneOf/0" }) (p.start (.record nullFirst)) := by
  have hf : formOf nullFirst = .union "oneOf" (.list [nullSchema, textSchema]) := rfl
  have hl : loneVariant? [nullSchema, textSchema] = some textSchema := by decide
  rw [parse_eq, readDocument, readSchema_union_list hf, hl]
  dsimp only
  rw [readSchema_textSchema]
  rfl

theorem paths_located_nullFirst : Addressable (.record nullFirst) ∧
    Located (expand (definitionsOf (.record nullFirst)) []) "#" (.record nullFirst)
      (.string { nullable := .bool true, path := .text "#/oneOf/0" }) ∧
    target? "#/oneOf/1" (.record nullFirst) = some textSchema ∧ "#/oneOf/0" ≠ "#/oneOf/1" := by
  obtain ⟨hnodes, -, hways⟩ := paths_located addressable_nullFirst {}
  have hf : formOf nullFirst = .union "oneOf" (.list [nullSchema, textSchema]) := rfl
  have hway : Leads (.record nullFirst) [.lone "oneOf" 1] textSchema :=
    .down (.lone hf (by decide) rfl) (.here _)
  obtain ⟨htarget, hwritten⟩ := hways _ _ hway
  refine ⟨addressable_nullFirst, hnodes _ _ (parse_nullFirst {}) _ (.refl _), htarget, ?_⟩
  exact fun h => hwritten.mp h ⟨"oneOf", by simp⟩

theorem nullFirst_mislocated : ¬ ∀ document, Addressable document → ∀ p tree p',
    Parser.parse document p = .ok tree p' → ∀ node, Within node tree → node.kind? ≠ some .any →
      ∃ path x, node.path? = some (.text path) ∧ target? path document = some x ∧
        ReadFrom (expand (definitionsOf document) []) x path node := by
  intro h
  obtain ⟨path, x, hpath, htarget, hread⟩ :=
    h _ addressable_nullFirst {} _ _ (parse_nullFirst {}) _ (.refl _) (by decide)
  cases hpath
  have hnull : target? "#/oneOf/0" (.record nullFirst) = some nullSchema := by decide +kernel
  cases hnull.symm.trans htarget
  generalize hn : Node.string _ = node at hread
  cases hread with
  | node hm =>
    rw [nullSchema, readSchema_record] at hm
    change (readBody _ _ _ .any >>= _) = _ at hm
    rw [readBody] at hm
    cases hm
    cases hn
  | wrapper => cases hn

end Schema

end SchemaCompiler
