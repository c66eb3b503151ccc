import SchemaCompiler.Schema.Document

namespace SchemaCompiler

def Annotations.withoutPath (a : Annotations) : Annotations := { a with path := .null }

namespace Node

mutual

def withoutPaths : Node → Node
  | .object a shape => .object a.withoutPath (shapeWithoutPaths shape)
  | .array a item => .array a.withoutPath (withoutPaths item)
  | .boolean a => .boolean a.withoutPath
  | .string a => .string a.withoutPath
  | .number a isInteger => .number a.withoutPath isInteger
  | .enum a values => .enum a.withoutPath values
  | .optional a inner => .optional a.withoutPath (withoutPaths inner)
  | .union a variants => .union a.withoutPath (listWithoutPaths variants)
  | .literal a value => .literal a.withoutPath value
  | .date a => .date a.withoutPath
  | .any a => .any a.withoutPath
  | .plain v => .plain v

def listWithoutPaths : List Node → List Node
  | [] => []
  | n :: rest => withoutPaths n :: listWithoutPaths rest

def shapeWithoutPaths : List (Value × Node) → List (Value × Node)
  | [] => []
  | (key, n) :: rest => (key, withoutPaths n) :: shapeWithoutPaths rest

end

theorem mem_listWithoutPaths {n : Node} {nodes : List Node} (h : n ∈ nodes) :
    n.withoutPaths ∈ listWithoutPaths nodes := by
  induction nodes with
  | nil => cases h
  | cons m rest ih =>
    rw [listWithoutPaths]
    rcases List.mem_cons.mp h with rfl | h
    · exact List.mem_cons_self
    · exact List.mem_cons_of_mem _ (ih h)

def Alike (n m : Node) : Prop := n.withoutPaths = m.withoutPaths

theorem withoutPaths_mapNotes {f : Annotations → Annotations}
    (hf : ∀ a, (f a).withoutPath = (f a.withoutPath).withoutPath) (n : Node) :
    (n.mapNotes f).withoutPaths = n.withoutPaths.mapNotes fun a => (f a).withoutPath := by
  cases n with
  | plain v => rfl
  | _ a => simp only [mapNotes, withoutPaths, hf a]

theorem Alike.mapNotes {n m : Node} (h : Alike n m) {f g : Annotations → Annotations}
    (hf : ∀ a, (f a).withoutPath = (f a.withoutPath).withoutPath)
    (hg : ∀ a, (g a).withoutPath = (g a.withoutPath).withoutPath)
    (hfg : ∀ a, (f a).withoutPath = (g a).withoutPath) :
    Alike (n.mapNotes f) (m.mapNotes g) := by
  unfold Alike at h ⊢
  rw [withoutPaths_mapNotes hf, withoutPaths_mapNotes hg, h]
  congr 1
  funext a
  exact hfg a

theorem Alike.asNullable {n m : Node} (h : Alike n m) : Alike n.asNullable m.asNullable :=
  h.mapNotes (fun _ => rfl) (fun _ => rfl) fun _ => rfl

theorem not_alike_union {n m : Node} {a : Annotations} {variants : List Node}
    {f g : Annotations → Annotations} (hf : ∀ a, (f a).withoutPath = (f a.withoutPath).withoutPath)
    (hm : m ∈ variants) (h : Alike n m) :
    ¬ Alike (n.mapNotes f) ((Node.union a variants).mapNotes g) := by
  intro hu
  unfold Alike at h hu
  have hmem : n.withoutPaths ∈ listWithoutPaths variants := h ▸ mem_listWithoutPaths hm
  rw [withoutPaths_mapNotes hf, Node.mapNotes, withoutPaths] at hu
  cases hn : n.withoutPaths with
  | union b nodes =>
    rw [hn] at hu hmem
    simp only [Node.mapNotes, Node.union.injEq] at hu
    have hlt := List.sizeOf_lt_of_mem hmem
    rw [← hu.2, Node.union.sizeOf_spec] at hlt
    omega
  | _ =>
    rw [hn] at hu
    cases hu

end Node

namespace Schema

open Node (Alike)

variable (entries : Entries) {node node' : Node}

theorem alike_annotate (h : Alike node node') (path elsewhere : String) :
    Alike (annotate entries path node) (annotate entries elsewhere node') :=
  h.mapNotes (fun _ => rfl) (fun _ => rfl) fun _ => rfl

theorem alike_overlayTexts (h : Alike node node') :
    Alike (overlayTexts entries node) (overlayTexts entries node') :=
  h.mapNotes (fun _ => rfl) (fun _ => rfl) fun _ => rfl

theorem alike_overlay (h : Alike node node') : Alike (overlay entries node) (overlay entries node') :=
  (alike_overlayTexts entries h).mapNotes (fun _ => rfl) (fun _ => rfl) fun _ => rfl

end Schema

end SchemaCompiler
