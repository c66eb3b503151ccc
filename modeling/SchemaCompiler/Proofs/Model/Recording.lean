import SchemaCompiler.Proofs.Model.FieldChecks
import SchemaCompiler.Proofs.View

namespace SchemaCompiler

open Work Node

variable {registry : Key} {u v w : Workspace}

def Workspace.madeOf (w : Workspace) (c : ClassHandle) : Option Node := (w.whole? c).bind (·.source)

inductive LeafNamed (w : Workspace) (registry : Key) (t : Title) (key : Value) : Node → OutputType → Prop
  | boolean {a : Annotations} : LeafNamed w registry t key (.boolean a) (.scalar .boolean)
  | string {a : Annotations} : LeafNamed w registry t key (.string a) (.scalar .string)
  | number {a : Annotations} {isInteger : Value} : LeafNamed w registry t key (.number a isInteger)
      (.scalar (if isInteger.truthy then .int else .float))
  | enum {a : Annotations} {values : Value} {e : EnumType} (named : e.name = t.enumName key)
    (held : (w.registries registry).get? (.text e.name) = some (.enum e)) :
    LeafNamed w registry t key (.enum a values) (.enum e)
  | object {a : Annotations} {shape : List (Value × Node)} {c : ClassHandle}
    (named : c.name = (t.nested key a.description).name)
    (held : (w.registries registry).get? (.text c.name) = some (.object c))
    (made : w.madeOf c = shownSource a shape) :
    LeafNamed w registry t key (.object a shape) (.object c)

structure FieldNamed (w : Workspace) (registry : Key) (t : Title) (f : Value × Node)
    (d : CompiledField) : Prop where
  key : d.key = f.1
  attr : d.slot.attr = f.1
  description : f.2.fieldDescription = .ok d.description
  type : LeafNamed w registry t f.1 f.2.leaf d.type.leaf

inductive Recorded (w : Workspace) (registry : Key) : Definition → Registry.Entry → Prop
  | model {t : Title} {a : Annotations} {shape : List (Value × Node)} {c : ClassHandle}
    {fields : List CompiledField} {description : Value} (named : c.name = t.name)
    (described : description = a.description ∨ ∃ s, description = .text s)
    (made : w.class? c = some (classOf t.name description (.object a shape) fields))
    (fields : List.Forall₂ (FieldNamed w registry t) shape fields) :
    Recorded w registry (.model t a shape) ⟨.text c.name, .object c, description⟩
  | enum {t : Title} {key : Value} {a : Annotations} {values : Value} {e : EnumType}
    (named : e.name = t.enumName key) (members : e.members = Definition.members values)
    (described : e.description = a.description) :
    Recorded w registry (.enum t key a values) ⟨.text e.name, .enum e, e.description⟩

def Made (w : Workspace) (registry : Key) (d : Definition) (c : ClassHandle) : Prop :=
  ∃ entry, (w.registries registry).named? (.text c.name) = some entry ∧ entry.type = .object c ∧
    Recorded w registry d entry

structure Standing (registry : Key) (w : Workspace) : Prop where
  coherent : Coherent w
  named : ∀ entry ∈ (w.registries registry).entries, entry.name = .text entry.type.name
  enums : ∀ entry ∈ (w.registries registry).entries, ∀ e, entry.type = .enum e →
    EnumType.hasReserved e.members = false ∧ (e.members.map (·.1)).Nodup
  models : ∀ entry ∈ (w.registries registry).entries, ∀ c a shape, entry.type = .object c →
    w.madeOf c = some (.object a shape) → hidesSource shape = false ∧ Passes shape

structure Adds (registry : Key) (defs : List Definition) (w w' : Workspace) : Prop where
  standing : Standing registry w'
  grows : Grows w w'
  sequences : w'.sequences = w.sequences
  recorded : ∀ entry ∈ (w'.registries registry).entries, entry ∈ (w.registries registry).entries ∨
    ∃ d ∈ defs, Recorded w' registry d entry

def Fits (w : Workspace) : NamedType → Definition → Prop
  | .enum e, .enum _ _ _ values => Value.sameRecord e.members (Definition.members values) = true
  | .object c, .model _ a shape => w.madeOf c = some (.object a shape)
  | _, _ => False

/-- A name is refused: two of some definitions clash there, or one does with what is registered. -/
def Collides (registry : Key) (w : Workspace) (defs : List Definition) (e : Failure) : Prop :=
  ∃ name, e = .duplicateType (.text name) ∧ (Clash name defs ∨
    ∃ entry ∈ (w.registries registry).entries, entry.name = .text name ∧
      ∃ d ∈ defs, d.name = name ∧ ¬ Fits w entry.type d)

/-- Work that registers some definitions and fails for one of some reasons or for a collision. Whether
there are other failures is left open where names are not `plain`. -/
def Books {α : Type} (registry : Key) (plain : Prop) (x : Work α) (w : Workspace)
    (defs : List Definition) (F : Failure → Prop) (Q : α → Workspace → Prop) : Prop :=
  Ends x w (fun a w' => Adds registry defs w w' ∧ (∀ e, ¬ F e) ∧ Q a w')
    fun e w' => Adds registry defs w w' ∧ (plain → F e ∨ Collides registry w defs e)

abbrev BooksField (plain : Prop) (o : Options) (t : Title) (key : Value) (node : Node)
    (x : Work CompiledField) (w : Workspace) (defs : List Definition) : Prop :=
  Books o.registry plain x w defs (Fails ((key, node) :: node.visits))
    fun d w' => FieldNamed w' o.registry t (key, node) d

abbrev BooksShape (plain : Prop) (registry : Key) (t : Title) (shape : List (Value × Node))
    (x : Work (List CompiledField)) (w : Workspace) : Prop :=
  Books registry plain x w (definitionsOf t shape) (Fails (visitsShape shape))
    fun fields w' => List.Forall₂ (FieldNamed w' registry t) shape fields

theorem class?_of_grows (hg : Grows v w) {c : ClassHandle} {m : ModelClass} (h : v.class? c = some m) :
    w.class? c = some m := by
  obtain ⟨rest, hr⟩ := hg.classes
  obtain ⟨hlt, -⟩ := List.getElem?_eq_some_iff.mp h
  rw [Workspace.class?, ← hr, List.getElem?_append_left hlt]
  exact h

theorem madeOf_of_grows (hc : Coherent v) (hg : Grows v w) {name : Key} {c : ClassHandle}
    (h : (v.registries registry).get? name = some (.object c)) : w.madeOf c = v.madeOf c := by
  obtain ⟨entry, hmem, -, ht⟩ := Registry.mem_of_get? h
  rw [Workspace.madeOf, whole?_of_classes hc hg.classes (hc.made registry entry hmem c ht)]
  rfl

section Growing

variable (hc : Coherent v) (hg : Grows v w) {t : Title}

include hc hg

theorem LeafNamed.mono {key : Value} {n : Node} {type : OutputType}
    (h : LeafNamed v registry t key n type) : LeafNamed w registry t key n type := by
  cases h with
  | boolean => exact .boolean
  | string => exact .string
  | number => exact .number
  | enum named held => exact .enum named (hg.get? held)
  | object named held made =>
    exact .object named (hg.get? held) ((madeOf_of_grows hc hg held).trans made)

theorem FieldNamed.mono {f : Value × Node} {d : CompiledField} (h : FieldNamed v registry t f d) :
    FieldNamed w registry t f d :=
  ⟨h.key, h.attr, h.description, h.type.mono hc hg⟩

theorem Recorded.mono {d : Definition} {entry : Registry.Entry} (h : Recorded v registry d entry) :
    Recorded w registry d entry := by
  cases h with
  | model named described made fields =>
    exact .model named described (class?_of_grows hg made) (fields.imp fun _ _ hf => hf.mono hc hg)
  | enum named members described => exact .enum named members described

theorem fits_of_grows {entry : Registry.Entry} (he : entry ∈ (v.registries registry).entries)
    (d : Definition) : Fits w entry.type d ↔ Fits v entry.type d := by
  unfold Fits
  split
  · exact Iff.rfl
  · rename_i c _ a shape ht
    rw [Workspace.madeOf, whole?_of_classes hc hg.classes (hc.made registry entry he c ht)]
    rfl
  · exact Iff.rfl

end Growing

theorem Standing.refl (h : Standing registry w) (defs : List Definition) : Adds registry defs w w :=
  ⟨h, .refl w, rfl, fun _ he => .inl he⟩

theorem Adds.trans {before after : List Definition} (hv : Adds registry before u v)
    (hw : Adds registry after v w) : Adds registry (before ++ after) u w where
  standing := hw.standing
  grows := hv.grows.trans hw.grows
  sequences := hw.sequences.trans hv.sequences
  recorded entry he := by
    rcases hw.recorded entry he with he | ⟨d, hd, hr⟩
    · rcases hv.recorded entry he with he | ⟨d, hd, hr⟩
      · exact .inl he
      · exact .inr ⟨d, List.mem_append_left _ hd, hr.mono hv.standing.coherent hw.grows⟩
    · exact .inr ⟨d, List.mem_append_right _ hd, hr⟩

theorem Adds.of_subset {defs more : List Definition} (h : Adds registry defs v w) (hs : defs ⊆ more) :
    Adds registry more v w :=
  ⟨h.standing, h.grows, h.sequences, fun entry he =>
    (h.recorded entry he).imp_right fun ⟨d, hd, hr⟩ => ⟨d, hs hd, hr⟩⟩

theorem Recorded.name {d : Definition} {entry : Registry.Entry} (h : Recorded w registry d entry) :
    entry.name = .text d.name := by
  cases h with
  | model named => exact congrArg Key.text named
  | enum named => exact congrArg Key.text named

theorem attrs_of_fieldNamed {t : Title} {shape : List (Value × Node)} {fields : List CompiledField}
    (h : List.Forall₂ (FieldNamed w registry t) shape fields) :
    fields.map (·.slot.attr) = shape.map (·.1) := by
  induction h with
  | nil => rfl
  | cons hf _ ih => rw [List.map_cons, List.map_cons, hf.attr, ih]

theorem Recorded.madeOf {t : Title} {a : Annotations} {shape : List (Value × Node)} {c : ClassHandle}
    {entry : Registry.Entry} (h : Recorded w registry (.model t a shape) entry)
    (hc : entry.type = .object c) : w.madeOf c = shownSource a shape := by
  cases h with
  | model named described made fields =>
    cases hc
    rw [Workspace.madeOf, whole?_of_modelBase w made rfl]
    exact source_classOf (attrs_of_fieldNamed fields)

theorem Made.shown {t : Title} {a : Annotations} {shape : List (Value × Node)} {c : ClassHandle}
    (h : Made w registry (.model t a shape) c) :
    c.name = t.name ∧ (w.registries registry).get? (.text c.name) = some (.object c) ∧
      w.madeOf c = shownSource a shape := by
  obtain ⟨entry, hentry, hc, hr⟩ := h
  refine ⟨?_, ?_, hr.madeOf hc⟩
  · have hname := List.find?_some hentry
    rw [beq_iff_eq, hr.name] at hname
    exact (Key.text.inj hname).symm
  · rw [Registry.get?, hentry, Option.map_some, hc]

theorem Recorded.fits {d d' : Definition} {entry : Registry.Entry} (h : Recorded w registry d entry)
    (ha : d.Agrees d') : Fits w entry.type d' := by
  cases d with
  | model t a shape =>
    cases d' with
    | enum => exact ha.elim
    | model t' b fields =>
      have hmade (c : ClassHandle) (hc : entry.type = .object c) := h.madeOf hc
      cases h with
      | @model _ _ _ c =>
        change w.madeOf c = _
        rw [hmade c rfl, shownSource, ha.2, ← ha.1]
        rfl
  | enum t key a values =>
    cases d' with
    | model => exact ha.elim
    | enum t' key' b others =>
      cases h with
      | enum named members =>
        change Value.sameRecord _ _ = true
        rw [members]
        exact ha

namespace Collides

variable {before after : List Definition} {e : Failure}

theorem of_sublist (h : Collides registry w before e) (hs : before.Sublist after) :
    Collides registry w after e := by
  obtain ⟨name, he, hclash | ⟨entry, hentry, hname, d, hd, hdn, hfits⟩⟩ := h
  · exact ⟨name, he, .inl fun hp => hclash (hp.sublist hs)⟩
  · exact ⟨name, he, .inr ⟨entry, hentry, hname, d, hs.subset hd, hdn, hfits⟩⟩

theorem of_adds (hv : Standing registry v) (ha : Adds registry before v w)
    (h : Collides registry w after e) : Collides registry v (before ++ after) e := by
  obtain ⟨name, he, hclash | ⟨entry, hentry, hname, d, hd, hdn, hfits⟩⟩ := h
  · exact ⟨name, he, .inl fun hp => hclash (List.pairwise_append.mp hp).2.1⟩
  · rcases ha.recorded entry hentry with hold | ⟨d', hd', hr⟩
    · rw [fits_of_grows hv.coherent ha.grows hold] at hfits
      exact ⟨name, he, .inr ⟨entry, hold, hname, d, List.mem_append_right _ hd, hdn, hfits⟩⟩
    · refine ⟨name, he, .inl fun hp => hfits (hr.fits ?_)⟩
      rw [hr.name] at hname
      exact (List.pairwise_append.mp hp).2.2 d' hd' d hd (Key.text.inj hname) hdn

end Collides

namespace Books

variable {α β : Type} {plain : Prop} {before after : List Definition} {F G : Failure → Prop}
  {Q : α → Workspace → Prop} {R : β → Workspace → Prop}

theorem pure (hw : Standing registry w) {a : α} (hF : ∀ e, ¬ F e) (h : Q a w) :
    Books registry plain (pure a) w after F Q := ⟨hw.refl _, hF, h⟩

theorem throw (hw : Standing registry w) {e : Failure} (h : F e) :
    Books registry plain (throw e : Work α) w after F Q := ⟨hw.refl _, fun _ => .inl h⟩

theorem ofExcept (hw : Standing registry w) {x : Except Failure α} (hok : ∀ a, x = .ok a → Q a w) :
    Books registry plain (Work.ofExcept x) w [] (fun e => x = .error e) Q := by
  cases x with
  | ok a => exact pure hw nofun (hok a rfl)
  | error e => exact throw hw rfl

theorem bind {x : Work α} {f : α → Work β} (hw : Standing registry w)
    (hx : Books registry plain x w before F Q) (hF : ∀ e, F e → G e)
    (hf : ∀ a w', Standing registry w' → Grows w w' → Q a w' → (∀ e, ¬ F e) →
      Books registry plain (f a) w' after G R) :
    Books registry plain (x >>= f) w (before ++ after) G R := by
  apply Ends.bind
  apply Ends.imp hx
  · intro a w' ⟨ha, hok, hq⟩
    apply Ends.imp (hf a w' ha.standing ha.grows hq hok)
    · intro b w'' ⟨hb, hok, hr⟩
      exact ⟨ha.trans hb, hok, hr⟩
    · intro e w'' ⟨hb, he⟩
      exact ⟨ha.trans hb, fun hp => (he hp).imp_right (.of_adds hw ha)⟩
  · intro e w' ⟨ha, he⟩
    exact ⟨ha.of_subset (List.subset_append_left _ _),
      fun hp => (he hp).imp (hF e) (.of_sublist · (List.sublist_append_left _ _))⟩

end Books

end SchemaCompiler
