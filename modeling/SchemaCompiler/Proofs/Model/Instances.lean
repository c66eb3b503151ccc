import Mathlib.Data.List.Induction
import Mathlib.Data.List.Nodup
import SchemaCompiler.Model.Instance
import SchemaCompiler.Proofs.Model.Fields

namespace SchemaCompiler

open Value (valueAt? entryOrNull putEntry)

theorem class?_of_defineModel {o : Options} {w w' : Workspace} {handle : ClassHandle} {naming : ModelName}
    {source : Node} {fields : List CompiledField}
    (h : defineModel o naming source fields w = .ok handle w') :
    ∃ name, naming.name = .text name ∧
      w'.class? handle = some (classOf name naming.description source fields) := by
  cases hm : modelMisuse? naming.name (fields.map (·.key)) with
  | some m =>
    rw [defineModel_of_misuse w hm] at h
    cases h
  | none =>
    obtain ⟨name, hname⟩ := text_of_modelMisuse? hm
    refine ⟨name, hname, ?_⟩
    rw [defineModel_of_text w hname hm, registerObject_eq, Value.key?_text] at h
    dsimp only at h
    cases hg : ((w.withClass (classOf name naming.description source fields)).registries
        o.registry).get? (.text name) with
    | none =>
      rw [hg] at h
      cases h
      exact List.getElem?_concat_length
    | some t =>
      rw [hg] at h
      cases t with
      | enum e => cases h
      | object d =>
        dsimp only at h
        by_cases hd : d.serial = w.classes.length
        · rw [if_pos hd] at h
          cases h
          exact List.getElem?_concat_length
        · rw [if_neg hd] at h
          cases h

/-- A class as the compilation that makes it leaves it, with any options and from any state. The model
of a nested object is made by a compilation of its own. -/
inductive Compiled (c : ModelClass) : Prop
  | made {o : Options} {node : Node} {w w' : Workspace} {handle : ClassHandle}
    (compiled : compileModel o node w = .ok handle w') (new : w.class? handle = none)
    (whole : w'.whole? handle = some c)

theorem Compiled.made_of {c : ModelClass} (h : Compiled c) : ∃ name description source fields,
    c = classOf name description source fields ∧ fields.map (·.slot.attr) = fields.map (·.key) := by
  obtain @⟨o, node, w, w', handle, compiled, new, whole⟩ := h
  unfold compileModel at compiled
  split at compiled
  · rename_i a shape
    cases hn : modelName o a.description w with
    | error e v =>
      rw [synthesize_eq, hn] at compiled
      cases compiled
    | ok naming v =>
      have hclasses : v.classes = w.classes := by
        rcases modelName_ok hn with ⟨-, rfl⟩ | ⟨-, next, -, rfl⟩
        · rfl
        · rfl
      obtain ⟨key, -, ⟨-, hsource, -⟩ | ⟨-, fields, u, hfields, hmade⟩⟩ := synthesize_ok hn compiled
      · -- What the registry held already is a class of the state before.
        rw [Workspace.whole?, Workspace.class?, hclasses, ← Workspace.class?, new] at hsource
        cases hsource
      · obtain ⟨name, -, hclass⟩ := class?_of_defineModel hmade
        rw [whole?_of_modelBase _ hclass rfl] at whole
        cases whole
        obtain ⟨hkeys, hattrs⟩ := compileShape_keys _ shape _ _ _ hfields
        exact ⟨name, naming.description, .object a shape, fields, rfl, hattrs.trans hkeys.symm⟩
  · cases compiled

structure Slotted (c : ModelClass) (keys : List String) : Prop where
  model : c.isModel = true
  names : c.fieldNames = keys.map .text
  slots : c.slots.map (·.attr) = keys.map .text

structure Keyed (c : ModelClass) (keys : List String) : Prop extends Slotted c keys where
  free : ∀ part, c.lacks part = false

section Compilation

variable {keys : List String}

theorem fieldNames_classOf (name : String) (description : Value) (source : Node)
    (fields : List CompiledField) :
    (classOf name description source fields).fieldNames = fields.map (·.key) := by
  rw [ModelClass.fieldNames, classOf, List.map_map]
  rfl

theorem slotted_classOf {name : String} {description : Value} {source : Node}
    {fields : List CompiledField} (hkeys : fields.map (·.key) = keys.map .text)
    (hattrs : fields.map (·.slot.attr) = keys.map .text) :
    Slotted (classOf name description source fields) keys := by
  refine ⟨rfl, ?_, ?_⟩
  · rw [fieldNames_classOf, hkeys]
  · rw [← hattrs, classOf, List.map_map]
    rfl

theorem Compiled.slotted {c : ModelClass} (h : Compiled c) (hk : c.fieldNames = keys.map .text) :
    Slotted c keys := by
  obtain ⟨name, description, source, fields, rfl, hattrs⟩ := h.made_of
  rw [fieldNames_classOf] at hk
  exact slotted_classOf hk (hattrs.trans hk)

end Compilation

namespace Slotted

variable {c : ModelClass} {keys : List String} {k : String} (h : Slotted c keys)

include h

theorem exists_slot (hk : k ∈ keys) : ∃ s ∈ c.slots, s.attr = .text k := by
  apply List.mem_map.mp
  rw [h.slots]
  exact List.mem_map_of_mem hk

theorem lacks_eq (part : ReservedKey) : c.lacks part =
    (keys.map Value.text).any fun key => ReservedKey.ofValue? key = some part := by
  rw [← h.slots, List.any_map, ModelClass.lacks, ModelClass.replacement?, List.isSome_find?]
  rfl

theorem slot?_isSome (hk : k ∈ keys) : (c.slot? k).isSome = true := by
  obtain ⟨s, hs, hattr⟩ := h.exists_slot hk
  rw [ModelClass.slot?, List.isSome_find?, List.any_eq_true]
  exact ⟨s, hs, decide_eq_true hattr⟩

theorem assign_eq (ha : c.lacks .assignment = false) (hs : c.storageMisuse? = none) (hk : k ∈ keys)
    (v : Value) (values : Values) : c.assign k v values = .ok (putEntry k v values) := by
  obtain ⟨s, hslot⟩ := Option.isSome_iff_exists.mp (h.slot?_isSome hk)
  rw [ModelClass.assign, ha, hslot, hs]
  rfl

end Slotted

theorem Compiled.keyed {c : ModelClass} (h : Compiled c) {keys : List String}
    (hk : c.fieldNames = keys.map .text) (hp : ∀ k ∈ keys, k.toList.take 2 ≠ ['_', '_']) :
    Keyed c keys := by
  refine ⟨h.slotted hk, fun part => ?_⟩
  rw [(h.slotted hk).lacks_eq, List.any_map, List.any_eq_false]
  intro k hmem hpart
  exact hp k hmem (ReservedKey.opening (of_decide_eq_true hpart))

namespace Keyed

variable {c : ModelClass} {keys : List String} {k : String} (h : Keyed c keys)

include h

theorem storageMisuse?_eq : c.storageMisuse? = none := by
  rw [ModelClass.storageMisuse?, h.free, h.free]
  rfl

theorem read_eq (hk : k ∈ keys) (values : Values) :
    c.read k values = .ok (.value (entryOrNull k values)) := by
  rw [ModelClass.read, h.free, h.slot?_isSome hk, h.storageMisuse?_eq]
  rfl

theorem delete_eq (hk : k ∈ keys) (values : Values) : c.delete k values = .ok (values.erase k) := by
  obtain ⟨s, hs⟩ := Option.isSome_iff_exists.mp (h.slot?_isSome hk)
  rw [ModelClass.delete, h.free, hs, h.storageMisuse?_eq]
  rfl

theorem readAll_eq {names : List String} (hn : names ⊆ keys) (values : Values) :
    c.readAll values (names.map .text) =
      .ok (names.map fun k => (k, .value (entryOrNull k values))) := by
  induction names with
  | nil => rfl
  | cons name rest ih =>
    obtain ⟨hname, hrest⟩ := List.cons_subset.mp hn
    rw [List.map_cons, ModelClass.readAll, h.read_eq hname, ih hrest]
    rfl

end Keyed

theorem eraseDups_of_nodup {α : Type} [DecidableEq α] {l : List α} (h : l.Nodup) : l.eraseDups = l := by
  induction l with
  | nil => rfl
  | cons a rest ih =>
    obtain ⟨ha, hrest⟩ := List.nodup_cons.mp h
    have hkept : rest.filter (fun b => !b == a) = rest := by
      rw [List.filter_eq_self]
      rintro b hb
      simp only [Bool.not_eq_true', beq_eq_false_iff_ne]
      rintro rfl
      exact ha hb
    rw [List.eraseDups_cons, hkept, ih hrest]

structure Shows (c : ModelClass) (keys : List String) (values : Values) (value : String → Value) :
    Prop where
  read : ∀ k ∈ keys, c.read k values = .ok (.value (value k))
  fields : c.fieldValues values = .ok (keys.map fun k => (k, .value (value k)))
  text : c.instanceText values = .ok (c.name ++ "(" ++
    ", ".intercalate (keys.map fun k => k ++ "=" ++ (value k).literal) ++ ")")

section Store

variable {c : ModelClass} {keys : List String}

theorem fieldTexts (keys : List String) (value : String → Value) :
    (keys.map fun k => (k, Attribute.value (value k))).mapM
      (fun p => return p.1 ++ "=" ++ (← ModelClass.fieldText p.2)) =
      (.ok (keys.map fun k => k ++ "=" ++ (value k).literal) : Except Failure (List String)) := by
  induction keys with
  | nil => rfl
  | cons k rest ih =>
    rw [List.map_cons, List.mapM_cons, ih]
    rfl

theorem Keyed.shows (h : Keyed c keys) (hd : keys.Nodup) {values : Values} {value : String → Value}
    (hv : ∀ k ∈ keys, entryOrNull k values = value k) : Shows c keys values value := by
  have hfields : c.fieldValues values = .ok (keys.map fun k => (k, .value (value k))) := by
    have hnodup : (keys.map Value.text).Nodup := hd.map fun _ _ => Value.text.inj
    rw [ModelClass.fieldValues, h.names, eraseDups_of_nodup hnodup, h.readAll_eq (List.Subset.refl _)]
    exact congrArg Except.ok (List.map_congr_left fun k hk => by rw [hv k hk])
  refine ⟨fun k hk => ?_, hfields, ?_⟩
  · rw [h.read_eq hk, hv k hk]
  · rw [ModelClass.instanceText, h.model, h.free, hfields]
    simp only [Bool.not_true, Bool.false_eq_true, if_false, Outcome.ok_bind]
    rw [fieldTexts]
    rfl

theorem Keyed.same (h : Keyed c keys) {a b : Values} {f g : String → Value} (ha : Shows c keys a f)
    (hb : Shows c keys b g) (identical : Bool) :
    sameInstance c identical a b = .ok (keys.all fun k => (f k).same (g k)) := by
  have hpairs : (keys.map fun k => (k, Attribute.value (f k))).zip
      (keys.map fun k => (k, Attribute.value (g k))) =
      keys.map fun k => ((k, Attribute.value (f k)), (k, Attribute.value (g k))) := by
    rw [List.zip_map']
  rw [sameInstance, ModelClass.comparisonMisuse?, h.free, ha.fields, hb.fields]
  simp only [Bool.false_and, Bool.false_eq_true, if_false, Outcome.ok_bind, Outcome.pure_eq_ok, hpairs,
    List.all_map]
  rfl

theorem putEntry_new {key : String} {entries : Values} (hk : key ∉ entries.map (·.1)) (v : Value) :
    putEntry key v entries = entries ++ [(key, v)] := by
  induction entries with
  | nil => rfl
  | cons e rest ih =>
    obtain ⟨first, x⟩ := e
    rw [List.map_cons, List.mem_cons, not_or] at hk
    rw [putEntry, if_neg (Ne.symm hk.1), ih hk.2]
    rfl

theorem Slotted.assignAll_eq (h : Slotted c keys) (ha : c.lacks .assignment = false)
    (hs : c.storageMisuse? = none) {given values : Values} (hk : ∀ p ∈ given, p.1 ∈ keys)
    (hd : ((values ++ given).map (·.1)).Nodup) :
    c.assignAll given values = .ok (values ++ given) := by
  induction given generalizing values with
  | nil => rw [ModelClass.assignAll, List.append_nil]
  | cons p rest ih =>
    obtain ⟨name, v⟩ := p
    obtain ⟨hname, hrest⟩ := List.forall_mem_cons.mp hk
    have hnew : name ∉ values.map (·.1) := by
      rw [List.map_append, List.nodup_append] at hd
      intro hmem
      exact hd.2.2 name hmem name (by simp) rfl
    rw [ModelClass.assignAll, h.assign_eq ha hs hname, putEntry_new hnew, Outcome.ok_bind,
      ih hrest (by simpa using hd), List.append_assoc]
    rfl

theorem Slotted.construct_eq (h : Slotted c keys) (hm : c.makingMisuse? = none)
    (ha : c.lacks .assignment = false) (hs : c.storageMisuse? = none) {given : Values}
    (hd : (given.map (·.1)).Nodup) : c.construct given =
      if "self" ∈ given.map (·.1) then .error (.misuse .selfGiven)
      else match (given.map (·.1)).filter (· ∉ keys) with
        | [] => .ok given
        | unknown => .error (.unexpectedFields c.name unknown) := by
  have hself : (given.any (·.1 == "self")) = decide ("self" ∈ given.map (·.1)) := by
    rw [Bool.eq_iff_iff, List.any_eq_true, decide_eq_true_eq, List.mem_map]
    simp only [beq_iff_eq]
  have hkeys : c.fieldNames.all Value.isKey = true := by
    rw [h.names, List.all_map]
    simp [Value.isKey]
  have hunknown : (given.map (·.1)).filter (fun name => .text name ∉ c.fieldNames) =
      (given.map (·.1)).filter (· ∉ keys) := by
    rw [h.names]
    simp
  rw [ModelClass.construct, hm, h.model, hself, hkeys, hunknown]
  simp only [Bool.not_true, Bool.false_eq_true, if_false, decide_eq_true_eq]
  split
  · rfl
  · cases hfilter : (given.map (·.1)).filter (· ∉ keys) with
    | nil =>
      have hk : ∀ p ∈ given, p.1 ∈ keys := by
        intro p hp
        have hmem := List.filter_eq_nil_iff.mp hfilter p.1 (List.mem_map_of_mem hp)
        simpa using hmem
      have hall : ((([] : Values) ++ given).map (·.1)).Nodup := hd
      exact h.assignAll_eq ha hs hk hall
    | cons name rest => rfl

theorem Slotted.construct_known (h : Slotted c keys) (hm : c.makingMisuse? = none)
    (ha : c.lacks .assignment = false) (hs : c.storageMisuse? = none) (hself : "self" ∉ keys)
    {given : Values} (hd : (given.map (·.1)).Nodup) (hk : ∀ p ∈ given, p.1 ∈ keys) :
    c.construct given = .ok given := by
  have hgiven : ∀ name ∈ given.map (·.1), name ∈ keys := by
    intro name hname
    obtain ⟨p, hp, rfl⟩ := List.mem_map.mp hname
    exact hk p hp
  have hunknown : (given.map (·.1)).filter (· ∉ keys) = [] := by
    rw [List.filter_eq_nil_iff]
    intro name hname
    simpa using hgiven name hname
  rw [h.construct_eq hm ha hs hd, if_neg fun hmem => hself (hgiven _ hmem), hunknown]

theorem Keyed.makingMisuse?_eq (h : Keyed c keys) : c.makingMisuse? = none := by
  rw [ModelClass.makingMisuse?, h.free, h.free]
  rfl

end Store

inductive FieldChange where
  | assign (i : Nat) (field : String) (v : Value)
  | delete (i : Nat) (field : String)

namespace FieldChange

def field : FieldChange → String
  | assign _ field _ | delete _ field => field

def apply (c : ModelClass) (s : Nat → Values) : FieldChange → Except Failure (Nat → Values)
  | assign i field v => return update s i (← c.assign field v (s i))
  | delete i field => return update s i (← c.delete field (s i))

def leaves (i : Nat) (k : String) : FieldChange → Option Value
  | assign j field v => if j = i ∧ field = k then some v else none
  | delete j field => if j = i ∧ field = k then some .null else none

def last (changes : List FieldChange) (i : Nat) (k : String) (before : Value) : Value :=
  (changes.reverse.findSome? (leaves i k)).getD before

end FieldChange

theorem entryOrNull_erase (k name : String) (values : Values) :
    entryOrNull k (values.erase name) = if name = k then .null else entryOrNull k values := by
  unfold entryOrNull Values.erase
  induction values with
  | nil => simp [valueAt?]
  | cons e rest ih =>
    obtain ⟨first, x⟩ := e
    rw [List.filter_cons]
    by_cases hfirst : first = name
    · subst hfirst
      rw [if_neg (by simp), ih, valueAt?]
      by_cases hk : first = k <;> simp [hk]
    · rw [if_pos (by simpa using hfirst), valueAt?, valueAt?]
      by_cases hk : first = k
      · subst hk
        simp [Ne.symm hfirst]
      · rw [if_neg hk, if_neg hk, ih]

section Changes

variable {c : ModelClass} {keys : List String} (h : Keyed c keys)

include h

theorem Keyed.apply_ok {change : FieldChange} (hk : change.field ∈ keys) (s : Nat → Values) :
    ∃ s', change.apply c s = .ok s' ∧ ∀ i k,
      entryOrNull k (s' i) = (change.leaves i k).getD (entryOrNull k (s i)) := by
  cases change with
  | assign j field v =>
    refine ⟨update s j (putEntry field v (s j)), ?_, fun i k => ?_⟩
    · rw [FieldChange.apply, h.assign_eq (h.free _) h.storageMisuse?_eq (k := field) hk]
      rfl
    · rw [FieldChange.leaves]
      by_cases hi : i = j
      · subst hi
        rw [update_same, entryOrNull]
        by_cases hf : field = k
        · subst hf
          rw [Value.valueAt?_putEntry_same, if_pos ⟨rfl, rfl⟩]
          rfl
        · rw [Value.valueAt?_putEntry_other _ _ (Ne.symm hf), if_neg (fun hboth => hf hboth.2)]
          rfl
      · rw [update_of_ne _ _ hi, if_neg (fun hboth => hi hboth.1.symm)]
        rfl
  | delete j field =>
    refine ⟨update s j ((s j).erase field), ?_, fun i k => ?_⟩
    · rw [FieldChange.apply, h.delete_eq (k := field) hk]
      rfl
    · rw [FieldChange.leaves]
      by_cases hi : i = j
      · subst hi
        rw [update_same, entryOrNull_erase]
        by_cases hf : field = k <;> simp [hf]
      · rw [update_of_ne _ _ hi, if_neg (fun hboth => hi hboth.1.symm)]
        rfl

theorem Keyed.applyAll_ok {changes : List FieldChange} (hk : ∀ change ∈ changes, change.field ∈ keys)
    (s : Nat → Values) : ∃ s', changes.foldlM (FieldChange.apply c) s = .ok s' ∧ ∀ i k,
      entryOrNull k (s' i) = FieldChange.last changes i k (entryOrNull k (s i)) := by
  -- Change by change: the one made last decides for its field of its instance.
  induction changes using List.reverseRecOn with
  | nil => exact ⟨s, rfl, fun _ _ => rfl⟩
  | append_singleton before change ih =>
    obtain ⟨hbefore, hchange⟩ := List.forall_mem_append.mp hk
    obtain ⟨s₁, hs₁, hlast⟩ := ih hbefore
    obtain ⟨s₂, hs₂, hleaves⟩ := h.apply_ok (hchange change (List.mem_singleton_self _)) s₁
    refine ⟨s₂, ?_, fun i k => ?_⟩
    · rw [List.foldlM_append, hs₁, Outcome.ok_bind, List.foldlM_cons, hs₂]
      rfl
    · rw [hleaves, hlast, FieldChange.last, FieldChange.last, List.reverse_append]
      cases hl : change.leaves i k <;> simp [hl]

end Changes

/-- Instances of a compiled model keep their fields apart, from each other and in each instance: after
any changes a field has the last value that they left in it, and that is what its instance reads, shows
and is compared by. The values to start with are those given, unless one goes by no field; one that goes
by the name of the instance itself is refused on its own. -/
theorem instances_keep_fields {c : ModelClass} {keys : List String} (hc : Compiled c)
    (hk : c.fieldNames = keys.map .text) (hd : keys.Nodup)
    (hp : ∀ k ∈ keys, k ≠ "self" ∧ k.toList.take 2 ≠ ['_', '_']) :
    (∀ given : Values, (given.map (·.1)).Nodup → c.construct given =
      if "self" ∈ given.map (·.1) then .error (.misuse .selfGiven)
      else match (given.map (·.1)).filter (· ∉ keys) with
        | [] => .ok given
        | unknown => .error (.unexpectedFields c.name unknown)) ∧
    ∀ given : Nat → Values, (∀ i, ((given i).map (·.1)).Nodup ∧ ∀ p ∈ given i, p.1 ∈ keys) →
    ∀ changes : List FieldChange, (∀ change ∈ changes, change.field ∈ keys) →
      ∃ made left, (∀ i, c.construct (given i) = .ok (made i)) ∧
        changes.foldlM (FieldChange.apply c) made = .ok left ∧
        (∀ i, Shows c keys (left i) fun k => FieldChange.last changes i k (entryOrNull k (given i))) ∧
        ∀ identical i j, sameInstance c identical (left i) (left j) = .ok (keys.all fun k =>
          (FieldChange.last changes i k (entryOrNull k (given i))).same
            (FieldChange.last changes j k (entryOrNull k (given j)))) := by
  have h : Keyed c keys := hc.keyed hk fun k hmem => (hp k hmem).2
  have hself : "self" ∉ keys := fun hmem => (hp "self" hmem).1 rfl
  have hm := h.makingMisuse?_eq
  have hs := h.storageMisuse?_eq
  refine ⟨fun given hgiven => h.construct_eq hm (h.free _) hs hgiven, ?_⟩
  intro given hgiven changes hchanges
  obtain ⟨left, hleft, hlast⟩ := h.applyAll_ok hchanges given
  have hshows (i : Nat) : Shows c keys (left i) fun k =>
      FieldChange.last changes i k (entryOrNull k (given i)) := h.shows hd fun k _ => hlast i k
  refine ⟨given, left, fun i => ?_, hleft, hshows, ?_⟩
  · exact h.construct_known hm (h.free _) hs hself (hgiven i).1 (hgiven i).2
  · intro identical i j
    exact h.same (hshows i) (hshows j) identical

def widgetShape : List (Value × Node) := [(.text "name", .string {}), (.text "to_dict", .string {})]

def widget : ModelClass :=
  classOf "Widget" .null (.object {} widgetShape)
    (widgetShape.map fun f => ⟨f.1, .scalar .string, .never, .null, .null, .ofField f.1 .string⟩)

theorem widget_compiled : Compiled widget := by
  have hrun : ∃ v, compileModel (.named (.text "Widget")) (.object {} widgetShape) {} =
      .ok ⟨0, "Widget"⟩ v ∧ v.whole? ⟨0, "Widget"⟩ = some widget := ⟨_, rfl, rfl⟩
  obtain ⟨v, hcompiled, hwhole⟩ := hrun
  exact .made hcompiled rfl hwhole

theorem instances_keep_fields_widget : ∃ made left,
    widget.construct [("to_dict", .text "x")] = .ok (made 0) ∧
    [FieldChange.assign 0 "name" (.int 1), .delete 0 "to_dict", .assign 1 "name" (.int 1)].foldlM
      (FieldChange.apply widget) made = .ok left ∧
    widget.instanceText (left 0) = .ok "Widget(name=1, to_dict=None)" ∧
    sameInstance widget false (left 0) (left 1) = .ok true := by
  have hgiven (i : Nat) : (((if i = 0 then [("to_dict", .text "x")] else [] : Values).map (·.1)).Nodup ∧
      ∀ p ∈ (if i = 0 then [("to_dict", .text "x")] else [] : Values), p.1 ∈ ["name", "to_dict"]) := by
    split <;> simp
  have hkeys : widget.fieldNames = ["name", "to_dict"].map .text := rfl
  obtain ⟨made, left, hmade, hleft, hshows, hsame⟩ :=
    (instances_keep_fields widget_compiled hkeys (by decide) (by decide)).2 _ hgiven
      [.assign 0 "name" (.int 1), .delete 0 "to_dict", .assign 1 "name" (.int 1)] (by decide)
  exact ⟨made, left, hmade 0, hleft, (hshows 0).text, hsame false 0 1⟩

/-- A value under the name of the instance itself keeps a constructor from telling which of the values
have no field. -/
theorem self_hides_unknown : ¬∀ (c : ModelClass) (keys : List String), Compiled c →
    c.fieldNames = keys.map .text → keys.Nodup →
    (∀ k ∈ keys, k ≠ "self" ∧ k.toList.take 2 ≠ ['_', '_']) →
    ∀ given : Values, (given.map (·.1)).Nodup →
      ∀ name rest, (given.map (·.1)).filter (· ∉ keys) = name :: rest →
        c.construct given = .error (.unexpectedFields c.name (name :: rest)) := by
  intro h
  have hgiven := h widget ["name", "to_dict"] widget_compiled rfl (by decide) (by decide)
    [("colour", .text "red"), ("self", .int 1)] (by decide) "colour" ["self"] rfl
  cases hgiven

end SchemaCompiler
