import Mathlib.Data.List.Nodup
import SchemaCompiler.Config
import SchemaCompiler.Proofs.Outcome

namespace SchemaCompiler

namespace Value

theorem valueAt?_eq_none_iff {key : String} {entries : List (String × Value)} :
    valueAt? key entries = none ↔ key ∉ entries.map (·.1) := by
  induction entries with
  | nil => simp [valueAt?]
  | cons e rest ih =>
    obtain ⟨k, v⟩ := e
    rw [valueAt?, List.map_cons, List.mem_cons, not_or]
    by_cases hk : k = key
    · simp [hk]
    · rw [if_neg hk, ih]
      simp [Ne.symm hk]

theorem eq_nil_of_valueAt? {entries : List (String × Value)} (h : ∀ key, valueAt? key entries = none) :
    entries = [] := by
  cases entries with
  | nil => rfl
  | cons e rest => exact absurd List.mem_cons_self (valueAt?_eq_none_iff.mp (h e.1))

theorem valueAt?_filter (p : String → Bool) (key : String) (entries : List (String × Value)) :
    valueAt? key (entries.filter (p ·.1)) = if p key then valueAt? key entries else none := by
  induction entries with
  | nil => simp [valueAt?]
  | cons e rest ih =>
    obtain ⟨k, v⟩ := e
    rw [List.filter_cons, valueAt?]
    by_cases hk : k = key
    · subst hk
      cases hp : p k with
      | true => simp [valueAt?]
      | false => simpa [hp] using ih
    · cases hp : p k with
      | true => simpa [valueAt?, hk] using ih
      | false => simpa [hk] using ih

theorem valueAt?_single (key other : String) (v : Value) :
    valueAt? other [(key, v)] = if key = other then some v else none := rfl

end Value

namespace Config

open Value Outcome

def Settable (e : String × Value) : Prop :=
  e.1 ≠ "__class__" ∧ e.1 ≠ "__weakref__" ∧ (e.1 = "__dict__" → ∃ r, e.2 = .record r)

def NamesFormat (entries : List (String × Value)) : Prop :=
  ∀ v, ("output_format", v) ∈ entries → ∃ f : OutputFormat, v = .text f.name

/-- The second configuration is the first with what the entries hold: the settings under their names,
and other attributes that the first one has. -/
structure Updated (c : Config) (entries : List (String × Value)) (c' : Config) : Prop where
  modelName : c'.modelName = (valueAt? "model_name" entries).getD c.modelName
  outputFormat : ∀ f : OutputFormat, valueAt? "output_format" entries = some (.text f.name) →
    c'.outputFormat = .format f
  sameFormat : valueAt? "output_format" entries = none → c'.outputFormat = c.outputFormat
  addGenerationComment :
    c'.addGenerationComment = (valueAt? "add_generation_comment" entries).getD c.addGenerationComment
  jsonIndent : c'.jsonIndent = (valueAt? "json_indent" entries).getD c.jsonIndent
  attributes : ∀ key, valueAt? key c'.attributes =
    (if key ∉ settingNames ∧ c.hasAttribute key then valueAt? key entries else none).or
      (valueAt? key c.attributes)

def RoundTrips (c : Config) : Prop :=
  ∃ v, c.toValue = .ok v ∧ ofValue v = .ok { c with attributes := [] }

/-- The settings are as the record has them, or left at their defaults; no other entry has an effect. -/
def ReadsExactly (d : List (String × Value)) (c : Config) : Prop :=
  Updated {} d c ∧ c.attributes = [] ∧ c.RoundTrips

theorem format_of_name (f : OutputFormat) : OutputFormat.ofName? f.name = some f := by
  cases f <;> rfl

theorem Updated.hasAttribute {c c' : Config} {entries : List (String × Value)}
    (h : Updated c entries c') (key : String) : c'.hasAttribute key = c.hasAttribute key := by
  rw [Config.hasAttribute, Config.hasAttribute, h.attributes key]
  by_cases hkey : key ∈ attributeNames
  · simp [hkey]
  · cases hc : valueAt? key c.attributes with
    | some v => simp
    | none => simp [Config.hasAttribute, hkey, hc]

theorem attributes_kept {c : Config} {key : String} (h : key ∈ settingNames ∨ c.hasAttribute key = false)
    (v : Value) (other : String) : valueAt? other c.attributes =
      (if other ∉ settingNames ∧ c.hasAttribute other then valueAt? other [(key, v)] else none).or
        (valueAt? other c.attributes) := by
  rw [valueAt?_single]
  by_cases hother : key = other
  · subst hother
    have hno : ¬(key ∉ settingNames ∧ c.hasAttribute key = true) := by
      rintro ⟨hsetting, hattribute⟩
      rcases h with h | h
      · exact hsetting h
      · rw [h] at hattribute
        cases hattribute
    rw [if_neg hno, Option.none_or]
  · rw [if_neg hother, ite_self, Option.none_or]

theorem attributes_put {c : Config} {key : String} (hsetting : key ∉ settingNames)
    (h : c.hasAttribute key = true) (v : Value) (other : String) :
    valueAt? other (putEntry key v c.attributes) =
      (if other ∉ settingNames ∧ c.hasAttribute other then valueAt? other [(key, v)] else none).or
        (valueAt? other c.attributes) := by
  rw [valueAt?_single]
  by_cases hother : key = other
  · subst hother
    rw [valueAt?_putEntry_same, if_pos ⟨hsetting, h⟩, if_pos rfl, Option.some_or]
  · rw [valueAt?_putEntry_other v c.attributes (Ne.symm hother), if_neg hother, ite_self, Option.none_or]

theorem updated_of_attributes {c : Config} {key : String} {v : Value} (hsetting : key ∉ settingNames)
    {attributes : List (String × Value)} (h : ∀ other, valueAt? other attributes =
      (if other ∉ settingNames ∧ c.hasAttribute other then valueAt? other [(key, v)] else none).or
        (valueAt? other c.attributes)) : Updated c [(key, v)] { c with attributes } := by
  simp only [settingNames, List.mem_cons, List.not_mem_nil, or_false, not_or] at hsetting
  constructor
  case attributes => exact h
  all_goals simp [valueAt?_single, hsetting]

theorem set_updated {c : Config} {key : String} {v : Value} (hset : Settable (key, v))
    (hdict : key ≠ "__dict__") (hformat : NamesFormat [(key, v)]) :
    ∃ c', c.set key v = .ok c' ∧ Updated c [(key, v)] c' := by
  -- One case for each key with a rule of its own; the last is for all others.
  unfold set
  split
  · refine ⟨_, rfl, ?_⟩
    constructor
    case attributes => exact attributes_kept (.inl (by decide)) v
    all_goals simp [valueAt?_single]
  · obtain ⟨f, rfl⟩ := hformat v List.mem_cons_self
    refine ⟨{ c with outputFormat := .format f }, ?_, ?_⟩
    · simp [text?, format_of_name]
    constructor
    case attributes => exact attributes_kept (.inl (by decide)) _
    case outputFormat =>
      intro g hg
      cases f <;> cases g <;> simp_all [valueAt?_single, OutputFormat.name]
    all_goals simp [valueAt?_single]
  · refine ⟨_, rfl, ?_⟩
    constructor
    case attributes => exact attributes_kept (.inl (by decide)) v
    all_goals simp [valueAt?_single]
  · refine ⟨_, rfl, ?_⟩
    constructor
    case attributes => exact attributes_kept (.inl (by decide)) v
    all_goals simp [valueAt?_single]
  · exact absurd rfl hdict
  · exact absurd rfl hset.1
  · exact absurd rfl hset.2.1
  · rename_i hname hformatName hcomment hindent _ _ _
    have hsetting : key ∉ settingNames := by
      simp only [settingNames, List.mem_cons, List.not_mem_nil, or_false, not_or]
      exact ⟨hname, hformatName, hcomment, hindent⟩
    split
    · rename_i hattribute
      exact ⟨_, rfl, updated_of_attributes hsetting (attributes_put hsetting hattribute v)⟩
    · rename_i hattribute
      rw [Bool.not_eq_true] at hattribute
      exact ⟨_, rfl, updated_of_attributes hsetting (attributes_kept (.inr hattribute) v)⟩

theorem settable_of_set {c c' : Config} {key : String} {v : Value} (h : c.set key v = .ok c') :
    Settable (key, v) := by
  refine ⟨?_, ?_, ?_⟩
  · rintro rfl
    cases h
  · rintro rfl
    cases h
  · rintro rfl
    cases v with
    | record r => exact ⟨r, rfl⟩
    | _ => cases h

theorem set_dict (c : Config) (r : List (String × Value)) :
    c.set "__dict__" (.record r) = .ok (ofSettings r) := rfl

theorem Updated.trans {c c₁ c₂ : Config} {key : String} {v : Value} {rest : List (String × Value)}
    (hnew : key ∉ rest.map (·.1)) (hfirst : Updated c [(key, v)] c₁) (hrest : Updated c₁ rest c₂) :
    Updated c ((key, v) :: rest) c₂ := by
  have hnone := valueAt?_eq_none_iff.mpr hnew
  have hcons (other : String) : valueAt? other ((key, v) :: rest) =
      (valueAt? other rest).or (valueAt? other [(key, v)]) := by
    rw [valueAt?, valueAt?_single]
    split
    · rename_i hkey
      rw [← hkey, hnone, Option.none_or]
    · rw [Option.or_none]
  constructor
  case modelName => rw [hrest.modelName, hfirst.modelName, hcons, Option.getD_or]
  case addGenerationComment =>
    rw [hrest.addGenerationComment, hfirst.addGenerationComment, hcons, Option.getD_or]
  case jsonIndent => rw [hrest.jsonIndent, hfirst.jsonIndent, hcons, Option.getD_or]
  case outputFormat =>
    intro f hf
    rw [hcons] at hf
    cases hlater : valueAt? "output_format" rest with
    | some w => exact hrest.outputFormat f (by simpa [hlater] using hf)
    | none =>
      rw [hrest.sameFormat hlater]
      exact hfirst.outputFormat f (by simpa [hlater] using hf)
  case sameFormat =>
    intro hf
    rw [hcons, Option.or_eq_none_iff] at hf
    rw [hrest.sameFormat hf.1, hfirst.sameFormat hf.2]
  case attributes =>
    intro other
    rw [hrest.attributes, hfirst.attributes, hfirst.hasAttribute, hcons, ← Option.or_assoc]
    congr 1
    split
    · rfl
    · rfl

theorem setAll_append (c : Config) (a b : List (String × Value)) :
    c.setAll (a ++ b) = c.setAll a >>= (·.setAll b) := by
  induction a generalizing c with
  | nil => rfl
  | cons e rest ih =>
    rw [List.cons_append, setAll, setAll, bind_assoc]
    congr 1
    funext c'
    exact ih c'

theorem setAll_ok_iff {entries : List (String × Value)} (hformat : NamesFormat entries) (c : Config) :
    (∃ c', c.setAll entries = .ok c') ↔ ∀ e ∈ entries, Settable e := by
  induction entries generalizing c with
  | nil => simp [setAll]
  | cons e rest ih =>
    obtain ⟨key, v⟩ := e
    have hhere : NamesFormat [(key, v)] := fun w hw => hformat w (by simp_all)
    have hlater : NamesFormat rest := fun w hw => hformat w (List.mem_cons_of_mem _ hw)
    rw [List.forall_mem_cons, setAll]
    constructor
    · rintro ⟨c', h⟩
      obtain ⟨c₁, hset, hrest⟩ := bind_eq_ok_iff.mp h
      exact ⟨settable_of_set hset, (ih hlater c₁).mp ⟨c', hrest⟩⟩
    · rintro ⟨hset, hrest⟩
      have hfirst : ∃ c₁, c.set key v = .ok c₁ := by
        by_cases hdict : key = "__dict__"
        · obtain ⟨r, rfl⟩ := hset.2.2 hdict
          exact ⟨_, hdict ▸ set_dict c r⟩
        · obtain ⟨c₁, h, -⟩ := set_updated (c := c) hset hdict hhere
          exact ⟨c₁, h⟩
      obtain ⟨c₁, hc₁⟩ := hfirst
      obtain ⟨c', hc'⟩ := (ih hlater c₁).mpr hrest
      exact ⟨c', by rw [hc₁, ok_bind, hc']⟩

theorem setAll_updated {entries : List (String × Value)} (hkeys : (entries.map (·.1)).Nodup)
    (hformat : NamesFormat entries) (hdict : "__dict__" ∉ entries.map (·.1)) {c c' : Config}
    (h : c.setAll entries = .ok c') : Updated c entries c' := by
  induction entries generalizing c with
  | nil =>
    cases h
    constructor <;> simp [valueAt?]
  | cons e rest ih =>
    obtain ⟨key, v⟩ := e
    obtain ⟨hnew, hkeys⟩ := List.nodup_cons.mp hkeys
    rw [List.map_cons, List.mem_cons, not_or] at hdict
    have hhere : NamesFormat [(key, v)] := fun w hw => hformat w (by simp_all)
    have hlater : NamesFormat rest := fun w hw => hformat w (List.mem_cons_of_mem _ hw)
    obtain ⟨c₁, hset, hrest⟩ := bind_eq_ok_iff.mp h
    obtain ⟨c₂, hc₂, hfirst⟩ := set_updated (c := c) (settable_of_set hset) (Ne.symm hdict.1) hhere
    rw [hset, Except.ok.injEq] at hc₂
    subst hc₂
    exact hfirst.trans hnew (ih hkeys hlater hdict.2 hrest)

theorem roundTrips_iff {c : Config} :
    c.RoundTrips ↔ c.exportReplaced = false ∧ ∃ f, c.outputFormat = .format f := by
  constructor
  · rintro ⟨v, hv, -⟩
    rw [toValue] at hv
    split at hv
    · cases hv
    · rename_i hkept
      refine ⟨by simpa using hkept, ?_⟩
      cases hf : c.outputFormat with
      | format f => exact ⟨f, rfl⟩
      | unchecked w =>
        rw [hf] at hv
        cases hv
  · rintro ⟨hkept, f, hf⟩
    refine ⟨_, by rw [toValue, hkept, hf]; rfl, ?_⟩
    obtain ⟨name, format, comment, indent, attributes⟩ := c
    cases hf
    cases f <;> rfl

theorem not_setting_of_attribute : ∀ key ∈ attributeNames, key ∉ settingNames := by
  decide +kernel

section Update

variable {c c' : Config} {entries : List (String × Value)} (h : Updated c entries c')

include h

theorem Updated.valueAt?_attribute {key : String} (hkey : key ∈ attributeNames) :
    valueAt? key c'.attributes = (valueAt? key entries).or (valueAt? key c.attributes) := by
  have hown : c.hasAttribute key = true := by simp [Config.hasAttribute, hkey]
  rw [h.attributes, if_pos ⟨not_setting_of_attribute key hkey, hown⟩]

theorem Updated.exportReplaced_iff : c'.exportReplaced = false ↔
    "to_dict" ∉ entries.map (·.1) ∧ c.exportReplaced = false := by
  rw [exportReplaced, exportReplaced, h.valueAt?_attribute (by decide), Option.isSome_eq_false_iff,
    Option.isSome_eq_false_iff, Option.isNone_iff_eq_none, Option.isNone_iff_eq_none,
    Option.or_eq_none_iff, valueAt?_eq_none_iff]

theorem Updated.format_iff (hformat : NamesFormat entries) : (∃ f, c'.outputFormat = .format f) ↔
    "output_format" ∈ entries.map (·.1) ∨ ∃ f, c.outputFormat = .format f := by
  cases hgiven : valueAt? "output_format" entries with
  | some v =>
    obtain ⟨f, rfl⟩ := hformat v (mem_of_valueAt? hgiven)
    exact iff_of_true ⟨f, h.outputFormat f hgiven⟩ (.inl (mem_names_of_valueAt? hgiven))
  | none =>
    rw [h.sameFormat hgiven]
    simp [valueAt?_eq_none_iff.mp hgiven]

theorem Updated.attributes_eq_nil_iff (hempty : c.attributes = []) :
    c'.attributes = [] ↔ ∀ key ∈ entries.map (·.1), key ∉ attributeNames := by
  constructor
  · intro hnil key hkey hattribute
    have hnone := h.valueAt?_attribute hattribute
    rw [hnil, hempty] at hnone
    exact valueAt?_eq_none_iff.mp (Option.or_eq_none_iff.mp hnone.symm).1 hkey
  · intro hnone
    apply eq_nil_of_valueAt?
    intro key
    rw [h.attributes, hempty, valueAt?, Option.or_none]
    split
    · rename_i hown
      by_cases hkey : key ∈ entries.map (·.1)
      · simp [Config.hasAttribute, hempty, valueAt?, hnone key hkey] at hown
      · exact valueAt?_eq_none_iff.mpr hkey
    · rfl

end Update

theorem exportReplaced_ofSettings (r : List (String × Value)) :
    (ofSettings r).exportReplaced = false ↔ "to_dict" ∉ r.map (·.1) := by
  rw [exportReplaced, ofSettings]
  dsimp only
  rw [valueAt?_filter (fun key => decide (key ∉ settingNames)), if_pos (by decide),
    Option.isSome_eq_false_iff, Option.isNone_iff_eq_none, valueAt?_eq_none_iff]

theorem format_ofSettings (r : List (String × Value)) :
    (∃ f, (ofSettings r).outputFormat = .format f) ↔ "output_format" ∉ r.map (·.1) := by
  rw [ofSettings]
  dsimp only
  cases hgiven : valueAt? "output_format" r with
  | some v => simp [mem_names_of_valueAt? hgiven]
  | none => simp [valueAt?_eq_none_iff.mp hgiven]

theorem read_plain {d : List (String × Value)} (hkeys : (d.map (·.1)).Nodup) (hformat : NamesFormat d)
    (hdict : "__dict__" ∉ d.map (·.1)) {c : Config} (hc : ofValue (.record d) = .ok c) :
    Updated {} d c ∧ (c.RoundTrips ↔ "to_dict" ∉ d.map (·.1)) := by
  have h := setAll_updated hkeys hformat hdict hc
  refine ⟨h, ?_⟩
  rw [roundTrips_iff, h.exportReplaced_iff, h.format_iff hformat]
  simp [exportReplaced, valueAt?]

theorem read_replaced {before r after : List (String × Value)}
    (hkeys : ((before ++ ("__dict__", .record r) :: after).map (·.1)).Nodup)
    (hformat : NamesFormat after) {c : Config}
    (hc : ofValue (.record (before ++ ("__dict__", .record r) :: after)) = .ok c) :
    Updated (ofSettings r) after c ∧ (c.RoundTrips ↔ "to_dict" ∉ (r ++ after).map (·.1) ∧
      ("output_format" ∈ r.map (·.1) → "output_format" ∈ after.map (·.1))) := by
  rw [List.map_append, List.map_cons] at hkeys
  obtain ⟨hdict, hafter⟩ := List.nodup_cons.mp hkeys.of_append_right
  rw [ofValue, setAll_append] at hc
  obtain ⟨c₁, -, hc⟩ := bind_eq_ok_iff.mp hc
  rw [setAll, set_dict, ok_bind] at hc
  have h := setAll_updated hafter hformat hdict hc
  refine ⟨h, ?_⟩
  rw [roundTrips_iff, h.exportReplaced_iff, h.format_iff hformat, exportReplaced_ofSettings,
    format_ofSettings, List.map_append, List.mem_append, not_or, and_comm (a := "to_dict" ∉ _),
    or_comm, Classical.or_iff_not_imp_left, not_not]

/-- A record is read exactly if none of its keys names an attribute of configurations that is no
setting. Those attributes are given the values, or cannot be, and then nothing is read; the one for
writing a configuration leaves it unwritable, and the one for all attributes discards what was read
before it. -/
theorem config_reads {d : List (String × Value)} (hkeys : (d.map (·.1)).Nodup)
    (hformat : NamesFormat d) :
    ((∃ c, ofValue (.record d) = .ok c) ↔ ∀ e ∈ d, Settable e) ∧
    ("__dict__" ∉ d.map (·.1) →
      ((∃ c, ofValue (.record d) = .ok c ∧ ReadsExactly d c) ↔
        ∀ key ∈ d.map (·.1), key ∉ attributeNames ∧ key ≠ "__class__" ∧ key ≠ "__weakref__") ∧
      ∀ c, ofValue (.record d) = .ok c →
        Updated {} d c ∧ (c.RoundTrips ↔ "to_dict" ∉ d.map (·.1))) ∧
    ∀ before r after c, d = before ++ ("__dict__", .record r) :: after →
      ofValue (.record d) = .ok c →
      Updated (ofSettings r) after c ∧ (c.RoundTrips ↔ "to_dict" ∉ (r ++ after).map (·.1) ∧
        ("output_format" ∈ r.map (·.1) → "output_format" ∈ after.map (·.1))) := by
  have hreadable := setAll_ok_iff hformat {}
  refine ⟨hreadable, fun hdict => ⟨⟨?_, ?_⟩, fun c => read_plain hkeys hformat hdict⟩, ?_⟩
  · rintro ⟨c, hc, h, hnil, -⟩ key hkey
    obtain ⟨e, he, rfl⟩ := List.mem_map.mp hkey
    have hset := hreadable.mp ⟨c, hc⟩ e he
    exact ⟨(h.attributes_eq_nil_iff rfl).mp hnil _ hkey, hset.1, hset.2.1⟩
  · intro hplain
    have hset : ∀ e ∈ d, Settable e := fun e he => by
      have hkey := List.mem_map_of_mem (f := (·.1)) he
      exact ⟨(hplain _ hkey).2.1, (hplain _ hkey).2.2, fun heq => absurd (heq ▸ hkey) hdict⟩
    obtain ⟨c, hc⟩ := hreadable.mpr hset
    obtain ⟨h, hround⟩ := read_plain hkeys hformat hdict hc
    refine ⟨c, hc, h, (h.attributes_eq_nil_iff rfl).mpr fun key hkey => (hplain key hkey).1, ?_⟩
    exact hround.mpr fun hmem => (hplain _ hmem).1 (by decide)
  · rintro before r after c rfl hc
    exact read_replaced hkeys (fun v hv => hformat v (by simp [hv])) hc

def coloured : List (String × Value) :=
  [("json_indent", .int 4), ("colour", .text "red"), ("output_format", .text "json"), ("", .null)]

theorem config_reads_coloured : (coloured.map (·.1)).Nodup ∧ NamesFormat coloured ∧
    ∃ c, ofValue (.record coloured) = .ok c ∧ ReadsExactly coloured c := by
  have hkeys : (coloured.map (·.1)).Nodup := by decide
  have hformat : NamesFormat coloured := by
    intro v hv
    simp only [coloured, List.mem_cons, Prod.mk.injEq, List.not_mem_nil, or_false] at hv
    simp only [String.reduceEq, false_and, true_and, false_or, or_false] at hv
    exact ⟨.json, hv⟩
  refine ⟨hkeys, hformat, ?_⟩
  exact ((config_reads hkeys hformat).2.1 (by decide)).1.mpr (by decide)

theorem export_replaced : (ofValue (.record [("to_dict", .int 1)]) >>= toValue) =
      .error (.misuse .operationReplaced) ∧
    ¬∃ c, ofValue (.record [("to_dict", .int 1)]) = .ok c ∧ ReadsExactly [("to_dict", .int 1)] c := by
  refine ⟨rfl, ?_⟩
  rintro ⟨c, hc, -, hnil, -⟩
  cases hc
  cases hnil

end Config

end SchemaCompiler
