import SchemaCompiler.Proofs.Model.Fields
import SchemaCompiler.Proofs.Reachable

namespace SchemaCompiler

open Work

variable {w : Workspace} {o : Options} {key : Value} {source : EnumSource}

theorem get?_of_currentEnum? (hc : Coherent w) {name : String} {members : List (String × Value)}
    {e : EnumType} (h : currentEnum? w o name members = some e) :
    (w.registries o.registry).get? (.text name) = some (.enum e) ∧
      Value.sameRecord e.members members = true := by
  obtain ⟨hm, hcur⟩ := Option.filter_eq_some_iff.mp h
  obtain ⟨hsame, hheld⟩ := Bool.and_eq_true_iff.mp hcur
  split at hheld
  · rename_i held hg
    have hs : held.serial = e.serial := by simpa using hheld
    rw [hc.told held e (.of_get? hg) (.inr ⟨_, _, hm⟩) hs] at hg
    exact ⟨hg, hsame⟩
  · cases hheld

def registerOutline (o : Options) (key : Value) (source : EnumSource) : Work EnumType := do
  let (name, members) ← Work.ofExcept (enumOutline o key source)
  registerEnum o.registry (.text name) members source.description

theorem registerOutline_of_outline {name : String} {members : List (String × Value)}
    (h : enumOutline o key source = .ok (name, members)) (w : Workspace) :
    registerOutline o key source w =
      registerEnum o.registry (.text name) members source.description w := by
  unfold registerOutline
  rw [h]
  rfl

theorem registerOutline_of_error {e : Failure} (h : enumOutline o key source = .error e)
    (w : Workspace) : registerOutline o key source w = .error e w := by
  unfold registerOutline
  rw [h]
  rfl

theorem registerEnum_ok {registry : Key} {name : String} {members : List (String × Value)}
    {description : Value} {e : EnumType} {w' : Workspace}
    (h : registerEnum registry (.text name) members description w = .ok e w') :
    (w'.registries registry).get? (.text name) = some (.enum e) ∧
      (e.members = members ∨ Value.sameRecord e.members members = true) := by
  rw [registerEnum_text] at h
  cases hg : (w.registries registry).get? (.text name) with
  | some t =>
    rw [hg] at h
    cases t with
    | object c => cases h
    | enum held =>
      dsimp only at h
      by_cases hs : Value.sameRecord held.members members = true
      · rw [if_pos hs] at h
        cases h
        exact ⟨hg, .inr hs⟩
      · rw [if_neg hs] at h
        cases h
  | none =>
    rw [hg] at h
    cases hm : EnumType.misuse? (.text name) members with
    | some m =>
      rw [hm] at h
      cases h
    | none =>
      rw [hm] at h
      cases h
      refine ⟨?_, .inl rfl⟩
      simp only [Workspace.withEnum, Workspace.setRegistry, update_same]
      exact Registry.get?_add_same hg

theorem registerEnum_error {registry : Key} {name : String} {members : List (String × Value)}
    {description : Value} {e : Failure} {w' : Workspace}
    (h : registerEnum registry (.text name) members description w = .error e w') : w' = w := by
  rw [registerEnum_text] at h
  cases hg : (w.registries registry).get? (.text name) with
  | some t =>
    rw [hg] at h
    cases t with
    | object c =>
      cases h
      rfl
    | enum held =>
      dsimp only at h
      by_cases hs : Value.sameRecord held.members members = true
      · rw [if_pos hs] at h
        cases h
      · rw [if_neg hs] at h
        cases h
        rfl
  | none =>
    rw [hg] at h
    cases hm : EnumType.misuse? (.text name) members with
    | some m =>
      rw [hm] at h
      cases h
      rfl
    | none =>
      rw [hm] at h
      cases h

theorem fieldEnum_of_registerOutline_ok (hc : Coherent w) {e : EnumType} {w₁ : Workspace}
    (h : registerOutline o key source w = .ok e w₁) :
    ∃ memos events, fieldEnum o key source w = .ok e { w₁ with memos, events } := by
  cases ho : enumOutline o key source with
  | error f =>
    rw [registerOutline_of_error ho] at h
    cases h
  | ok outline =>
    obtain ⟨name, members⟩ := outline
    rw [registerOutline_of_outline ho] at h
    rw [fieldEnum_eq, ho]
    dsimp only
    cases hcur : currentEnum? w o name members with
    | none =>
      rw [h]
      exact ⟨_, _, rfl⟩
    | some held =>
      obtain ⟨hg, hs⟩ := get?_of_currentEnum? hc hcur
      rw [registerEnum_text, hg] at h
      dsimp only at h
      rw [if_pos hs] at h
      cases h
      exact ⟨_, _, rfl⟩

theorem fieldEnum_of_registerOutline_error (hc : Coherent w) {e : Failure} {w₁ : Workspace}
    (h : registerOutline o key source w = .error e w₁) :
    w₁ = w ∧ fieldEnum o key source w = .error e w := by
  rw [fieldEnum_eq]
  cases ho : enumOutline o key source with
  | error f =>
    rw [registerOutline_of_error ho] at h
    cases h
    exact ⟨rfl, rfl⟩
  | ok outline =>
    obtain ⟨name, members⟩ := outline
    rw [registerOutline_of_outline ho] at h
    have hw := registerEnum_error h
    dsimp only
    cases hcur : currentEnum? w o name members with
    | none =>
      rw [h]
      exact ⟨hw, by rw [hw]⟩
    | some held =>
      obtain ⟨hg, hs⟩ := get?_of_currentEnum? hc hcur
      rw [registerEnum_text, hg] at h
      dsimp only at h
      rw [if_pos hs] at h
      cases h

theorem fieldType_of_fieldEnum (o : Options) (key : Value) (node : Node) {c : Classification}
    {lists : Nat} (ht : c.type = OutputType.placeholder.wrap lists) (hs : c.enumSource = some source)
    (w : Workspace) : fieldType o key node c w =
      match fieldEnum o key source w with
      | .ok e w' => .ok ((OutputType.enum e).wrap lists) w'
      | .error e w' => .error e w' := by
  unfold fieldType
  rw [hs, ht]
  dsimp only
  rw [bind_apply]
  cases fieldEnum o key source w with
  | error e w' => rfl
  | ok e w' =>
    change EStateM.Result.ok ((OutputType.placeholder.wrap lists).fill e) w' = _
    rw [fill_wrap]

/-- In every state that can be reached, the enum of a field is the one that registering its name and
members gives, and fails as that does. An enum takes the open place below all lists; a failure
changes nothing. -/
theorem fieldEnum_transparent (h : Reached w) (o : Options) (key : Value) (source : EnumSource)
    (node : Node) (c : Classification) (lists : Nat)
    (htype : c.type = OutputType.placeholder.wrap lists) (hsource : c.enumSource = some source) :
    match registerOutline o key source w with
    | .ok e w₁ => ∃ name members w₂,
        enumOutline o key source = .ok (name, members) ∧
        fieldEnum o key source w = .ok e w₂ ∧
        fieldType o key node c w = .ok ((OutputType.enum e).wrap lists) w₂ ∧
        w₂.registries = w₁.registries ∧
        (w₂.registries o.registry).get? (.text name) = some (.enum e) ∧
        (e.members = members ∨ Value.sameRecord e.members members = true)
    | .error f w₁ => w₁ = w ∧ fieldEnum o key source w = .error f w ∧
        fieldType o key node c w = .error f w := by
  have hfield := fieldType_of_fieldEnum o key node htype hsource w
  cases hr : registerOutline o key source w with
  | error f w₁ =>
    obtain ⟨hw, he⟩ := fieldEnum_of_registerOutline_error h.coherent hr
    rw [he] at hfield
    exact ⟨hw, he, hfield⟩
  | ok e w₁ =>
    obtain ⟨memos, events, he⟩ := fieldEnum_of_registerOutline_ok h.coherent hr
    rw [he] at hfield
    cases ho : enumOutline o key source with
    | error f =>
      rw [registerOutline_of_error ho] at hr
      cases hr
    | ok outline =>
      obtain ⟨name, members⟩ := outline
      rw [registerOutline_of_outline ho] at hr
      obtain ⟨hget, hmembers⟩ := registerEnum_ok hr
      exact ⟨name, members, _, rfl, he, hfield, rfl, hget, hmembers⟩

def stateOptions : Options := { enumName := some fun _ _ => .ok "State" }

def stateSource : EnumSource := ⟨.null, .list [.text "on"]⟩

def forgotten : Workspace :=
  (registerEntries .null (.text "State") [(.text "ON", .text "on")] .null).after
    (((fieldEnum stateOptions (.text "state") stateSource).after {}).setRegistry .null {})

theorem reached_forgotten : Reached forgotten := by
  have built := Leads.buildEnum {} stateOptions (.text "state") stateSource
  have emptied := built.trans (.clearRegistry _ .null)
  exact emptied.trans (.registerEnum _ .null (.text "State") [(.text "ON", .text "on")] .null)

theorem fieldEnum_transparent_forgotten :
    ((forgotten.memos .null).get? (.null, .text "State")).map (·.serial) = some 0 ∧
    ∃ e w₂, e.serial = 1 ∧ fieldEnum stateOptions (.text "state") stateSource forgotten = .ok e w₂ ∧
      fieldType stateOptions (.text "state") (.enum {} (.list [.text "on"]))
        ((Classification.ofEnum {} (.list [.text "on"])).array {}) forgotten =
          .ok (.list (.enum e)) w₂ := by
  obtain ⟨name, members, w₂, -, he, ht, -⟩ := fieldEnum_transparent reached_forgotten stateOptions
    (.text "state") stateSource (.enum {} (.list [.text "on"]))
    ((Classification.ofEnum {} (.list [.text "on"])).array {}) 1 rfl rfl
  exact ⟨rfl, _, w₂, rfl, he, ht⟩

end SchemaCompiler
