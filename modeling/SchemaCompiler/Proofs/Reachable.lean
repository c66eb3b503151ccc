import SchemaCompiler.Proofs.Changes
import SchemaCompiler.Proofs.Registration

namespace SchemaCompiler

open Work

/-- From one state to another by any operations. -/
inductive Leads : Workspace → Workspace → Prop
  | refl (w : Workspace) : Leads w w
  | trans {u v w : Workspace} : Leads u v → Leads v w → Leads u w
  | compile (w : Workspace) (o : Options) (node : Node)
    (build : ∀ b, o.builder = some b → ∀ node name v, Leads v ((b node name).after v)) :
    Leads w ((compileModel o node).after w)
  | buildEnum (w : Workspace) (o : Options) (key : Value) (source : EnumSource) :
    Leads w ((fieldEnum o key source).after w)
  | registerEnum (w : Workspace) (registry : Key) (name : Value) (entries : List (Value × Value))
    (description : Value) : Leads w ((registerEntries registry name entries description).after w)
  | registerObject (w : Workspace) (registry : Key) (name : Value) (c : ClassHandle)
    (description : Value) (made : (w.class? c).isSome) :
    Leads w ((registerObject registry name c description).after w)
  | clearRegistry (w : Workspace) (id : Key) : Leads w (w.setRegistry id {})
  | clearMemo (w : Workspace) (id : Key) : Leads w (w.setMemo id {})
  | elsewhere {w w' : Workspace} (registries : w'.registries = w.registries)
    (memos : w'.memos = w.memos) (enumCount : w.enumCount ≤ w'.enumCount)
    (classes : w.classes.length ≤ w'.classes.length)
    (lines : ∀ m ∈ w'.classes, ∀ s, .cls s ∈ m.line → s < w'.classes.length) : Leads w w'

def Reached (w : Workspace) : Prop := Leads {} w

/-- Enums are told apart by their serial numbers, and all classes that are named exist. -/
structure Coherent (w : Workspace) : Prop where
  counted : ∀ e, HasEnum w e → e.serial < w.enumCount
  told : ∀ e f, HasEnum w e → HasEnum w f → e.serial = f.serial → e = f
  made : ∀ id, ∀ entry ∈ (w.registries id).entries, ∀ c, entry.type = .object c →
    c.serial < w.classes.length
  lines : ∀ m ∈ w.classes, ∀ s, .cls s ∈ m.line → s < w.classes.length

theorem mem_registries_add {w : Workspace} {id id' : Key} {new entry : Registry.Entry}
    (h : entry ∈ ((w.setRegistry id ((w.registries id).add new)).registries id').entries) :
    entry ∈ (w.registries id').entries ∨ entry = new := by
  by_cases hid : id' = id
  · subst hid
    simpa [Workspace.setRegistry, Registry.add] using h
  · simp only [Workspace.setRegistry, update_of_ne _ _ hid] at h
    exact .inl h

namespace Coherent

variable {w : Workspace}

theorem empty : Coherent {} := by
  constructor
  · rintro e (⟨id, entry, he, _⟩ | ⟨id, key, he⟩) <;> cases he
  · rintro e f (⟨id, entry, he, _⟩ | ⟨id, key, he⟩) <;> cases he
  · intro id entry he
    cases he
  · intro m hm
    cases hm

theorem of_fewer {w' : Workspace} (h : Coherent w) (enums : ∀ e, HasEnum w' e → HasEnum w e)
    (entries : ∀ id, (w'.registries id).entries ⊆ (w.registries id).entries)
    (enumCount : w.enumCount ≤ w'.enumCount) (classes : w.classes.length ≤ w'.classes.length)
    (lines : ∀ m ∈ w'.classes, ∀ s, .cls s ∈ m.line → s < w'.classes.length) : Coherent w' := by
  constructor
  · intro e he
    have := h.counted e (enums e he)
    omega
  · intro e f he hf
    exact h.told e f (enums e he) (enums f hf)
  · intro id entry hentry c hc
    have := h.made id entry (entries id hentry) c hc
    omega
  · exact lines

theorem withClass (h : Coherent w) {c : ModelClass} (hl : c.line = [.modelBase]) :
    Coherent (w.withClass c) := by
  have hlen : (w.withClass c).classes.length = w.classes.length + 1 := by simp [Workspace.withClass]
  refine h.of_fewer (fun _ he => he) (fun _ => List.Subset.refl _) (Nat.le_refl _) (by omega) ?_
  intro m hm s hs
  rcases List.mem_append.mp hm with hm | hm
  · have := h.lines m hm s hs
    omega
  · rw [List.mem_singleton.mp hm, hl] at hs
    simp at hs

theorem withEnum (h : Coherent w) (registry : Key) {e : EnumType} (he : e.serial = w.enumCount) :
    Coherent (w.withEnum registry e) := by
  have has (f : EnumType) (hf : HasEnum (w.withEnum registry e) f) : HasEnum w f ∨ e = f := by
    rcases HasEnum.of_add (w := { w with enumCount := w.enumCount + 1 }) hf with hf | hf
    · exact .inl hf
    · cases hf
      exact .inr rfl
  have hcount : (w.withEnum registry e).enumCount = w.enumCount + 1 := rfl
  constructor
  · intro f hf
    rcases has f hf with hf | rfl
    · have := h.counted f hf
      omega
    · omega
  · intro f g hf hg hs
    rcases has f hf with hf | rfl
    · rcases has g hg with hg | rfl
      · exact h.told f g hf hg hs
      · have := h.counted f hf
        omega
    · rcases has g hg with hg | rfl
      · have := h.counted g hg
        omega
      · rfl
  · intro id entry hentry c hc
    rcases mem_registries_add (w := { w with enumCount := w.enumCount + 1 }) hentry with hm | rfl
    · exact h.made id entry hm c hc
    · cases hc
  · exact h.lines

theorem withObject (h : Coherent w) (registry key : Key) (name : String) {c : ClassHandle}
    (description : Value) (hc : c.serial < w.classes.length) :
    Coherent (w.withObject registry key name c description) := by
  have has (f : EnumType) (hf : HasEnum (w.withObject registry key name c description) f) :
      HasEnum w f := by
    rcases HasEnum.of_add hf with hf | hf
    · exact hf
    · cases hf
  constructor
  · exact fun f hf => h.counted f (has f hf)
  · exact fun f g hf hg => h.told f g (has f hf) (has g hg)
  · intro id entry hentry d hd
    rcases mem_registries_add hentry with hm | rfl
    · exact h.made id entry hm d hd
    · cases hd
      exact hc
  · exact h.lines

theorem withMemo (h : Coherent w) (memo registry : Key) (name key : String) {e : EnumType}
    (he : HasEnum w e) : Coherent (w.withMemo memo registry name key e) := by
  refine h.of_fewer (fun f hf => ?_) (fun _ => List.Subset.refl _) (Nat.le_refl _) (Nat.le_refl _)
    h.lines
  have hput : HasEnum (w.setMemo memo ((w.memos memo).put (registry, .text name) e)) f := hf
  rcases hput.of_put with hf | rfl
  · exact hf
  · exact he

theorem clearMemo (h : Coherent w) (id : Key) : Coherent (w.setMemo id {}) :=
  h.of_fewer (fun _ he => he.of_clearMemo) (fun _ => List.Subset.refl _) (Nat.le_refl _)
    (Nat.le_refl _) h.lines

end Coherent

theorem HasEnum.of_get? {w : Workspace} {id name : Key} {e : EnumType}
    (h : (w.registries id).get? name = some (.enum e)) : HasEnum w e := by
  obtain ⟨entry, he, _, ht⟩ := Registry.mem_of_get? h
  exact .inl ⟨id, entry, he, ht⟩

theorem Change.coherent {registry memo sequence : Key} {size : Nat} {w w' : Workspace}
    (h : Change registry memo sequence size w w') (hc : Coherent w) : Coherent w' := by
  cases h with
  | draw next => exact ⟨hc.counted, hc.told, hc.made, hc.lines⟩
  | note e => exact ⟨hc.counted, hc.told, hc.made, hc.lines⟩
  | addClass c line source => exact hc.withClass line
  | addEnum e serial fresh => exact hc.withEnum registry serial
  | addObject c m description fresh made line source =>
    exact hc.withObject registry _ _ description (List.getElem?_eq_some_iff.mp made).1
  | remember name key e held => exact hc.withMemo memo registry name key (.of_get? held)

namespace Grows

variable {v w : Workspace}

theorem of_same (registries : w.registries = v.registries) (classes : w.classes = v.classes) :
    Grows v w :=
  ⟨fun _ => registries ▸ List.prefix_rfl, classes ▸ List.prefix_rfl⟩

theorem withClass (w : Workspace) (c : ModelClass) : Grows w (w.withClass c) :=
  ⟨fun _ => List.prefix_rfl, List.prefix_append _ _⟩

theorem withEnum (w : Workspace) (registry : Key) (e : EnumType) : Grows w (w.withEnum registry e) := by
  obtain ⟨entries, classes⟩ := add w registry ⟨.text e.name, .enum e, e.description⟩
  exact ⟨entries, classes⟩

theorem withObject (w : Workspace) (registry key : Key) (name : String) (c : ClassHandle)
    (description : Value) : Grows w (w.withObject registry key name c description) := by
  obtain ⟨entries, classes⟩ := add w registry ⟨key, .object c, description⟩
  exact ⟨entries, classes⟩

end Grows

theorem registerEntries_cases (w : Workspace) (registry : Key) (name : Value)
    (entries : List (Value × Value)) (description : Value) :
    (∃ e, registerEntries registry name entries description w = .error e w) ∨
    (∃ e, registerEntries registry name entries description w = .ok e w) ∨
    ∃ e, e.serial = w.enumCount ∧
      registerEntries registry name entries description w = .ok e (w.withEnum registry e) := by
  unfold registerEntries
  generalize EnumType.textNamed entries = members
  by_cases hl : members.length = entries.length
  · rw [if_pos hl]
    by_cases hn : ∃ s, name = .text s
    · obtain ⟨s, rfl⟩ := hn
      rw [registerEnum_text]
      cases (w.registries registry).get? (.text s) with
      | none =>
        cases EnumType.misuse? (.text s) members with
        | some m => exact .inl ⟨_, rfl⟩
        | none => exact .inr (.inr ⟨_, rfl, rfl⟩)
      | some t =>
        cases t with
        | object c => exact .inl ⟨_, rfl⟩
        | enum e =>
          dsimp only
          by_cases hs : Value.sameRecord e.members members = true
          · exact .inr (.inl ⟨e, if_pos hs⟩)
          · exact .inl ⟨_, if_neg hs⟩
    · have hafter : (registerEnum registry name members description).after w = w :=
        registerEnum_of_not_text w (fun s hs => hn ⟨s, hs⟩) members description
      cases hr : registerEnum registry name members description w with
      | ok e w' =>
        rw [after_of_ok hr] at hafter
        exact .inr (.inl ⟨e, by rw [hafter]⟩)
      | error e w' =>
        rw [after_of_error hr] at hafter
        exact .inl ⟨e, by rw [hafter]⟩
  · rw [if_neg hl, bind_apply, registeredAs_eq]
    left
    cases name.key? with
    | none => exact ⟨_, rfl⟩
    | some key =>
      dsimp only
      by_cases hg : ((w.registries registry).get? key).isSome = true
      · exact ⟨_, by rw [if_pos hg]; rfl⟩
      · exact ⟨_, by rw [if_neg hg]; rfl⟩

theorem registerObject_cases (w : Workspace) (registry : Key) (name : Value) (c : ClassHandle)
    (description : Value) :
    (∃ e, registerObject registry name c description w = .error e w) ∨
    registerObject registry name c description w = .ok c w ∨
    ∃ key, registerObject registry name c description w =
      .ok c (w.withObject registry key name.display c description) := by
  rw [registerObject_eq]
  cases name.key? with
  | none => exact .inl ⟨_, rfl⟩
  | some key =>
    dsimp only
    cases (w.registries registry).get? key with
    | none => exact .inr (.inr ⟨key, rfl⟩)
    | some t =>
      cases t with
      | enum e => exact .inl ⟨_, rfl⟩
      | object d =>
        dsimp only
        by_cases hd : d.serial = c.serial
        · exact .inr (.inl (if_pos hd))
        · exact .inl ⟨_, if_neg hd⟩

theorem coherent_registerEntries {w : Workspace} (hc : Coherent w) (registry : Key) (name : Value)
    (entries : List (Value × Value)) (description : Value) :
    Coherent ((registerEntries registry name entries description).after w) := by
  rcases registerEntries_cases w registry name entries description with ⟨e, h⟩ | ⟨e, h⟩ | ⟨e, hs, h⟩
  · rw [after_of_error h]
    exact hc
  · rw [after_of_ok h]
    exact hc
  · rw [after_of_ok h]
    exact hc.withEnum registry hs

theorem coherent_registerObject {w : Workspace} (hc : Coherent w) (registry : Key) (name : Value)
    {c : ClassHandle} (description : Value) (made : (w.class? c).isSome) :
    Coherent ((registerObject registry name c description).after w) := by
  rcases registerObject_cases w registry name c description with ⟨e, h⟩ | h | ⟨key, h⟩
  · rw [after_of_error h]
    exact hc
  · rw [after_of_ok h]
    exact hc
  · rw [after_of_ok h]
    obtain ⟨m, hm⟩ := Option.isSome_iff_exists.mp made
    exact hc.withObject registry key _ description (List.getElem?_eq_some_iff.mp hm).1

theorem admits_coherent {o : Options} (size : Nat)
    (build : ∀ b, o.builder = some b → ∀ node name v, Coherent v → Coherent ((b node name).after v)) :
    Admits (fun v v' => Coherent v → Coherent v') o size :=
  ⟨fun _ => id, fun hu hv h => hv (hu h), Change.coherent, build⟩

theorem Leads.coherent {w w' : Workspace} (h : Leads w w') (hc : Coherent w) : Coherent w' := by
  induction h with
  | refl w => exact hc
  | trans _ _ ihu ihv => exact ihv (ihu hc)
  | compile w o node build ih =>
    exact compileModel_admits (admits_coherent (sizeOf node) ih) w hc
  | buildEnum w o key source =>
    have hadmits := admits_coherent (o := { o with builder := none }) 0 nofun
    exact hadmits.fieldEnum key source hc
  | registerEnum w registry name entries description =>
    exact coherent_registerEntries hc registry name entries description
  | registerObject w registry name c description made =>
    exact coherent_registerObject hc registry name description made
  | clearRegistry w id =>
    refine hc.of_fewer (fun _ he => he.of_clearRegistry) (fun id' => ?_) (Nat.le_refl _)
      (Nat.le_refl _) hc.lines
    by_cases hid : id' = id
    · simp [Workspace.setRegistry, hid]
    · simp [Workspace.setRegistry, update_of_ne _ _ hid]
  | clearMemo w id => exact hc.clearMemo id
  | @elsewhere w w' registries memos enumCount classes lines =>
    refine hc.of_fewer (fun e he => ?_) (fun id => ?_) enumCount classes lines
    · unfold HasEnum at he ⊢
      rwa [registries, memos] at he
    · rw [registries]
      exact List.Subset.refl _

theorem Reached.coherent {w : Workspace} (h : Reached w) : Coherent w := Leads.coherent h .empty

end SchemaCompiler
