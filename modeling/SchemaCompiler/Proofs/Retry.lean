import SchemaCompiler.Proofs.Reachable

namespace SchemaCompiler

open Work

def Remembered (registry memo : Key) (w : Workspace) (name : String) (e : EnumType) : Prop :=
  (w.memos memo).get? (registry, .text name) = some e ∧
    (w.registries registry).get? (.text name) = some (.enum e)

structure Kept (registry memo : Key) (w w' : Workspace) : Prop where
  held : ∀ name t, (w.registries registry).get? name = some t →
    (w'.registries registry).get? name = some t
  remembered : ∀ name e, Remembered registry memo w name e → Remembered registry memo w' name e
  classes : w.classes <+: w'.classes

structure Grown (registry memo : Key) (size : Nat) (w w' : Workspace) : Prop
    extends Kept registry memo w w' where
  added : ∀ name c, (w.registries registry).get? name = none →
    (w'.registries registry).get? name = some (.object c) →
    ∃ m, w'.class? c = some m ∧ m.line = [.modelBase] ∧ ∀ n, m.source = some n → sizeOf n ≤ size

variable {registry memo : Key} {size : Nat} {u v w : Workspace}

namespace Kept

theorem refl (w : Workspace) : Kept registry memo w w :=
  ⟨fun _ _ h => h, fun _ _ h => h, List.prefix_rfl⟩

theorem trans (h : Kept registry memo u v) (k : Kept registry memo v w) : Kept registry memo u w :=
  ⟨fun name t ht => k.held name t (h.held name t ht),
    fun name e he => k.remembered name e (h.remembered name e he), h.classes.trans k.classes⟩

theorem class? (h : Kept registry memo v w) {c : ClassHandle} {m : ModelClass}
    (hm : v.class? c = some m) : w.class? c = some m := by
  obtain ⟨rest, hr⟩ := h.classes
  obtain ⟨hlt, _⟩ := List.getElem?_eq_some_iff.mp hm
  rw [Workspace.class?, ← hr, List.getElem?_append_left hlt]
  exact hm

end Kept

namespace Grown

theorem refl (w : Workspace) : Grown registry memo size w w where
  toKept := .refl w
  added name c hnone hsome := by
    rw [hnone] at hsome
    cases hsome

theorem trans (h : Grown registry memo size u v) (k : Grown registry memo size v w) :
    Grown registry memo size u w where
  toKept := h.toKept.trans k.toKept
  added name c hnone hsome := by
    cases hv : (v.registries registry).get? name with
    | none => exact k.added name c hv hsome
    | some t =>
      have ht := k.held name t hv
      rw [hsome] at ht
      cases ht
      obtain ⟨m, hm, hr⟩ := h.added name c hnone hv
      exact ⟨m, k.class? hm, hr⟩

end Grown

theorem Grown.mono {more : Nat} (h : Grown registry memo size v w) (hs : size ≤ more) :
    Grown registry memo more v w where
  toKept := h.toKept
  added name c hnone hsome := by
    obtain ⟨m, hm, hl, hsmall⟩ := h.added name c hnone hsome
    exact ⟨m, hm, hl, fun n hn => Nat.le_trans (hsmall n hn) hs⟩

theorem Kept.add (registry memo : Key) (w : Workspace) (entry : Registry.Entry) :
    Kept registry memo w (w.setRegistry registry ((w.registries registry).add entry)) := by
  have held (name : Key) (t : NamedType) (h : (w.registries registry).get? name = some t) :
      ((w.setRegistry registry ((w.registries registry).add entry)).registries registry).get? name =
        some t := by
    simp only [Workspace.setRegistry, update_same]
    exact Registry.get?_add_of_some h
  exact ⟨held, fun name e he => ⟨he.1, held _ _ he.2⟩, List.prefix_rfl⟩

theorem Grown.of_same (h : Kept registry memo v w) (hr : w.registries = v.registries) :
    Grown registry memo size v w where
  toKept := h
  added name c hnone hsome := by
    rw [hr, hnone] at hsome
    cases hsome

theorem get?_setRegistry_add {entry : Registry.Entry} {name : Key} {t : NamedType}
    (hnone : (w.registries registry).get? name = none)
    (h : ((w.setRegistry registry ((w.registries registry).add entry)).registries registry).get? name =
      some t) : t = entry.type := by
  simp only [Workspace.setRegistry, update_same] at h
  by_cases hn : name = entry.name
  · subst hn
    rw [Registry.get?_add_same hnone] at h
    exact (Option.some.inj h).symm
  · rw [Registry.get?_add_other hn, hnone] at h
    cases h

theorem Change.grown {sequence : Key} (h : Change registry memo sequence size v w) :
    Grown registry memo size v w := by
  cases h with
  | draw next => exact .of_same ⟨fun _ _ h => h, fun _ _ h => h, List.prefix_rfl⟩ rfl
  | note e => exact .of_same ⟨fun _ _ h => h, fun _ _ h => h, List.prefix_rfl⟩ rfl
  | addClass c line source =>
    exact .of_same ⟨fun _ _ h => h, fun _ _ h => h, List.prefix_append _ _⟩ rfl
  | addEnum e serial fresh =>
    have hk : Kept registry memo v (v.withEnum registry e) := by
      obtain ⟨held, remembered, classes⟩ := Kept.add registry memo v
        ⟨.text e.name, .enum e, e.description⟩
      exact ⟨held, remembered, classes⟩
    refine ⟨hk, fun name c hnone hsome => ?_⟩
    cases get?_setRegistry_add hnone hsome
  | addObject c m description fresh made line source =>
    have hk : Kept registry memo v (v.withObject registry (.text c.name) c.name c description) := by
      obtain ⟨held, remembered, classes⟩ := Kept.add registry memo v
        ⟨.text c.name, .object c, description⟩
      exact ⟨held, remembered, classes⟩
    refine ⟨hk, fun name d hnone hsome => ?_⟩
    cases get?_setRegistry_add hnone hsome
    exact ⟨m, made, line, source⟩
  | remember name key e held =>
    refine .of_same ⟨fun _ _ h => h, fun other f hf => ⟨?_, hf.2⟩, List.prefix_rfl⟩ rfl
    simp only [Workspace.withMemo, Workspace.setMemo, update_same]
    by_cases hn : other = name
    · subst hn
      rw [EnumMemo.get?_put_same, ← NamedType.enum.inj (Option.some.inj (held.symm.trans hf.2))]
    · rw [EnumMemo.get?_put_other _ _ (by simpa using hn)]
      exact hf.1

def Advances (registry memo : Key) (size : Nat) (w w' : Workspace) : Prop :=
  (Coherent w → Coherent w') ∧ Grown registry memo size w w'

theorem Advances.mono {more : Nat} (h : Advances registry memo size v w) (hs : size ≤ more) :
    Advances registry memo more v w := ⟨h.1, h.2.mono hs⟩

theorem admits_advances {o : Options} (ho : o.builder = none) (size : Nat) :
    Admits (Advances o.registry o.memo size) o size where
  refl w := ⟨id, .refl w⟩
  trans h k := ⟨fun hc => k.1 (h.1 hc), h.2.trans k.2⟩
  change h := ⟨h.coherent, h.grown⟩
  build b hb := by
    rw [ho] at hb
    cases hb

/-- Work that, done in a state, comes to a result again in every later state unless it fails there,
or that fails, and fails again in the state left. Done again it changes nothing. -/
def Settles {α : Type} (registry memo : Key) (x : Work α) (w : Workspace) : Prop :=
  Ends x w
    (fun a w' => Coherent w' ∧ Kept registry memo w w' ∧
      ∀ v, Kept registry memo w' v → x v = .ok a v ∨ ∃ e, x v = .error e v)
    (fun _ w' => Coherent w' ∧ Kept registry memo w w' ∧ ∃ e, x w' = .error e w')

namespace Settles

variable {α β : Type}

theorem pure (hc : Coherent w) (a : α) : Settles registry memo (pure a) w :=
  ⟨hc, .refl w, fun _ _ => .inl rfl⟩

theorem throw (hc : Coherent w) (e : Failure) : Settles registry memo (throw e : Work α) w :=
  ⟨hc, .refl w, e, rfl⟩

theorem ofExcept (hc : Coherent w) (x : Except Failure α) :
    Settles registry memo (Work.ofExcept x) w := by
  cases x with
  | ok a => exact .pure hc a
  | error e => exact .throw hc e

theorem bind {x : Work α} {f : α → Work β} (hx : Settles registry memo x w)
    (hf : ∀ a w', x w = .ok a w' → Coherent w' → Settles registry memo (f a) w') :
    Settles registry memo (x >>= f) w := by
  unfold Settles Ends at hx hf ⊢
  rw [bind_apply]
  cases hr : x w with
  | error e w1 =>
    rw [hr] at hx
    obtain ⟨hc, hk, e', he⟩ := hx
    exact ⟨hc, hk, e', by rw [bind_apply, he]⟩
  | ok a w1 =>
    rw [hr] at hx
    obtain ⟨hc1, hk1, hagain⟩ := hx
    have hf := hf a w1 hr hc1
    dsimp only
    -- Where the first part comes to its result again, it does so without a change, and what follows
    -- runs in that very state.
    cases hs : f a w1 with
    | error e w2 =>
      rw [hs] at hf
      obtain ⟨hc2, hk2, e', he⟩ := hf
      refine ⟨hc2, hk1.trans hk2, ?_⟩
      rcases hagain w2 hk2 with h | ⟨e'', h⟩
      · exact ⟨e', by rw [bind_apply, h]; exact he⟩
      · exact ⟨e'', by rw [bind_apply, h]⟩
    | ok b w2 =>
      rw [hs] at hf
      obtain ⟨hc2, hk2, hagain2⟩ := hf
      refine ⟨hc2, hk1.trans hk2, fun v hv => ?_⟩
      rcases hagain v (hk2.trans hv) with h | ⟨e', h⟩
      · rw [bind_apply, h]
        exact hagain2 v hv
      · exact .inr ⟨e', by rw [bind_apply, h]⟩

end Settles

end SchemaCompiler
