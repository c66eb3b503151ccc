import SchemaCompiler.Proofs.Work

namespace SchemaCompiler

open Work

/-- A type that is a scalar or is among the entries, lists aside. -/
def Known (entries : List Registry.Entry) (type : OutputType) : Prop :=
  (∃ s, type.leaf = .scalar s) ∨ ∃ e ∈ entries, type.leaf = e.type.toOutput

structure Placed (classes : List ModelClass) (before : List Registry.Entry)
    (entry : Registry.Entry) : Prop where
  named : entry.name = .text entry.type.name
  fresh : ∀ e ∈ before, e.name ≠ entry.name
  known : ∀ c, entry.type = .object c → ∃ m, classes[c.serial]? = some m ∧ m.name = c.name ∧
    ∀ f ∈ m.fields, Known before f.type

def Ordered (classes : List ModelClass) (entries : List Registry.Entry) : Prop :=
  ∀ i entry, entries[i]? = some entry → Placed classes (entries.take i) entry

def HasEnum (w : Workspace) (e : EnumType) : Prop :=
  (∃ id, ∃ entry ∈ (w.registries id).entries, entry.type = .enum e) ∨
    ∃ id key, (w.memos id).get? key = some e

structure Closed (w : Workspace) : Prop where
  ordered : ∀ id, Ordered w.classes (w.registries id).entries
  counted : ∀ e, HasEnum w e → e.serial < w.enumCount
  told : ∀ e f, HasEnum w e → HasEnum w f → e.serial = f.serial → e = f

structure Grows (w w' : Workspace) : Prop where
  entries : ∀ id, (w.registries id).entries <+: (w'.registries id).entries
  classes : w.classes <+: w'.classes

/-- Work that leaves a closed state closed, and adds to it only, also where it fails. -/
def Keeps {α : Type} (x : Work α) (w : Workspace) (Q : α → Workspace → Prop) : Prop :=
  Ends x w (fun a w' => Closed w' ∧ Grows w w' ∧ Q a w') fun _ w' => Closed w' ∧ Grows w w'

theorem Known.mono {entries others : List Registry.Entry} {type : OutputType} (h : Known entries type)
    (hs : entries ⊆ others) : Known others type := by
  rcases h with hs' | ⟨e, he, hl⟩
  · exact .inl hs'
  · exact .inr ⟨e, hs he, hl⟩

theorem Closed.of_fewer {w w' : Workspace} (h : Closed w)
    (ordered : ∀ id, Ordered w'.classes (w'.registries id).entries)
    (count : w.enumCount ≤ w'.enumCount) (fewer : ∀ e, HasEnum w' e → HasEnum w e) : Closed w' :=
  ⟨ordered, fun e he => Nat.lt_of_lt_of_le (h.counted e (fewer e he)) count,
    fun e f he hf => h.told e f (fewer e he) (fewer f hf)⟩

namespace Grows

theorem refl (w : Workspace) : Grows w w :=
  ⟨fun _ => List.prefix_rfl, List.prefix_rfl⟩

theorem trans {w w' w'' : Workspace} (h : Grows w w') (k : Grows w' w'') : Grows w w'' :=
  ⟨fun id => (h.entries id).trans (k.entries id), h.classes.trans k.classes⟩

theorem add (w : Workspace) (id : Key) (entry : Registry.Entry) :
    Grows w (w.setRegistry id ((w.registries id).add entry)) := by
  refine ⟨fun id' => ?_, List.prefix_rfl⟩
  by_cases hid : id' = id
  · subst hid
    simp only [Workspace.setRegistry, update_same]
    exact List.prefix_append _ _
  · simp only [Workspace.setRegistry, update_of_ne _ _ hid]
    exact List.prefix_rfl

theorem get? {v w : Workspace} (h : Grows v w) {registry name : Key} {t : NamedType}
    (ht : (v.registries registry).get? name = some t) : (w.registries registry).get? name = some t := by
  simp only [Registry.get?, Registry.named?, Option.map_eq_some_iff] at ht ⊢
  obtain ⟨e, he, rfl⟩ := ht
  exact ⟨e, (h.entries registry).find?_eq_some he, rfl⟩

end Grows

namespace Keeps

variable {α β : Type} {w : Workspace} {Q : α → Workspace → Prop}

theorem pure {a : α} (hc : Closed w) (h : Q a w) : Keeps (pure a) w Q :=
  ⟨hc, .refl w, h⟩

theorem throw {e : Failure} (hc : Closed w) : Keeps (throw e) w Q := ⟨hc, .refl w⟩

theorem misuse {m : Misuse} (hc : Closed w) : Keeps (misuse m) w Q := ⟨hc, .refl w⟩

theorem bind {x : Work α} {f : α → Work β} {S : β → Workspace → Prop} (h : Keeps x w Q)
    (k : ∀ a w', Closed w' → Grows w w' → Q a w' → Keeps (f a) w' S) : Keeps (x >>= f) w S := by
  apply Ends.bind
  apply Ends.imp h
  · intro a w' ⟨hc, hg, hq⟩
    apply Ends.imp (k a w' hc hg hq)
    · intro b w'' ⟨hc', hg', hs⟩
      exact ⟨hc', hg.trans hg', hs⟩
    · intro e w'' ⟨hc', hg'⟩
      exact ⟨hc', hg.trans hg'⟩
  · intro e w' h
    exact h

theorem get {f : Workspace → Work α} (h : Keeps (f w) w Q) : Keeps (get >>= f) w Q := h

theorem ofExcept {x : Except Failure α} (hc : Closed w) (h : ∀ a, x = .ok a → Q a w) :
    Keeps (Work.ofExcept x) w Q :=
  Ends.ofExcept (fun a ha => ⟨hc, .refl w, h a ha⟩) fun _ _ => ⟨hc, .refl w⟩

theorem modify {g : Workspace → Workspace} {Q : Unit → Workspace → Prop} (hc : Closed (g w))
    (hg : Grows w (g w)) (h : Q () (g w)) : Keeps (modify g) w Q := ⟨hc, hg, h⟩

theorem report {e : Event} {Q : Unit → Workspace → Prop} (hc : Closed w)
    (h : Q () { w with events := w.events ++ [e] }) : Keeps (report e) w Q :=
  ⟨hc.of_fewer hc.ordered (Nat.le_refl _) fun _ he => he,
    ⟨fun _ => List.prefix_rfl, List.prefix_rfl⟩, h⟩

end Keeps

namespace Registry

theorem get?_eq_none_iff {r : Registry} {name : Key} :
    r.get? name = none ↔ ∀ e ∈ r.entries, e.name ≠ name := by
  simp [get?, named?]

theorem named?_add_same {r : Registry} {e : Entry} (h : r.get? e.name = none) :
    (r.add e).named? e.name = some e := by
  rw [get?, Option.map_eq_none_iff] at h
  rw [named?, add, List.find?_append, show r.entries.find? (·.name == e.name) = none from h]
  simp

theorem mem_of_get? {r : Registry} {name : Key} {t : NamedType} (h : r.get? name = some t) :
    ∃ e ∈ r.entries, e.name = name ∧ e.type = t := by
  simp only [get?, named?, Option.map_eq_some_iff] at h
  obtain ⟨e, he, ht⟩ := h
  exact ⟨e, List.mem_of_find?_eq_some he, by simpa using List.find?_some he, ht⟩

end Registry

theorem Placed.mono {classes more : List ModelClass} {before : List Registry.Entry}
    {entry : Registry.Entry} (h : Placed classes before entry) (hs : classes <+: more) :
    Placed more before entry := by
  refine ⟨h.named, h.fresh, fun c hc => ?_⟩
  obtain ⟨m, hm, hr⟩ := h.known c hc
  obtain ⟨rest, rfl⟩ := hs
  obtain ⟨hlt, _⟩ := List.getElem?_eq_some_iff.mp hm
  exact ⟨m, by rw [List.getElem?_append_left hlt, hm], hr⟩

namespace Ordered

variable {classes : List ModelClass} {entries : List Registry.Entry} {entry : Registry.Entry}

theorem nil (classes : List ModelClass) : Ordered classes [] := by
  intro i entry h
  cases h

theorem snoc (h : Ordered classes entries) (hp : Placed classes entries entry) :
    Ordered classes (entries ++ [entry]) := by
  intro i e he
  by_cases hi : i < entries.length
  · rw [List.getElem?_append_left hi] at he
    rw [List.take_append_of_le_length (by omega)]
    exact h i e he
  · rw [List.getElem?_append_right (by omega)] at he
    obtain ⟨hlt, rfl⟩ := List.getElem?_eq_some_iff.mp he
    have hl : i = entries.length := by
      simp only [List.length_singleton] at hlt
      omega
    subst hl
    simpa using hp

theorem mono {more : List ModelClass} (h : Ordered classes entries) (hs : classes <+: more) :
    Ordered more entries := fun i entry he => (h i entry he).mono hs

theorem placed (h : Ordered classes entries) (he : entry ∈ entries) :
    ∃ before, before ⊆ entries ∧ Placed classes before entry := by
  obtain ⟨i, hi⟩ := List.getElem?_of_mem he
  exact ⟨_, List.take_subset i entries, h i entry hi⟩

theorem get?_eq {r : Registry} (h : Ordered classes r.entries) (he : entry ∈ r.entries) :
    r.get? entry.name = some entry.type := by
  obtain ⟨i, hi⟩ := List.getElem?_of_mem he
  have hf : r.entries.find? (·.name == entry.name) = some entry := by
    rw [List.find?_eq_some_iff_getElem]
    obtain ⟨hlt, hget⟩ := List.getElem?_eq_some_iff.mp hi
    refine ⟨by simp, i, hlt, hget, fun j hj => ?_⟩
    have hmem : r.entries[j] ∈ r.entries.take i := List.mem_take_iff_getElem.mpr ⟨j, by omega, rfl⟩
    simpa using (h i entry hi).fresh _ hmem
  rw [Registry.get?, Registry.named?, hf]
  rfl

end Ordered

namespace HasEnum

variable {w : Workspace} {id : Key} {e : EnumType}

theorem of_add {entry : Registry.Entry}
    (h : HasEnum (w.setRegistry id ((w.registries id).add entry)) e) :
    HasEnum w e ∨ entry.type = .enum e := by
  rcases h with ⟨id', x, hx, ht⟩ | h
  · by_cases hid : id' = id
    · subst hid
      simp only [Workspace.setRegistry, update_same, Registry.add, List.mem_append,
        List.mem_singleton] at hx
      rcases hx with hx | rfl
      · exact .inl (.inl ⟨id', x, hx, ht⟩)
      · exact .inr ht
    · simp only [Workspace.setRegistry, update_of_ne _ _ hid] at hx
      exact .inl (.inl ⟨id', x, hx, ht⟩)
  · exact .inl (.inr h)

theorem of_put {key : Key × Key} {f : EnumType}
    (h : HasEnum (w.setMemo id ((w.memos id).put key f)) e) : HasEnum w e ∨ e = f := by
  rcases h with h | ⟨id', key', h⟩
  · exact .inl (.inl h)
  · by_cases hid : id' = id
    · subst hid
      simp only [Workspace.setMemo, update_same] at h
      by_cases hk : key' = key
      · subst hk
        rw [EnumMemo.get?_put_same] at h
        cases h
        exact .inr rfl
      · rw [EnumMemo.get?_put_other _ _ hk] at h
        exact .inl (.inr ⟨id', key', h⟩)
    · simp only [Workspace.setMemo, update_of_ne _ _ hid] at h
      exact .inl (.inr ⟨id', key', h⟩)

theorem of_clearRegistry (h : HasEnum (w.setRegistry id {}) e) : HasEnum w e := by
  rcases h with ⟨id', x, hx, ht⟩ | h
  · by_cases hid : id' = id
    · subst hid
      simp only [Workspace.setRegistry, update_same] at hx
      cases hx
    · simp only [Workspace.setRegistry, update_of_ne _ _ hid] at hx
      exact .inl ⟨id', x, hx, ht⟩
  · exact .inr h

theorem of_clearMemo (h : HasEnum (w.setMemo id {}) e) : HasEnum w e := by
  rcases h with h | ⟨id', key, h⟩
  · exact .inl h
  · by_cases hid : id' = id
    · subst hid
      simp only [Workspace.setMemo, update_same] at h
      cases h
    · simp only [Workspace.setMemo, update_of_ne _ _ hid] at h
      exact .inr ⟨id', key, h⟩

end HasEnum

namespace Closed

variable {w : Workspace}

theorem add {id : Key} {entry : Registry.Entry} (h : Closed w)
    (hp : Placed w.classes (w.registries id).entries entry)
    (he : ∀ e, entry.type = .enum e →
      e.serial < w.enumCount ∧ ∀ f, HasEnum w f → e.serial ≠ f.serial) :
    Closed (w.setRegistry id ((w.registries id).add entry)) := by
  constructor
  · intro id'
    by_cases hid : id' = id
    · subst hid
      simp only [Workspace.setRegistry, update_same]
      exact (h.ordered id').snoc hp
    · simp only [Workspace.setRegistry, update_of_ne _ _ hid]
      exact h.ordered id'
  · intro f hf
    rcases hf.of_add with hf | hf
    · exact h.counted f hf
    · exact (he f hf).1
  · intro f g hf hg hs
    rcases hf.of_add with hf | hf
    · rcases hg.of_add with hg | hg
      · exact h.told f g hf hg hs
      · exact absurd hs.symm ((he g hg).2 f hf)
    · rcases hg.of_add with hg | hg
      · exact absurd hs ((he f hf).2 g hg)
      · rw [hf] at hg
        injection hg

theorem remember {id : Key} {key : Key × Key} {e : EnumType} (h : Closed w) (he : HasEnum w e) :
    Closed (w.setMemo id ((w.memos id).put key e)) := by
  refine h.of_fewer h.ordered (Nat.le_refl _) fun f hf => ?_
  rcases hf.of_put with hf | rfl
  · exact hf
  · exact he

theorem clearRegistry (h : Closed w) (id : Key) : Closed (w.setRegistry id {}) := by
  refine h.of_fewer (fun id' => ?_) (Nat.le_refl _) fun f hf => hf.of_clearRegistry
  by_cases hid : id' = id
  · subst hid
    simp only [Workspace.setRegistry, update_same]
    exact .nil _
  · simp only [Workspace.setRegistry, update_of_ne _ _ hid]
    exact h.ordered id'

theorem clearMemo (h : Closed w) (id : Key) : Closed (w.setMemo id {}) :=
  h.of_fewer h.ordered (Nat.le_refl _) fun _ hf => hf.of_clearMemo

theorem addClass (h : Closed w) (c : ModelClass) : Closed { w with classes := w.classes ++ [c] } :=
  h.of_fewer (fun id => (h.ordered id).mono (List.prefix_append _ _)) (Nat.le_refl _) fun _ he => he

end Closed

def Held (w : Workspace) (id : Key) (type : NamedType) : Prop :=
  ∃ entry ∈ (w.registries id).entries, entry.type = type

theorem Held.mono {w w' : Workspace} {id : Key} {type : NamedType} (h : Held w id type)
    (hg : Grows w w') : Held w' id type := by
  obtain ⟨entry, he, ht⟩ := h
  exact ⟨entry, (hg.entries id).subset he, ht⟩

theorem Held.add (w : Workspace) (id : Key) (entry : Registry.Entry) :
    Held (w.setRegistry id ((w.registries id).add entry)) id entry.type := by
  refine ⟨entry, ?_, rfl⟩
  simp [Workspace.setRegistry, Registry.add]

theorem Held.known {w : Workspace} {id : Key} {type : NamedType} (h : Held w id type)
    {output : OutputType} (hl : output.leaf = type.toOutput) :
    Known (w.registries id).entries output := by
  obtain ⟨entry, he, rfl⟩ := h
  exact .inr ⟨entry, he, hl⟩

section Operations

variable {w : Workspace}

theorem registeredAs_keeps (registry : Key) (name : Value) (hc : Closed w) :
    Keeps (registeredAs registry name) w fun found w' =>
      w' = w ∧ ∃ key, name.key? = some key ∧ found = (w.registries registry).get? key := by
  unfold registeredAs
  cases hk : name.key? with
  | none => exact .misuse hc
  | some key => exact .get (.pure hc ⟨rfl, key, rfl, rfl⟩)

theorem makeEnum_keeps (name : Value) (members : List (String × Value)) (description : Value)
    (hc : Closed w) :
    Keeps (makeEnum name members description) w fun e w' =>
      name = .text e.name ∧ w'.registries = w.registries ∧ w'.classes = w.classes ∧
        e.serial < w'.enumCount ∧ ∀ f, HasEnum w' f → e.serial ≠ f.serial := by
  unfold makeEnum
  split
  · refine ⟨hc.of_fewer hc.ordered (Nat.le_succ _) fun _ he => he,
      ⟨fun _ => List.prefix_rfl, List.prefix_rfl⟩, rfl, rfl, rfl, Nat.lt_succ_self _, fun f hf hs => ?_⟩
    have hcount := hc.counted f hf
    simp only at hs
    omega
  · exact .misuse hc
  · exact .misuse hc

theorem registerEnum_keeps (registry : Key) (name : Value) (members : List (String × Value))
    (description : Value) (hc : Closed w) :
    Keeps (registerEnum registry name members description) w fun e w' =>
      Held w' registry (.enum e) := by
  unfold registerEnum
  apply Keeps.bind (registeredAs_keeps registry name hc)
  rintro found w' - - ⟨rfl, key, hk, rfl⟩
  split
  · rename_i e hg
    split
    · obtain ⟨entry, he, _, ht⟩ := Registry.mem_of_get? hg
      exact .pure hc ⟨entry, he, ht⟩
    · exact .throw hc
  · exact .throw hc
  · rename_i hg
    apply Keeps.bind (makeEnum_keeps name members description hc)
    rintro e w1 hc1 - ⟨rfl, hr, hcl, hcount, hother⟩
    cases hk
    have hp : Placed w1.classes (w1.registries registry).entries
        ⟨.text e.name, .enum e, description⟩ := by
      refine ⟨rfl, ?_, nofun⟩
      rw [hr]
      exact Registry.get?_eq_none_iff.mp hg
    have hadd := hc1.add hp fun f hf => by
      cases hf
      exact ⟨hcount, hother⟩
    apply Keeps.bind
      (.modify (Q := fun _ w' => Held w' registry (.enum e)) hadd (.add _ _ _) (.add _ _ _))
    intro _ w2 hc2 _ hh
    apply Keeps.bind (.report (Q := fun _ w' => Held w' registry (.enum e)) hc2 hh)
    intro _ w3 hc3 _ hh
    exact .pure hc3 hh

theorem registerObject_keeps {registry : Key} {c : ClassHandle} {description : Value}
    (hc : Closed w)
    (hk : ∃ m, w.classes[c.serial]? = some m ∧ m.name = c.name ∧
      ∀ f ∈ m.fields, Known (w.registries registry).entries f.type) :
    Keeps (registerObject registry (.text c.name) c description) w fun d w' =>
      Held w' registry (.object d) := by
  unfold registerObject
  rw [Value.key?_text]
  apply Keeps.get
  split
  · rename_i d hg
    split
    · rename_i hs
      obtain ⟨entry, he, hn, ht⟩ := Registry.mem_of_get? hg
      obtain ⟨_, _, hp⟩ := (hc.ordered registry).placed he
      have hname := hp.named
      rw [hn, ht] at hname
      -- The registry tells classes apart by their serial numbers; the handles agree in their names
      -- too because each is stored under its own.
      have hd : d = c := by
        cases d
        cases c
        simp only at hs
        simp only [NamedType.name, Key.text.injEq] at hname
        rw [hs, hname]
      exact .pure hc ⟨entry, he, by rw [ht, hd]⟩
    · exact .throw hc
  · exact .throw hc
  · rename_i hg
    have hp : Placed w.classes (w.registries registry).entries
        ⟨.text c.name, .object c, description⟩ := by
      refine ⟨rfl, Registry.get?_eq_none_iff.mp hg, fun d hd => ?_⟩
      cases hd
      exact hk
    have hadd := hc.add hp nofun
    apply Keeps.bind
      (.modify (Q := fun _ w' => Held w' registry (.object c)) hadd (.add _ _ _) (.add _ _ _))
    intro _ w2 hc2 _ hh
    apply Keeps.bind (.report (Q := fun _ w' => Held w' registry (.object c)) hc2 hh)
    intro _ w3 hc3 _ hh
    exact .pure hc3 hh

end Operations

end SchemaCompiler
