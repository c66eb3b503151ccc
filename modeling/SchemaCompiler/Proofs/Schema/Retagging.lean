import Mathlib.Data.List.Forall2
import Mathlib.Logic.Function.Basic
import Mathlib.Order.Monotone.Basic
import SchemaCompiler.Schema.Tag

namespace SchemaCompiler

def Annotations.retag (ρ : Nat → Nat) (a : Annotations) : Annotations := { a with tag := ρ a.tag }

theorem Annotations.retag_tag {ρ σ : Nat → Nat} {a : Annotations} {s t : Nat} (h : ρ s = σ t) :
    ({ a with tag := s } : Annotations).retag ρ = ({ a with tag := t } : Annotations).retag σ := by
  rw [Annotations.retag, Annotations.retag, h]

namespace Node

mutual

def retag (ρ : Nat → Nat) : Node → Node
  | .object a shape => .object (a.retag ρ) (retagShape ρ shape)
  | .array a item => .array (a.retag ρ) (retag ρ item)
  | .optional a inner => .optional (a.retag ρ) (retag ρ inner)
  | .union a variants => .union (a.retag ρ) (retagList ρ variants)
  | .boolean a => .boolean (a.retag ρ)
  | .string a => .string (a.retag ρ)
  | .number a isInteger => .number (a.retag ρ) isInteger
  | .enum a values => .enum (a.retag ρ) values
  | .literal a value => .literal (a.retag ρ) value
  | .date a => .date (a.retag ρ)
  | .any a => .any (a.retag ρ)
  | .plain v => .plain v

def retagList (ρ : Nat → Nat) : List Node → List Node
  | [] => []
  | n :: rest => retag ρ n :: retagList ρ rest

def retagShape (ρ : Nat → Nat) : List (Value × Node) → List (Value × Node)
  | [] => []
  | (key, n) :: rest => (key, retag ρ n) :: retagShape ρ rest

end

section Maps

variable {ρ σ : Nat → Nat}

mutual

theorem retag_retag : (n : Node) → (n.retag ρ).retag σ = n.retag (σ ∘ ρ)
  | .object a shape => by
    rw [retag, retag, retag, retagShape_retagShape shape]
    rfl
  | .array a item => by
    rw [retag, retag, retag, retag_retag item]
    rfl
  | .optional a inner => by
    rw [retag, retag, retag, retag_retag inner]
    rfl
  | .union a variants => by
    rw [retag, retag, retag, retagList_retagList variants]
    rfl
  | .boolean _ | .string _ | .number _ _ | .enum _ _ | .literal _ _ | .date _ | .any _ | .plain _ => rfl

theorem retagList_retagList : (ns : List Node) →
    retagList σ (retagList ρ ns) = retagList (σ ∘ ρ) ns
  | [] => rfl
  | n :: rest => by rw [retagList, retagList, retagList, retag_retag n, retagList_retagList rest]

theorem retagShape_retagShape : (shape : List (Value × Node)) →
    retagShape σ (retagShape ρ shape) = retagShape (σ ∘ ρ) shape
  | [] => rfl
  | (key, n) :: rest => by
    rw [retagShape, retagShape, retagShape, retag_retag n, retagShape_retagShape rest]

end

mutual

theorem retag_id : (n : Node) → n.retag id = n
  | .object a shape => by
    rw [retag, retagShape_id shape]
    rfl
  | .array a item => by
    rw [retag, retag_id item]
    rfl
  | .optional a inner => by
    rw [retag, retag_id inner]
    rfl
  | .union a variants => by
    rw [retag, retagList_id variants]
    rfl
  | .boolean _ | .string _ | .number _ _ | .enum _ _ | .literal _ _ | .date _ | .any _ | .plain _ => rfl

theorem retagList_id : (ns : List Node) → retagList id ns = ns
  | [] => rfl
  | n :: rest => by rw [retagList, retag_id n, retagList_id rest]

theorem retagShape_id : (shape : List (Value × Node)) → retagShape id shape = shape
  | [] => rfl
  | (key, n) :: rest => by rw [retagShape, retag_id n, retagShape_id rest]

end

theorem retag_injective (h : Function.Injective ρ) : Function.Injective (retag ρ) := by
  obtain ⟨σ, hσ⟩ := h.hasLeftInverse
  have hid : σ ∘ ρ = id := hσ.comp_eq_id
  intro n m hnm
  rw [← retag_id n, ← hid, ← retag_retag, hnm, retag_retag, hid, retag_id]

end Maps

section Looks

variable (ρ : Nat → Nat)

@[simp] theorem kind?_retag (n : Node) : (n.retag ρ).kind? = n.kind? := by
  cases n <;> rfl

theorem notes?_retag (n : Node) : (n.retag ρ).notes? = n.notes?.map (Annotations.retag ρ) := by
  cases n <;> rfl

theorem retagShape_eq_map (shape : List (Value × Node)) :
    retagShape ρ shape = shape.map fun f => (f.1, f.2.retag ρ) := by
  induction shape with
  | nil => rfl
  | cons f rest ih =>
    obtain ⟨key, n⟩ := f
    rw [retagShape, ih, List.map_cons]

end Looks

section Tagging

mutual

theorem tagFrom_add (d : Nat) : (n : Node) → (s : Nat) → (n.tagFrom (s + d)).2 = (n.tagFrom s).2 + d
  | .object a shape, s => by
    have := tagShapeFrom_add d shape (s + 1)
    rw [Nat.add_right_comm] at this
    simpa only [tagFrom] using this
  | .array a item, s => by
    have := tagFrom_add d item (s + 1)
    rw [Nat.add_right_comm] at this
    simpa only [tagFrom] using this
  | .optional a inner, s => by
    have := tagFrom_add d inner (s + 1)
    rw [Nat.add_right_comm] at this
    simpa only [tagFrom] using this
  | .union a variants, s => by
    have := tagListFrom_add d variants (s + 1)
    rw [Nat.add_right_comm] at this
    simpa only [tagFrom] using this
  | .boolean _, s | .string _, s | .number _ _, s | .enum _ _, s | .literal _ _, s | .date _, s
  | .any _, s => by
    simp only [tagFrom]
    omega
  | .plain _, s => rfl

theorem tagListFrom_add (d : Nat) : (ns : List Node) → (s : Nat) →
    (tagListFrom (s + d) ns).2 = (tagListFrom s ns).2 + d
  | [], s => rfl
  | n :: rest, s => by
    have := tagListFrom_add d rest (n.tagFrom s).2
    rw [← tagFrom_add d n s] at this
    simpa only [tagListFrom] using this

theorem tagShapeFrom_add (d : Nat) : (shape : List (Value × Node)) → (s : Nat) →
    (tagShapeFrom (s + d) shape).2 = (tagShapeFrom s shape).2 + d
  | [], s => rfl
  | (key, n) :: rest, s => by
    have := tagShapeFrom_add d rest (n.tagFrom s).2
    rw [← tagFrom_add d n s] at this
    simpa only [tagShapeFrom] using this

end

theorem le_tagFrom (n : Node) (s : Nat) : s ≤ (n.tagFrom s).2 := by
  have := tagFrom_add s n 0
  rw [Nat.zero_add] at this
  omega

theorem le_tagListFrom (ns : List Node) (s : Nat) : s ≤ (tagListFrom s ns).2 := by
  have := tagListFrom_add s ns 0
  rw [Nat.zero_add] at this
  omega

theorem le_tagShapeFrom (shape : List (Value × Node)) (s : Nat) : s ≤ (tagShapeFrom s shape).2 := by
  have := tagShapeFrom_add s shape 0
  rw [Nat.zero_add] at this
  omega

end Tagging

section Moves

variable {ρ σ : Nat → Nat} {d : Nat}

mutual

theorem retag_tagFrom : (n : Node) → (s : Nat) →
    (∀ t, s ≤ t → t < (n.tagFrom s).2 → ρ t = σ (t + d)) →
    (n.tagFrom s).1.retag ρ = (n.tagFrom (s + d)).1.retag σ
  | .object a shape, s, h => by
    simp only [tagFrom] at h ⊢
    have hle := le_tagShapeFrom shape (s + 1)
    have hshape := retagShape_tagShapeFrom shape (s + 1) fun t hs ht => h t (by omega) ht
    rw [Nat.add_right_comm] at hshape
    rw [retag, retag, hshape, Annotations.retag_tag (h s (Nat.le_refl s) hle)]
  | .array a item, s, h => by
    simp only [tagFrom] at h ⊢
    have hle := le_tagFrom item (s + 1)
    have hitem := retag_tagFrom item (s + 1) fun t hs ht => h t (by omega) ht
    rw [Nat.add_right_comm] at hitem
    rw [retag, retag, hitem, Annotations.retag_tag (h s (Nat.le_refl s) hle)]
  | .optional a inner, s, h => by
    simp only [tagFrom] at h ⊢
    have hle := le_tagFrom inner (s + 1)
    have hinner := retag_tagFrom inner (s + 1) fun t hs ht => h t (by omega) ht
    rw [Nat.add_right_comm] at hinner
    rw [retag, retag, hinner, Annotations.retag_tag (h s (Nat.le_refl s) hle)]
  | .union a variants, s, h => by
    simp only [tagFrom] at h ⊢
    have hle := le_tagListFrom variants (s + 1)
    have hvariants := retagList_tagListFrom variants (s + 1) fun t hs ht => h t (by omega) ht
    rw [Nat.add_right_comm] at hvariants
    rw [retag, retag, hvariants, Annotations.retag_tag (h s (Nat.le_refl s) hle)]
  | .boolean _, s, h | .string _, s, h | .number _ _, s, h | .enum _ _, s, h | .literal _ _, s, h
  | .date _, s, h | .any _, s, h => by
    simp only [tagFrom] at h ⊢
    rw [retag, retag, Annotations.retag_tag (h s (Nat.le_refl s) (Nat.lt_succ_self s))]
  | .plain _, s, _ => rfl

theorem retagList_tagListFrom : (ns : List Node) → (s : Nat) →
    (∀ t, s ≤ t → t < (tagListFrom s ns).2 → ρ t = σ (t + d)) →
    retagList ρ (tagListFrom s ns).1 = retagList σ (tagListFrom (s + d) ns).1
  | [], s, _ => rfl
  | n :: rest, s, h => by
    simp only [tagListFrom] at h ⊢
    have hle := le_tagFrom n s
    have hrest := le_tagListFrom rest (n.tagFrom s).2
    rw [retagList, retagList, tagFrom_add, retag_tagFrom n s fun t hs ht => h t hs (by omega),
      retagList_tagListFrom rest (n.tagFrom s).2 fun t hs ht => h t (by omega) ht]

theorem retagShape_tagShapeFrom : (shape : List (Value × Node)) → (s : Nat) →
    (∀ t, s ≤ t → t < (tagShapeFrom s shape).2 → ρ t = σ (t + d)) →
    retagShape ρ (tagShapeFrom s shape).1 = retagShape σ (tagShapeFrom (s + d) shape).1
  | [], s, _ => rfl
  | (key, n) :: rest, s, h => by
    simp only [tagShapeFrom] at h ⊢
    have hle := le_tagFrom n s
    have hrest := le_tagShapeFrom rest (n.tagFrom s).2
    rw [retagShape, retagShape, tagFrom_add, retag_tagFrom n s fun t hs ht => h t hs (by omega),
      retagShape_tagShapeFrom rest (n.tagFrom s).2 fun t hs ht => h t (by omega) ht]

end

end Moves

end Node

open Node

structure Annotations.Silent (a : Annotations) : Prop where
  description : a.description = .null
  nullable : a.nullable = .bool false
  default : a.default = .null

def Eases (key : Value) (f g : Value × Node) : Prop :=
  g.1 = f.1 ∧ if f.1 = key then ∃ a : Annotations, a.Silent ∧ g.2 = .optional a f.2 else g.2 = f.2

theorem exists_moves {ρ : Nat → Nat} (hρ : StrictMono ρ) {e d : Nat} (hd : ∀ t, e ≤ t → t + d ≤ ρ t) :
    ∃ σ : Nat → Nat, StrictMono σ ∧ (∀ t < e, σ t = t + d) ∧ ∀ t, e ≤ t → σ t = ρ t := by
  refine ⟨fun t => if t < e then t + d else ρ t, fun t u htu => ?_, fun t ht => if_pos ht,
    fun t ht => if_neg (by omega)⟩
  have hlast := hd u
  have hmono := hρ htu
  dsimp only
  split <;> split <;> omega

section Wrapping

variable {key : Value}

theorem exists_retag {shape eased : List (Value × Node)} (h : List.Forall₂ (Eases key) shape eased)
    (s d : Nat) : ∃ ρ : Nat → Nat, StrictMono ρ ∧ (∀ t, s ≤ t → t + d ≤ ρ t) ∧
      List.Forall₂ (Eases key) (retagShape ρ (tagShapeFrom s shape).1) (tagShapeFrom (s + d) eased).1 := by
  induction h generalizing s d with
  | nil => exact ⟨(· + d), fun t u htu => Nat.add_lt_add_right htu d, fun t _ => Nat.le_refl _, .nil⟩
  | @cons f g rest others hfield hrest ih =>
    obtain ⟨_, n⟩ := f
    obtain ⟨name, n'⟩ := g
    obtain ⟨rfl, hn⟩ := hfield
    dsimp only at hn
    have hle := le_tagFrom n s
    -- By how much the tags of the node and of what comes after it move on.
    have hmoved (by' : Nat) (hby : d ≤ by') : ∃ ρ : Nat → Nat, StrictMono ρ ∧ (∀ t, s ≤ t → t + d ≤ ρ t) ∧
        (n.tagFrom s).1.retag ρ = (n.tagFrom (s + by')).1 ∧
        List.Forall₂ (Eases key) (retagShape ρ (tagShapeFrom (n.tagFrom s).2 rest).1)
          (tagShapeFrom (n.tagFrom (s + by')).2 others).1 := by
      obtain ⟨ρ, hρ, hlow, hall⟩ := ih (n.tagFrom s).2 by'
      obtain ⟨σ, hσ, hbelow, habove⟩ := exists_moves hρ hlow
      refine ⟨σ, hσ, fun t ht => ?_, ?_, ?_⟩
      · by_cases he : t < (n.tagFrom s).2
        · rw [hbelow t he]
          omega
        · have := hlow t (by omega)
          rw [habove t (by omega)]
          omega
      · rw [@retag_tagFrom σ id by' n s fun t _ ht => hbelow t ht, retag_id]
      · rw [tagFrom_add, @retagShape_tagShapeFrom σ ρ 0 rest _ fun t ht _ => habove t ht]
        exact hall
    by_cases hkey : name = key
    · rw [if_pos hkey] at hn
      obtain ⟨a, ha, rfl⟩ := hn
      obtain ⟨ρ, hρ, hlow, hnode, hall⟩ := hmoved (d + 1) (by omega)
      refine ⟨ρ, hρ, hlow, ?_⟩
      simp only [tagShapeFrom, tagFrom, retagShape]
      refine .cons ⟨rfl, ?_⟩ hall
      rw [if_pos hkey, hnode]
      exact ⟨{ a with tag := s + d }, ⟨ha.description, ha.nullable, ha.default⟩, rfl⟩
    · rw [if_neg hkey] at hn
      subst hn
      obtain ⟨ρ, hρ, hlow, hnode, hall⟩ := hmoved d (Nat.le_refl d)
      refine ⟨ρ, hρ, hlow, ?_⟩
      simp only [tagShapeFrom, retagShape]
      refine .cons ⟨rfl, ?_⟩ hall
      rw [if_neg hkey, hnode]

end Wrapping

end SchemaCompiler
