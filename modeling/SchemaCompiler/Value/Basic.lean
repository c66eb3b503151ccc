import SchemaCompiler.Binary64

namespace SchemaCompiler

/-- A value of a document. Its texts are made of characters, so halves of surrogate pairs are in none. -/
inductive Value where
  | null
  | bool (b : Bool)
  | int (i : Int)
  | float (x : Binary64)
  | text (s : String)
  | list (items : List Value)
  | record (entries : List (String × Value))
deriving Repr, Inhabited

namespace Value

mutual

def beq : (a b : Value) → Bool
  | .null, .null => true
  | .bool a, .bool b => a == b
  | .int a, .int b => a == b
  | .float a, .float b => a == b
  | .text a, .text b => a == b
  | .list a, .list b => beqList a b
  | .record a, .record b => beqEntries a b
  | _, _ => false

def beqList : (a b : List Value) → Bool
  | [], [] => true
  | x :: xs, y :: ys => beq x y && beqList xs ys
  | _, _ => false

def beqEntries : (a b : List (String × Value)) → Bool
  | [], [] => true
  | (j, x) :: xs, (k, y) :: ys => j == k && beq x y && beqEntries xs ys
  | _, _ => false

end

mutual

theorem beq_iff : (a b : Value) → (beq a b = true ↔ a = b) := by
  intro a b
  cases a <;> cases b <;> simp [beq, beqList_iff, beqEntries_iff]

theorem beqList_iff : (a b : List Value) → (beqList a b = true ↔ a = b)
  | [], [] => by simp [beqList]
  | [], _ :: _ => by simp [beqList]
  | _ :: _, [] => by simp [beqList]
  | x :: xs, y :: ys => by simp [beqList, beq_iff x y, beqList_iff xs ys]

theorem beqEntries_iff : (a b : List (String × Value)) → (beqEntries a b = true ↔ a = b)
  | [], [] => by simp [beqEntries]
  | [], _ :: _ => by simp [beqEntries]
  | _ :: _, [] => by simp [beqEntries]
  | (j, x) :: xs, (k, y) :: ys => by
    simp [beqEntries, beq_iff x y, beqEntries_iff xs ys, and_assoc]

end

instance : DecidableEq Value := fun a b => decidable_of_iff _ (beq_iff a b)

def valueAt? (key : String) : List (String × Value) → Option Value
  | [] => none
  | (k, v) :: rest => if k = key then some v else valueAt? key rest

theorem sizeOf_valueAt? {key : String} {entries : List (String × Value)} {v : Value}
    (h : valueAt? key entries = some v) : sizeOf v < sizeOf entries := by
  induction entries with
  | nil => simp [valueAt?] at h
  | cons e rest ih =>
    obtain ⟨k, w⟩ := e
    unfold valueAt? at h
    split at h
    · cases h
      simp only [List.cons.sizeOf_spec, Prod.mk.sizeOf_spec]
      omega
    · have := ih h
      simp only [List.cons.sizeOf_spec]
      omega

theorem mem_names_of_valueAt? {key : String} {entries : List (String × Value)} {v : Value}
    (h : valueAt? key entries = some v) : key ∈ entries.map (·.1) := by
  induction entries with
  | nil => simp [valueAt?] at h
  | cons e rest ih =>
    obtain ⟨k, w⟩ := e
    unfold valueAt? at h
    split at h
    · simp_all
    · simp [ih h]

theorem mem_of_valueAt? {key : String} {entries : List (String × Value)} {v : Value}
    (h : valueAt? key entries = some v) : (key, v) ∈ entries := by
  induction entries with
  | nil => cases h
  | cons e rest ih =>
    obtain ⟨k, x⟩ := e
    rw [valueAt?] at h
    split at h
    · rename_i hkey
      cases h
      rw [hkey]
      exact List.mem_cons_self
    · exact List.mem_cons_of_mem _ (ih h)

theorem valueAt?_of_mem {key : String} {entries : List (String × Value)} {v : Value}
    (hd : (entries.map (·.1)).Nodup) (h : (key, v) ∈ entries) : valueAt? key entries = some v := by
  induction entries with
  | nil => cases h
  | cons e rest ih =>
    obtain ⟨k, x⟩ := e
    obtain ⟨hfirst, hrest⟩ := List.nodup_cons.mp hd
    rw [valueAt?]
    rcases List.mem_cons.mp h with h | h
    · cases h
      rw [if_pos rfl]
    · have hkey : k ≠ key := by
        rintro rfl
        exact hfirst (List.mem_map.mpr ⟨_, h, rfl⟩)
      rw [if_neg hkey, ih hrest h]

def entryOrNull (key : String) (entries : List (String × Value)) : Value :=
  (valueAt? key entries).getD .null

def putEntry (key : String) (v : Value) : List (String × Value) → List (String × Value)
  | [] => [(key, v)]
  | (k, w) :: rest => if k = key then (k, v) :: rest else (k, w) :: putEntry key v rest

theorem valueAt?_putEntry_same (key : String) (v : Value) (entries : List (String × Value)) :
    valueAt? key (putEntry key v entries) = some v := by
  induction entries with
  | nil => simp [putEntry, valueAt?]
  | cons e rest ih =>
    obtain ⟨k, w⟩ := e
    by_cases h : k = key <;> simp [putEntry, valueAt?, h, ih]

theorem valueAt?_putEntry_other {key other : String} (v : Value) (entries : List (String × Value))
    (h : other ≠ key) : valueAt? other (putEntry key v entries) = valueAt? other entries := by
  induction entries with
  | nil => simp [putEntry, valueAt?, Ne.symm h]
  | cons e rest ih =>
    obtain ⟨k, w⟩ := e
    by_cases hk : k = key
    · simp [putEntry, valueAt?, hk, Ne.symm h]
    · rw [putEntry, if_neg hk]
      by_cases ho : k = other <;> simp [valueAt?, ho, ih]

/-- Whether a value counts as present: null, zeros and empty values do not. -/
def truthy : Value → Bool
  | .null => false
  | .bool b => b
  | .int i => i != 0
  | .float x => !x.isZero
  | .text s => s != ""
  | .list items => !items.isEmpty
  | .record entries => !entries.isEmpty

def orElse (v other : Value) : Value := if v.truthy then v else other

def isKey : Value → Bool
  | .list _ | .record _ => false
  | _ => true

def formName : Value → String
  | .null => "NoneType"
  | .bool _ => "bool"
  | .int _ => "int"
  | .float _ => "float"
  | .text _ => "str"
  | .list _ => "list"
  | .record _ => "dict"

def elements? : Value → Option (List Value)
  | .list items => some items
  | .text s => some (s.toList.map fun c => .text (String.singleton c))
  | .record entries => some (entries.map fun e => .text e.1)
  | _ => none

def next? : Value → Option Value
  | .bool b => some (.int (if b then 2 else 1))
  | .int i => some (.int (i + 1))
  | .float x => some (.float x.next)
  | _ => none

/-- Which of `count` things a number means, where one below zero counts from the end. -/
def position? (count : Nat) (v : Value) : Option (Option Nat) :=
  let among (n : Int) : Option Nat :=
    let n := if n < 0 then n + count else n
    if 0 ≤ n ∧ n < count then some n.toNat else none
  match v with
  | .bool b => some (among b.toNat)
  | .int n => some (among n)
  | _ => none

def text? : Value → Option String
  | .text s => some s
  | _ => none

end Value

end SchemaCompiler
