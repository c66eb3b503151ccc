import SchemaCompiler.Proofs.Schema.Failing

namespace SchemaCompiler.Schema

open Outcome
open Value (valueAt? entryOrNull)

/-- Reading the first schema while the first names are busy meets the second schema while the second
names are. -/
inductive Met (definitions : Value) : List String → Value → List String → Value → Prop where
  | self (busy : List String) (v : Value) : Met definitions busy v busy v
  | part {busy busy' : List String} {entries : Entries} {u x : Value} : u ∈ parts entries →
      Met definitions busy u busy' x → Met definitions busy (.record entries) busy' x
  | definition {busy busy' : List String} {entries : Entries} {reference : String} {schema x : Value} :
      formOf entries = .reference (.text reference) → reference.startsWith "#" = true →
      lookup definitions (lastSegment reference) = .found schema → lastSegment reference ∉ busy →
      Met definitions (lastSegment reference :: busy) schema busy' x →
      Met definitions busy (.record entries) busy' x

theorem Met.of_under {definitions : Value} {busy busy' : List String} {u v x : Value}
    (h : Under u v) (k : Met definitions busy u busy' x) : Met definitions busy v busy' x := by
  induction h with
  | refl => exact k
  | part hu _ ih => exact .part hu ih

def isReferenceFault : Failure → Bool
  | .document _ (.externalReference _) | .document _ (.unresolvedReference _)
  | .document _ (.recursiveReference _) => true
  | _ => false

section Follow

variable {follow : Follow (Except Failure)} {e : Failure}

theorem readSchema_error {v : Value} {path : String} (he : isReferenceFault e = true)
    (h : readSchema follow v path = .error e) :
    ∃ entries reference q, Under (.record entries) v ∧
      formOf entries = .reference (.text reference) ∧ follow reference q = .error e := by
  induction v using parts_induction generalizing path with
  | other v hv =>
    rw [readSchema_of_not_record _ hv] at h
    cases h
    cases he
  | record entries ih =>
    cases readSchema_fails h with
    | @reference target _ hf h =>
      cases target with
      | text reference =>
        rcases bind_eq_error_iff.mp h with h | ⟨node, _, h⟩
        · exact ⟨entries, reference, path, .refl _, hf, h⟩
        · cases h
      | _ =>
        cases h
        cases he
    | fault hfault => cases hfault <;> cases he
    | variants => cases he
    | misuse => cases he
    | part _ hp _ _ hu =>
      have hpart : _ ∈ parts entries := hp ▸ List.mem_append_right _ List.mem_cons_self
      obtain ⟨es, reference, q, hes, hr⟩ := ih _ hpart hu
      exact ⟨es, reference, q, .part hpart hes, hr⟩

end Follow

section Accepted

variable {follow : Follow (Except Failure)}

theorem mem_of_readVariants {place : String} {index : Nat} {variants : List Value} {nodes : List Node}
    {v : Value} (h : readVariants follow place index variants = .ok nodes) (hv : v ∈ variants) :
    ∃ path, ∃ node ∈ nodes, readSchema follow v path = .ok node := by
  induction variants generalizing index nodes with
  | nil => cases hv
  | cons u rest ih =>
    rw [readVariants] at h
    obtain ⟨node, hnode, h⟩ := bind_eq_ok_iff.mp h
    obtain ⟨others, hothers, h⟩ := bind_eq_ok_iff.mp h
    cases h
    rcases List.mem_cons.mp hv with rfl | hv
    · exact ⟨_, node, List.mem_cons_self, hnode⟩
    · obtain ⟨path, other, hmem, hother⟩ := ih hothers hv
      exact ⟨path, other, List.mem_cons_of_mem _ hmem, hother⟩

theorem accepted_of_readProperties {required : List String} {place : String} {properties : Entries}
    {shape : List (Value × Node)} {v : Value}
    (h : readProperties follow required place properties = .ok shape)
    (hv : v ∈ properties.map (·.2)) : ∃ path node, readSchema follow v path = .ok node := by
  induction properties generalizing shape with
  | nil => cases hv
  | cons entry rest ih =>
    obtain ⟨name, u⟩ := entry
    rw [readProperties] at h
    obtain ⟨node, hnode, h⟩ := bind_eq_ok_iff.mp h
    obtain ⟨others, hothers, h⟩ := bind_eq_ok_iff.mp h
    rw [List.map_cons] at hv
    rcases List.mem_cons.mp hv with rfl | hv
    · exact ⟨_, node, hnode⟩
    · exact ih hothers hv

theorem accepted_part {entries : Entries} {path : String} {node : Node} {u : Value}
    (h : readSchema follow (.record entries) path = .ok node) (hu : u ∈ parts entries) :
    ∃ q n, readSchema follow u q = .ok n := by
  rw [readSchema_record] at h
  unfold parts at hu
  split at hu
  · rename_i keyword variants hf
    rw [hf] at h
    dsimp only at h
    rw [readUnion_list] at h
    unfold variantsRead at hu
    split at hu
    · rename_i v hl
      rw [hl] at h
      obtain ⟨inner, hinner, _⟩ := bind_eq_ok_iff.mp h
      rw [List.mem_singleton.mp hu]
      exact ⟨_, inner, hinner⟩
    · rename_i hl
      rw [hl] at h
      obtain ⟨nodes, hnodes, _⟩ := bind_eq_ok_iff.mp h
      obtain ⟨q, n, _, hn⟩ := mem_of_readVariants hnodes hu
      exact ⟨q, n, hn⟩
  · rename_i hf
    rw [hf] at h
    obtain ⟨body, hbody, _⟩ := bind_eq_ok_iff.mp h
    rw [readBody_object, ofExcept_eq] at hbody
    obtain ⟨required, _, hbody⟩ := bind_eq_ok_iff.mp hbody
    split at hu
    · rename_i properties hp
      rw [hp] at hbody
      obtain ⟨shape, hshape, _⟩ := bind_eq_ok_iff.mp hbody
      exact accepted_of_readProperties hshape hu
    · cases hu
  · rename_i hf
    rw [hf] at h
    obtain ⟨body, hbody, _⟩ := bind_eq_ok_iff.mp h
    rw [readBody_array] at hbody
    split at hu
    · cases hu
    · cases hu
    · cases hu
    · rename_i items hn hl hi
      split at hbody
      · cases hi.symm.trans ‹valueAt? "items" entries = none›
      · rename_i hitems
        exact absurd (hi.symm.trans hitems) (by simpa using hn)
      · cases hbody
      · rename_i items' _ _ hi'
        cases hi.symm.trans hi'
        obtain ⟨item, hitem, _⟩ := bind_eq_ok_iff.mp hbody
        rw [List.mem_singleton.mp hu]
        exact ⟨_, item, hitem⟩
  · cases hu

end Accepted

theorem Met.accepted {definitions : Value} {busy busy' : List String} {v x : Value}
    (hm : Met definitions busy v busy' x) {path : String} {node : Node}
    (h : readSchema (expand definitions busy) v path = .ok node) :
    ∃ q n, readSchema (expand definitions busy') x q = .ok n := by
  induction hm generalizing path node with
  | self => exact ⟨path, node, h⟩
  | part hu _ ih =>
    obtain ⟨q, n, hn⟩ := accepted_part h hu
    exact ih hn
  | definition hf hs hl hb _ ih =>
    rw [readSchema_record, hf] at h
    obtain ⟨inner, hinner, _⟩ := bind_eq_ok_iff.mp h
    rw [expand_eq, if_neg (by simp [hs]), hl] at hinner
    dsimp only at hinner
    rw [if_neg hb] at hinner
    exact ih hinner

end SchemaCompiler.Schema
