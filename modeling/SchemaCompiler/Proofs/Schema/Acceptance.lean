import SchemaCompiler.Proofs.Schema.Meeting
import SchemaCompiler.Proofs.Schema.Placing

namespace SchemaCompiler.Schema

open Outcome

def Accepted (follow : Follow (Except Failure)) (v : Value) : Prop :=
  ∀ path, ∃ node, readSchema follow v path = .ok node

section Follow

variable {follow : Follow (Except Failure)} {e : Failure}

theorem readVariants_error_of {place : String} {index : Nat} {before after : List Value} {u : Value}
    (hbefore : ∀ v ∈ before, Accepted follow v) (hu : ∀ path, readSchema follow u path = .error e) :
    readVariants follow place index (before ++ u :: after) = .error e := by
  induction before generalizing index with
  | nil => rw [List.nil_append, readVariants, hu, error_bind]
  | cons v rest ih =>
    obtain ⟨node, hnode⟩ := hbefore v (by simp) s!"{place}/{index}"
    rw [List.cons_append, readVariants, hnode, ok_bind,
      ih fun w hw => hbefore w (List.mem_cons_of_mem _ hw), error_bind]

theorem readProperties_error_of {required : List String} {place : String} {properties : Entries}
    {before after : List Value} {u : Value} (hp : properties.map (·.2) = before ++ u :: after)
    (hbefore : ∀ v ∈ before, Accepted follow v) (hu : ∀ path, readSchema follow u path = .error e) :
    readProperties follow required place properties = .error e := by
  induction properties generalizing before with
  | nil => simp at hp
  | cons entry rest ih =>
    obtain ⟨name, w⟩ := entry
    cases before with
    | nil =>
      obtain ⟨rfl, -⟩ := List.cons.inj hp
      rw [readProperties, hu, error_bind]
    | cons v before =>
      obtain ⟨rfl, hrest⟩ := List.cons.inj hp
      obtain ⟨node, hnode⟩ := hbefore w (by simp) s!"{place}/properties/{name}"
      rw [readProperties, hnode, ok_bind,
        ih hrest fun v hv => hbefore v (List.mem_cons_of_mem _ hv), error_bind]

end Follow

theorem accepted_anywhere {definitions : Value} {busy : List String} {v : Value} {path : String}
    {node : Node} (h : readSchema (expand definitions busy) v path = .ok node) :
    Accepted (expand definitions busy) v := by
  intro elsewhere
  have hread := readSchema_anywhere (expand_anywhere definitions busy) v elsewhere path
  rw [h] at hread
  exact hread.ok_of_ok

end SchemaCompiler.Schema
