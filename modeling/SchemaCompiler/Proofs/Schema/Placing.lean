import SchemaCompiler.Proofs.Outcome
import SchemaCompiler.Proofs.Schema.Alike
import SchemaCompiler.Proofs.Schema.Parts

namespace SchemaCompiler

def Failure.withoutPath : Failure → Failure
  | .document _ fault => .document "" fault
  | e => e

namespace Schema

open Outcome
open Node (Alike)
open Value (valueAt? entryOrNull)

inductive AlikeOutcome {α β : Type} (R : α → β → Prop) :
    Except Failure α → Except Failure β → Prop where
  | error {e f : Failure} : e.withoutPath = f.withoutPath → AlikeOutcome R (.error e) (.error f)
  | ok {a : α} {b : β} : R a b → AlikeOutcome R (.ok a) (.ok b)

namespace AlikeOutcome

variable {α β : Type} {R : α → β → Prop}

theorem refl {R : α → α → Prop} (h : ∀ a, R a a) (x : Except Failure α) : AlikeOutcome R x x := by
  cases x with
  | error e => exact .error rfl
  | ok a => exact .ok (h a)

theorem bind {γ δ : Type} {S : γ → δ → Prop} {x : Except Failure α} {y : Except Failure β}
    {f : α → Except Failure γ} {g : β → Except Failure δ} (h : AlikeOutcome R x y)
    (k : ∀ a b, R a b → AlikeOutcome S (f a) (g b)) : AlikeOutcome S (x >>= f) (y >>= g) := by
  cases h with
  | error h => exact .error h
  | ok h => exact k _ _ h

theorem map {γ δ : Type} {S : γ → δ → Prop} {x : Except Failure α} {y : Except Failure β} {f : α → γ}
    {g : β → δ} (h : AlikeOutcome R x y) (k : ∀ a b, R a b → S (f a) (g b)) :
    AlikeOutcome S (x.map f) (y.map g) := by
  cases h with
  | error h => exact .error h
  | ok h => exact .ok (k _ _ h)

theorem fault (path elsewhere : String) (fault : DocumentFault) :
    AlikeOutcome R (faultAt path fault) (faultAt elsewhere fault) := .error rfl

theorem ok_of_ok {x : Except Failure α} {b : β} (h : AlikeOutcome R x (.ok b)) : ∃ a, x = .ok a := by
  cases h with
  | ok => exact ⟨_, rfl⟩

end AlikeOutcome

section Reading

variable {follow : Follow (Except Failure)}

theorem readVariants_anywhere {variants : List Value}
    (h : ∀ v ∈ variants, ∀ p q, AlikeOutcome Alike (readSchema follow v p) (readSchema follow v q))
    (index : Nat) (place elsewhere : String) :
    AlikeOutcome (fun nodes nodes' => Node.listWithoutPaths nodes = Node.listWithoutPaths nodes')
      (readVariants follow place index variants) (readVariants follow elsewhere index variants) := by
  induction variants generalizing index with
  | nil =>
    rw [readVariants, readVariants]
    exact .ok rfl
  | cons v rest ih =>
    rw [readVariants, readVariants]
    apply (h v (by simp) _ _).bind
    intro node node' hnode
    apply (ih (fun u hu => h u (List.mem_cons_of_mem _ hu)) _).bind
    intro nodes nodes' hnodes
    refine .ok ?_
    rw [Node.listWithoutPaths, Node.listWithoutPaths, hnode, hnodes]

theorem readProperties_anywhere {properties : Entries}
    (h : ∀ v ∈ properties.map (·.2), ∀ p q,
      AlikeOutcome Alike (readSchema follow v p) (readSchema follow v q))
    (required : List String) (place elsewhere : String) :
    AlikeOutcome (fun shape shape' => Node.shapeWithoutPaths shape = Node.shapeWithoutPaths shape')
      (readProperties follow required place properties)
      (readProperties follow required elsewhere properties) := by
  induction properties with
  | nil =>
    rw [readProperties, readProperties]
    exact .ok rfl
  | cons entry rest ih =>
    obtain ⟨name, v⟩ := entry
    rw [readProperties, readProperties]
    apply (h v (by simp) _ _).bind
    intro node node' hnode
    apply (ih fun u hu => h u (List.mem_cons_of_mem _ hu)).bind
    intro shape shape' hshape
    refine .ok ?_
    rw [Node.shapeWithoutPaths, Node.shapeWithoutPaths, hshape]
    split
    · rw [hnode]
    · rw [Node.withoutPaths, Node.withoutPaths, hnode]
      rfl

theorem readForeign_anywhere (elements : Option (List Value)) (place elsewhere : String) :
    AlikeOutcome Eq (readForeign elements place) (readForeign elements elsewhere) := by
  unfold readForeign
  split
  · exact .error rfl
  · exact .ok rfl
  · exact .fault _ _ _

theorem readUnion_anywhere {entries : Entries} {keyword : String} {variants : Value}
    (hf : formOf entries = .union keyword variants)
    (h : ∀ u ∈ parts entries, ∀ p q, AlikeOutcome Alike (readSchema follow u p) (readSchema follow u q))
    (path elsewhere place spot : String) :
    AlikeOutcome Alike (readUnion follow entries path place variants)
      (readUnion follow entries elsewhere spot variants) := by
  cases variants with
  | list variants =>
    have hparts : parts entries = variantsRead variants := by simp only [parts, hf]
    rw [hparts, variantsRead] at h
    rw [readUnion_list, readUnion_list]
    split
    · rename_i v hv
      rw [hv] at h
      apply (h v (by simp) _ _).bind
      intro node node' hnode
      exact .ok (alike_overlayTexts entries hnode.asNullable)
    · rename_i hv
      rw [hv] at h
      apply (readVariants_anywhere h 0 place spot).bind
      intro nodes nodes' hnodes
      refine .ok (alike_annotate entries ?_ path elsewhere)
      rw [Alike, Node.withoutPaths, Node.withoutPaths, hnodes]
  | _ =>
    rw [readUnion_of_not_list _ _ _ _ (by simp), readUnion_of_not_list _ _ _ _ (by simp), ofExcept_eq,
      ofExcept_eq]
    apply (readForeign_anywhere _ place spot).bind
    rintro nodes _ rfl
    exact .ok (alike_annotate entries rfl path elsewhere)

theorem readBody_anywhere {entries : Entries} {body : Body} {nullable : Bool}
    (hf : formOf entries = .body body nullable)
    (h : ∀ u ∈ parts entries, ∀ p q, AlikeOutcome Alike (readSchema follow u p) (readSchema follow u q))
    (path elsewhere : String) :
    AlikeOutcome Alike (readBody follow entries path body) (readBody follow entries elsewhere body) := by
  cases body with
  | object =>
    rw [readBody_object, readBody_object, ofExcept_eq]
    apply (AlikeOutcome.refl (R := Eq) (fun _ => rfl) (requiredNames entries)).bind
    rintro required _ rfl
    split
    · exact .ok rfl
    · rename_i properties hp
      have hparts : parts entries = properties.map (·.2) := by simp only [parts, hf, hp]
      rw [hparts] at h
      apply (readProperties_anywhere h required path elsewhere).bind
      intro shape shape' hshape
      refine .ok ?_
      rw [Alike, Node.withoutPaths, Node.withoutPaths, hshape]
    · exact .error rfl
  | array =>
    rw [readBody_array, readBody_array]
    split
    · exact .ok rfl
    · exact .ok rfl
    · exact .fault _ _ _
    · rename_i items hn hl hi
      have hparts : parts entries = [items] := by simp only [parts, hf, hi]
      apply (h items (by simp [hparts]) _ _).bind
      intro item item' hitem
      refine .ok ?_
      rw [Alike, Node.withoutPaths, Node.withoutPaths, hitem]
  | text =>
    rw [readBody, readBody]
    exact .refl (R := Alike) (fun _ => rfl) _
  | number isInteger =>
    rw [readBody, readBody]
    exact .ok rfl
  | boolean =>
    rw [readBody, readBody]
    exact .ok rfl
  | any =>
    rw [readBody, readBody]
    exact .ok rfl

theorem readSchema_anywhere (hfollow : ∀ reference p q,
      AlikeOutcome Alike (follow reference p) (follow reference q)) (v : Value) (path elsewhere : String) :
    AlikeOutcome Alike (readSchema follow v path) (readSchema follow v elsewhere) := by
  induction v using parts_induction generalizing path elsewhere with
  | other v hv =>
    rw [readSchema_of_not_record _ hv, readSchema_of_not_record _ hv]
    exact .fault _ _ _
  | record entries ih =>
    rw [readSchema_record, readSchema_record]
    cases hf : formOf entries with
    | reference target =>
      cases target with
      | text reference =>
        apply (hfollow reference path elsewhere).bind
        intro node node' hnode
        exact .ok (alike_overlay entries hnode)
      | _ => exact .error rfl
    | constant value => exact .ok (alike_annotate entries rfl path elsewhere)
    | union keyword variants => exact readUnion_anywhere hf ih path elsewhere _ _
    | enum values =>
      dsimp only
      rw [ofExcept_eq]
      apply (AlikeOutcome.refl (R := Eq) (fun _ => rfl) (enumNode values)).bind
      rintro node _ rfl
      exact .ok (alike_annotate entries rfl path elsewhere)
    | mixed types => exact .fault _ _ _
    | body body nullable =>
      apply (readBody_anywhere hf ih path elsewhere).bind
      intro node node' hnode
      refine .ok ?_
      have hnotes := alike_annotate entries hnode path elsewhere
      cases nullable with
      | true => exact hnotes.asNullable
      | false => exact hnotes

end Reading

theorem expand_anywhere (definitions : Value) (busy : List String) (reference p q : String) :
    AlikeOutcome Alike (expand definitions busy reference p) (expand definitions busy reference q) := by
  rw [expand_eq, expand_eq]
  split
  · exact .fault _ _ _
  · split
    · exact .error rfl
    · exact .fault _ _ _
    · exact .error rfl
    · split
      · exact .fault _ _ _
      · exact .refl (R := Alike) (fun _ => rfl) _

end Schema

end SchemaCompiler
