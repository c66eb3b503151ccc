import Mathlib.Logic.Relation
import SchemaCompiler.Proofs.Schema.Meeting

namespace SchemaCompiler.Schema

open Outcome Relation

/-- The definition of the first name holds, where reading reaches it, a reference to the second. -/
def RefersTo (definitions : Value) (name other : String) : Prop :=
  ∃ schema entries reference, lookup definitions name = .found schema ∧
    Under (.record entries) schema ∧ formOf entries = .reference (.text reference) ∧
    reference.startsWith "#" = true ∧ lastSegment reference = other

theorem recursive_met (definitions : Value) (busy : List String) (v : Value) (path p reference : String)
    (h : readSchema (expand definitions busy) v path =
      .error (.document p (.recursiveReference reference))) :
    ∃ busy' entries, Met definitions busy v busy' (.record entries) ∧
      formOf entries = .reference (.text reference) ∧ reference.startsWith "#" = true ∧
      lastSegment reference ∈ busy' := by
  -- Following a reference makes the schema larger; what shrinks is the number of free definitions.
  induction hn : remaining definitions busy using Nat.strongRecOn
    generalizing busy v path with
  | ind n ih =>
    obtain ⟨entries, followed, q, hu, hf, he⟩ := readSchema_error rfl h
    rcases expand_cases definitions busy followed q with ⟨e, hq, hfault⟩ | ⟨schema, hs, hl, hb, hq⟩
    · cases hq.symm.trans he
      obtain ⟨rfl, hs, hb⟩ := hfault p reference rfl
      exact ⟨busy, entries, .of_under hu (.self _ _), hf, hs, hb⟩
    · have hlt : remaining definitions (lastSegment followed :: busy) < n := by
        rw [← hn]
        exact remaining_lt hl hb
      obtain ⟨busy', es, hm, hr⟩ := ih _ hlt _ _ _ (hq.symm.trans he) rfl
      exact ⟨busy', es, .of_under hu (.definition hf hs hl hb hm), hr⟩

theorem Met.reaches {definitions : Value} {busy busy' : List String} {v : Value} {entries : Entries}
    {reference : String} (h : Met definitions busy v busy' (.record entries))
    (hf : formOf entries = .reference (.text reference)) (hs : reference.startsWith "#" = true) :
    (∃ es first, Under (.record es) v ∧ formOf es = .reference (.text first) ∧
      first.startsWith "#" = true ∧
      ReflTransGen (RefersTo definitions) (lastSegment first) (lastSegment reference)) ∧
    ∀ name ∈ busy', name ∈ busy ∨ TransGen (RefersTo definitions) name (lastSegment reference) := by
  generalize hx : Value.record entries = x at h
  induction h with
  | self busy v =>
    subst hx
    exact ⟨⟨entries, reference, .refl _, hf, hs, .refl⟩, fun name hn => .inl hn⟩
  | part hu _ ih =>
    obtain ⟨⟨es, first, hw, hes⟩, hb⟩ := ih hx
    exact ⟨⟨es, first, .part hu hw, hes⟩, hb⟩
  | @definition busy busy' es first schema x hes hfirst hl hb _ ih =>
    obtain ⟨⟨inner, second, hw, hi, h2, hp⟩, hk⟩ := ih hx
    have step : RefersTo definitions (lastSegment first) (lastSegment second) :=
      ⟨schema, inner, second, hl, hw, hi, h2, rfl⟩
    have path : TransGen (RefersTo definitions) (lastSegment first) (lastSegment reference) :=
      TransGen.head' step hp
    refine ⟨⟨es, first, .refl _, hes, hfirst, path.to_reflTransGen⟩, ?_⟩
    intro name hname
    rcases hk name hname with hmem | hpath
    · rcases List.mem_cons.mp hmem with rfl | hold
      · exact .inr path
      · exact .inl hold
    · exact .inr hpath

theorem cycle_of_recursive {definitions : Value} {v : Value} {path p reference : String}
    (h : readSchema (expand definitions []) v path =
      .error (.document p (.recursiveReference reference))) :
    TransGen (RefersTo definitions) (lastSegment reference) (lastSegment reference) := by
  obtain ⟨busy, entries, hm, hf, hs, hb⟩ := recursive_met _ _ _ _ _ _ h
  rcases (hm.reaches hf hs).2 _ hb with hmem | hpath
  · cases hmem
  · exact hpath

end SchemaCompiler.Schema
