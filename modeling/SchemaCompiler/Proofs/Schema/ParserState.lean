import SchemaCompiler.Proofs.Schema.Recursion
import SchemaCompiler.Schema.Parser

namespace SchemaCompiler.Schema

open Outcome Relation
open Value (valueAt? entryOrNull)

def Gives {α : Type} (p : Parser) (work : Parsing α) (outcome : Except Failure α) : Prop :=
  work p = match outcome with
    | .ok a => .ok a p
    | .error e => .error e p

namespace Gives

variable {α β : Type} {p : Parser}

theorem pure (a : α) : Gives p (pure a) (.ok a) := rfl

theorem throw (e : Failure) : Gives (α := α) p (throw e) (.error e) := rfl

theorem bind {x : Parsing α} {y : Except Failure α} {f : α → Parsing β} {g : α → Except Failure β}
    (h : Gives p x y) (k : ∀ a, Gives p (f a) (g a)) : Gives p (x >>= f) (y >>= g) := by
  change EStateM.bind x f p = _
  rw [EStateM.bind, h]
  cases y with
  | ok a => exact k a
  | error e => rfl

theorem get {f : Parser → Parsing α} {y : Except Failure α} (h : Gives p (f p) y) :
    Gives p (get >>= f) y := h

theorem ofExcept (x : Except Failure α) : Gives p (MonadExcept.ofExcept x) x := by
  cases x <;> rfl

theorem within {name : String} {x : Parsing α} {y : Except Failure α}
    (h : Gives { p with busy := name :: p.busy } x y) : Gives p (Parser.within name x) y := by
  unfold Gives at h ⊢
  -- The work starts in one state only, so it may be replaced by what it does there.
  have hx : Parser.within name x p =
      Parser.within name (fun _ => x { p with busy := name :: p.busy }) p := rfl
  rw [hx, h]
  cases y <;> rfl

end Gives

section Reading

variable {p : Parser} {follow : Follow Parsing} {pureFollow : Follow (Except Failure)}

theorem readVariants_gives {place : String} {index : Nat} {variants : List Value}
    (h : ∀ v ∈ variants, ∀ path, Gives p (readSchema follow v path) (readSchema pureFollow v path)) :
    Gives p (readVariants follow place index variants)
      (readVariants pureFollow place index variants) := by
  induction variants generalizing index with
  | nil =>
    rw [readVariants, readVariants]
    exact .pure _
  | cons v rest ih =>
    rw [readVariants, readVariants]
    apply Gives.bind (h v (by simp) _)
    intro node
    apply Gives.bind (ih fun u hu => h u (List.mem_cons_of_mem _ hu))
    intro nodes
    exact .pure _

theorem readProperties_gives {required : List String} {place : String} {properties : Entries}
    (h : ∀ v ∈ properties.map (·.2), ∀ path,
      Gives p (readSchema follow v path) (readSchema pureFollow v path)) :
    Gives p (readProperties follow required place properties)
      (readProperties pureFollow required place properties) := by
  induction properties with
  | nil =>
    rw [readProperties, readProperties]
    exact .pure _
  | cons entry rest ih =>
    obtain ⟨name, v⟩ := entry
    rw [readProperties, readProperties]
    apply Gives.bind (h v (by simp) _)
    intro node
    apply Gives.bind (ih fun u hu => h u (List.mem_cons_of_mem _ hu))
    intro shape
    exact .pure _

theorem readUnion_gives {entries : Entries} {path place keyword : String} {variants : Value}
    (hf : formOf entries = .union keyword variants)
    (h : ∀ u ∈ parts entries, ∀ q, Gives p (readSchema follow u q) (readSchema pureFollow u q)) :
    Gives p (readUnion follow entries path place variants)
      (readUnion pureFollow entries path place variants) := by
  cases variants with
  | list variants =>
    have hp : parts entries = variantsRead variants := by simp only [parts, hf]
    rw [hp, variantsRead] at h
    rw [readUnion, readUnion]
    split
    · rename_i v hv
      rw [hv] at h
      exact (h v (by simp) _).bind fun node => .pure _
    · rename_i hv
      rw [hv] at h
      exact (readVariants_gives h).bind fun nodes => .pure _
  | _ =>
    rw [readUnion_of_not_list _ _ _ _ (by simp), readUnion_of_not_list _ _ _ _ (by simp)]
    rw [ofExcept_eq]
    exact (Gives.ofExcept _).bind fun nodes => .pure _

theorem readBody_gives {entries : Entries} {path : String} {body : Body} {nullable : Bool}
    (hf : formOf entries = .body body nullable)
    (h : ∀ u ∈ parts entries, ∀ q, Gives p (readSchema follow u q) (readSchema pureFollow u q)) :
    Gives p (readBody follow entries path body) (readBody pureFollow entries path body) := by
  cases body with
  | object =>
    rw [readBody, readBody, ofExcept_eq]
    apply (Gives.ofExcept _).bind
    intro required
    split
    · exact .pure _
    · rename_i properties hp
      have hps : parts entries = properties.map (·.2) := by simp only [parts, hf, hp]
      rw [hps] at h
      exact (readProperties_gives h).bind fun shape => .pure _
    · exact .throw _
  | array =>
    rw [readBody, readBody]
    split
    · exact .pure _
    · exact .pure _
    · exact .throw _
    · rename_i items hn hl hi
      have hps : parts entries = [items] := by simp only [parts, hf, hi]
      exact (h items (by simp [hps]) _).bind fun item => .pure _
  | text =>
    rw [readBody, readBody, ofExcept_eq]
    exact .ofExcept _
  | number isInteger =>
    rw [readBody, readBody]
    exact .pure _
  | boolean =>
    rw [readBody, readBody]
    exact .pure _
  | any =>
    rw [readBody, readBody]
    exact .pure _

theorem readSchema_gives
    (h : ∀ reference path, Gives p (follow reference path) (pureFollow reference path))
    (v : Value) (path : String) :
    Gives p (readSchema follow v path) (readSchema pureFollow v path) := by
  induction v using parts_induction generalizing path with
  | other v hv =>
    rw [readSchema_of_not_record _ hv, readSchema_of_not_record _ hv]
    exact .throw _
  | record entries ih =>
    rw [readSchema, readSchema]
    split
    · rename_i target hf
      cases target with
      | text reference => exact (h reference path).bind fun node => .pure _
      | _ => exact .throw _
    · exact .pure _
    · exact readUnion_gives ‹_› ih
    · rw [ofExcept_eq]
      exact (Gives.ofExcept _).bind fun node => .pure _
    · exact .throw _
    · exact (readBody_gives ‹_› ih).bind fun node => .pure _

end Reading

theorem follow_gives (depth : Nat) (p : Parser) (hd : remaining p.definitions p.busy ≤ depth)
    (reference path : String) :
    Gives p (Parser.follow depth reference path)
      (expand p.definitions p.busy reference path) := by
  induction depth generalizing p reference path with
  | zero =>
    rw [Parser.follow, expand_eq]
    split
    · exact .throw _
    · apply Gives.get
      dsimp only
      cases hl : lookup p.definitions (lastSegment reference) with
      | unsearchable => exact .throw _
      | absent => exact .throw _
      | held => exact .throw _
      | found schema =>
        dsimp only
        split
        · exact .throw _
        · rename_i hb
          have hlt := remaining_lt hl hb
          omega
  | succ depth ih =>
    rw [Parser.follow, expand_eq]
    split
    · exact .throw _
    · apply Gives.get
      dsimp only
      cases hl : lookup p.definitions (lastSegment reference) with
      | unsearchable => exact .throw _
      | absent => exact .throw _
      | held => exact .throw _
      | found schema =>
        dsimp only
        split
        · exact .throw _
        · rename_i hb
          have hlt := remaining_lt hl hb
          apply Gives.within
          apply readSchema_gives
          exact ih { p with busy := lastSegment reference :: p.busy } (by dsimp only; omega)

theorem parse_depth_eq (document : Value) (p : Parser) (depth : Nat)
    (hd : (definedNames (definitionsOf document)).length ≤ depth) :
    readSchema (Parser.follow depth) document "#" (p.start document) =
      match readDocument document with
      | .ok node => .ok node (p.start document)
      | .error e => .error e (p.start document) := by
  cases document with
  | record entries =>
    have hb : remaining (definitions entries) [] ≤ depth :=
      Nat.le_trans (List.length_filter_le _ _) hd
    have h := readSchema_gives (follow_gives _ ⟨definitions entries, []⟩ hb) (.record entries) "#"
    have hr : readSchema (expand (definitions entries) []) (.record entries) "#" =
        readDocument (.record entries) := by
      rw [readDocument, definitionsOf]
    rw [hr] at h
    unfold Gives at h
    cases hd : readDocument (.record entries) <;> rw [hd] at h <;> exact h
  | _ =>
    rw [readDocument, readSchema_of_not_record _ (by simp), readSchema_of_not_record _ (by simp)]
    rfl

theorem parse_eq (document : Value) (p : Parser) :
    Parser.parse document p = match readDocument document with
      | .ok node => .ok node (p.start document)
      | .error e => .error e (p.start document) := by
  change readSchema (Parser.follow _) document "#" (p.start document) = _
  cases document with
  | record entries => exact parse_depth_eq (.record entries) p _ (Nat.le_refl _)
  | _ =>
    rw [readDocument, readSchema_of_not_record _ (by simp), readSchema_of_not_record _ (by simp)]
    rfl

theorem answers_eq (documents : List Value) (p : Parser) :
    Parser.answers documents p = documents.map readDocument := by
  induction documents generalizing p with
  | nil => rfl
  | cons document rest ih =>
    rw [Parser.answers, parse_eq]
    cases hd : readDocument document <;> simp [hd, ih]

theorem parseAlone_eq (document : Value) : Parser.parseAlone document = readDocument document := by
  rw [Parser.parseAlone, parse_eq]
  cases readDocument document <;> rfl

def Acyclic (definitions : Value) : Prop :=
  ∀ name, ¬ TransGen (RefersTo definitions) name name

theorem recursive_met_of_parse {document : Value} {p p' : Parser} {path reference : String}
    (h : Parser.parse document p = .error (.document path (.recursiveReference reference)) p') :
    ∃ busy entries, Met (definitionsOf document) [] document busy (.record entries) ∧
      formOf entries = .reference (.text reference) ∧ lastSegment reference ∈ busy := by
  rw [parse_eq] at h
  cases hd : readDocument document with
  | ok node =>
    rw [hd] at h
    cases h
  | error e =>
    rw [hd] at h
    cases h
    obtain ⟨busy, entries, hm, hf, _, hb⟩ := recursive_met _ _ _ _ _ _ hd
    exact ⟨busy, entries, hm, hf, hb⟩

theorem acyclic_parse {document : Value} (ha : Acyclic (definitionsOf document)) (p p' : Parser)
    (path reference : String) :
    Parser.parse document p ≠ .error (.document path (.recursiveReference reference)) p' := by
  intro h
  rw [parse_eq] at h
  cases hd : readDocument document with
  | ok node =>
    rw [hd] at h
    cases h
  | error e =>
    rw [hd] at h
    cases h
    exact ha _ (cycle_of_recursive hd)

theorem parser_reads_afresh (document : Value) (p : Parser) :
    ((∃ node, Parser.parse document p = .ok node (p.start document)) ∨
      ∃ e, Parser.parse document p = .error e (p.start document)) ∧
    (∀ depth, (definedNames (definitionsOf document)).length ≤ depth →
      readSchema (Parser.follow depth) document "#" (p.start document) = Parser.parse document p) ∧
    (∀ path reference p',
      Parser.parse document p = .error (.document path (.recursiveReference reference)) p' →
        ∃ busy entries, Met (definitionsOf document) [] document busy (.record entries) ∧
          formOf entries = .reference (.text reference) ∧ lastSegment reference ∈ busy) ∧
    (Acyclic (definitionsOf document) → ∀ path reference p',
      Parser.parse document p ≠ .error (.document path (.recursiveReference reference)) p') ∧
    ∀ documents, Parser.answers documents p = documents.map Parser.parseAlone := by
  refine ⟨?_, fun depth hd => ?_, fun _ _ _ => recursive_met_of_parse, fun ha path reference p' => ?_,
    fun documents => ?_⟩
  · rw [parse_eq]
    cases readDocument document with
    | ok node => exact .inl ⟨node, rfl⟩
    | error e => exact .inr ⟨e, rfl⟩
  · rw [parse_depth_eq document p depth hd, parse_eq]
  · exact acyclic_parse ha p p' path reference
  · rw [answers_eq]
    exact List.map_congr_left fun d _ => (parseAlone_eq d).symm

def selfReferring : Value :=
  .record [("definitions", .record [("A", .record [("$ref", .text "#/definitions/A")])]),
    ("$ref", .text "#/definitions/A")]

def diamond : Value :=
  .record [("definitions", .record [("A", .record [("type", .text "string")]),
      ("B", .record [("$ref", .text "#/definitions/A")])]),
    ("oneOf", .list [.record [("$ref", .text "#/definitions/A")],
      .record [("$ref", .text "#/definitions/B")]])]

theorem readDocument_selfReferring : readDocument selfReferring =
    .error (.document "#/definitions/A" (.recursiveReference "#/definitions/A")) := by
  have hs : "#/definitions/A".startsWith "#" = true := by decide +kernel
  have hl : lastSegment "#/definitions/A" = "A" := by decide
  simp [readDocument, definitionsOf, selfReferring, definitions, entryOrNull, valueAt?, readSchema,
    formOf, readReference, expand_eq, hs, hl, Value.orElse, Value.truthy, lookup, faultAt]

theorem refersTo_diamond {name other : String} (h : RefersTo (definitionsOf diamond) name other) :
    name = "B" ∧ other = "A" := by
  obtain ⟨schema, entries, reference, hl, hu, hf, _, rfl⟩ := h
  have hd : definitionsOf diamond = .record [("A", .record [("type", .text "string")]),
      ("B", .record [("$ref", .text "#/definitions/A")])] := rfl
  rw [hd] at hl
  by_cases ha : name = "A"
  · subst ha
    cases hl
    cases hu with
    | refl => cases hf
    | part hu => cases hu
  · by_cases hb : name = "B"
    · subst hb
      cases hl
      cases hu with
      | refl =>
        cases hf
        exact ⟨rfl, by decide⟩
      | part hu => cases hu
    · simp [lookup, valueAt?, Ne.symm ha, Ne.symm hb] at hl

theorem acyclic_diamond : Acyclic (definitionsOf diamond) := by
  intro name h
  obtain ⟨_, hfirst, _⟩ := TransGen.head'_iff.mp h
  obtain ⟨_, _, hlast⟩ := TransGen.tail'_iff.mp h
  have hb := (refersTo_diamond hfirst).1
  have ha := (refersTo_diamond hlast).2
  rw [ha] at hb
  simp at hb

theorem parser_reads_afresh_twice :
    (∃ busy entries, Met (definitionsOf selfReferring) [] selfReferring busy (.record entries) ∧
      formOf entries = .reference (.text "#/definitions/A") ∧ "A" ∈ busy) ∧
    (∀ path reference p', Parser.parse diamond {} ≠
      .error (.document path (.recursiveReference reference)) p') ∧
    Parser.answers [selfReferring, diamond] {} =
      [Parser.parseAlone selfReferring, Parser.parseAlone diamond] := by
  have hp : Parser.parse selfReferring {} = .error
      (.document "#/definitions/A" (.recursiveReference "#/definitions/A"))
      (Parser.start selfReferring {}) := by
    rw [parse_eq, readDocument_selfReferring]
  obtain ⟨_, _, recursive, _, again⟩ := parser_reads_afresh selfReferring {}
  obtain ⟨_, _, _, acyclic, _⟩ := parser_reads_afresh diamond {}
  exact ⟨recursive _ _ _ hp, acyclic acyclic_diamond, again [selfReferring, diamond]⟩

end SchemaCompiler.Schema
