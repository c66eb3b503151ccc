import Mathlib.Data.List.Basic
import SchemaCompiler.Interface.Sdl
import SchemaCompiler.Proofs.Outcome

/-!
The text of some types tells what they declare. Every part of it ends where a reader sees it end,
whatever comes after, so that equal texts have equal parts.
-/

namespace SchemaCompiler

/-- For each list of a type from the outermost on, and then for what is in them, whether it is marked as
not null. -/
def OutputType.marks : OutputType → Nullability → List Bool
  | .list item, n => (!n.ofList) :: item.marks n.forItems
  | _, n => [n ≠ .always]

namespace Sdl

def shown : Attribute → String
  | .value (.text s) => s
  | _ => ""

structure EnumContent where
  name : String
  description : String
  members : List String
deriving DecidableEq, Repr

structure FieldContent where
  name : String
  description : String
  type : Except Failure String
  marks : List Bool
deriving DecidableEq

structure ModelContent where
  name : String
  description : String
  fields : List FieldContent
deriving DecidableEq

def EnumDeclaration.content (e : EnumDeclaration) : EnumContent :=
  ⟨e.name, shown (.value e.description), e.members⟩

def fieldContent (f : Field) : FieldContent :=
  ⟨f.name.display, shown (.value f.description), f.type.typeName, f.type.marks f.nullable⟩

def ModelDeclaration.content (m : ModelDeclaration) : ModelContent :=
  ⟨m.name, shown m.description, m.fields.map fieldContent⟩

def isNameChar (c : Char) : Bool := c.isAlphanum || c = '_'

structure IsPlain (name : String) : Prop where
  nonempty : name ≠ ""
  chars : ∀ c ∈ name.toList, isNameChar c = true

def Quoteless (d : Attribute) : Prop := d.truthy = true → ∃ s, d = .value (.text s) ∧ '"' ∉ s.toList

structure EnumDeclaration.Plain (e : EnumDeclaration) : Prop where
  name : IsPlain e.name
  description : Quoteless (.value e.description)
  members : ∀ m ∈ e.members, IsPlain m

structure PlainField (f : Field) : Prop where
  name : IsPlain f.name.display
  description : Quoteless (.value f.description)
  type : ∀ name, f.type.leaf.typeName = .ok name → IsPlain name

structure ModelDeclaration.Plain (m : ModelDeclaration) : Prop where
  name : IsPlain m.name
  description : Quoteless m.description
  fields : ∀ f ∈ m.fields, PlainField f

section Decidable

def quoteFree : Attribute → Bool
  | .value (.text s) => !s.toList.contains '"'
  | _ => false

instance (name : String) : Decidable (IsPlain name) :=
  decidable_of_iff (name ≠ "" ∧ name.toList.all isNameChar = true)
    ⟨fun h => ⟨h.1, List.all_eq_true.mp h.2⟩, fun h => ⟨h.1, List.all_eq_true.mpr h.2⟩⟩

theorem quoteFree_iff {d : Attribute} :
    quoteFree d = true ↔ ∃ s, d = .value (.text s) ∧ '"' ∉ s.toList := by
  unfold quoteFree
  split <;> simp_all

instance (d : Attribute) : Decidable (Quoteless d) :=
  decidable_of_iff (d.truthy = true → quoteFree d = true) (by rw [Quoteless, quoteFree_iff])

instance (e : EnumDeclaration) : Decidable e.Plain :=
  decidable_of_iff (IsPlain e.name ∧ Quoteless (.value e.description) ∧ ∀ m ∈ e.members, IsPlain m)
    ⟨fun h => ⟨h.1, h.2.1, h.2.2⟩, fun h => ⟨h.1, h.2, h.3⟩⟩

theorem all_toOption_iff {x : Except Failure String} :
    (x.toOption.all fun name => IsPlain name) = true ↔ ∀ name, x = .ok name → IsPlain name := by
  cases x <;> simp [Except.toOption]

instance (f : Field) : Decidable (PlainField f) :=
  decidable_of_iff (IsPlain f.name.display ∧ Quoteless (.value f.description) ∧
      (f.type.leaf.typeName.toOption.all fun name => IsPlain name) = true)
    ⟨fun h => ⟨h.1, h.2.1, all_toOption_iff.mp h.2.2⟩, fun h => ⟨h.1, h.2, all_toOption_iff.mpr h.3⟩⟩

instance (m : ModelDeclaration) : Decidable m.Plain :=
  decidable_of_iff (IsPlain m.name ∧ Quoteless m.description ∧ ∀ f ∈ m.fields, PlainField f)
    ⟨fun h => ⟨h.1, h.2.1, h.2.2⟩, fun h => ⟨h.1, h.2, h.3⟩⟩

end Decidable

def Ends (p : Char → Bool) (rest : List Char) : Prop := ∀ c, rest.head? = some c → p c = false

theorem Ends.cons {p : Char → Bool} {c : Char} (h : p c = false) (rest : List Char) : Ends p (c :: rest) := by
  rintro d ⟨⟩
  exact h

theorem run_unique {p : Char → Bool} {run other s t : List Char} (hrun : ∀ c ∈ run, p c = true)
    (hother : ∀ c ∈ other, p c = true) (hs : Ends p s) (ht : Ends p t) (h : run ++ s = other ++ t) :
    run = other ∧ s = t := by
  induction run generalizing other with
  | nil =>
    cases other with
    | nil => exact ⟨rfl, h⟩
    | cons c rest =>
      rw [List.nil_append] at h
      subst h
      have hc := hs c rfl
      rw [hother c List.mem_cons_self] at hc
      cases hc
  | cons c rest ih =>
    cases other with
    | nil =>
      rw [List.nil_append] at h
      subst h
      have hc := ht c rfl
      rw [hrun c List.mem_cons_self] at hc
      cases hc
    | cons d more =>
      obtain ⟨rfl, htail⟩ := List.cons.inj h
      obtain ⟨rfl, rfl⟩ := ih (fun c hc => hrun c (List.mem_cons_of_mem _ hc))
        (fun c hc => hother c (List.mem_cons_of_mem _ hc)) htail
      exact ⟨rfl, rfl⟩

theorem name_unique {name other : String} {s t : List Char} (hname : IsPlain name) (hother : IsPlain other)
    (hs : Ends isNameChar s) (ht : Ends isNameChar t) (h : name.toList ++ s = other.toList ++ t) :
    name = other ∧ s = t := by
  obtain ⟨heq, rfl⟩ := run_unique hname.chars hother.chars hs ht h
  exact ⟨String.toList_inj.mp heq, rfl⟩

theorem name_head {name : String} (h : IsPlain name) (rest : List Char) :
    ∃ c more, name.toList ++ rest = c :: more ∧ isNameChar c = true := by
  cases hname : name.toList with
  | nil => exact absurd (String.toList_eq_nil_iff.mp hname) h.nonempty
  | cons c more => exact ⟨c, more ++ rest, rfl, h.chars c (by simp [hname])⟩

section Description

theorem escape_plain {s : String} (h : '"' ∉ s.toList) : BlockString.escape s = s := by
  have hquotes : BlockString.escapeQuotes s.toList = s.toList := by
    generalize s.toList = cs at h
    induction cs with
    | nil => rfl
    | cons c rest ih =>
      rw [BlockString.escapeQuotes, ih fun hr => h (List.mem_cons_of_mem _ hr)]
      rintro more rfl
      exact fun hc => h (by simp [hc])
  have hlast : s.toList.getLast? ≠ some '"' := fun hlast => h (List.mem_of_getLast? hlast)
  rw [BlockString.escape, BlockString.content, hquotes, BlockString.guardEnd, if_neg hlast,
    String.ofList_toList]

theorem shown_of_falsy {d : Attribute} (h : d.truthy = false) : shown d = "" := by
  unfold shown
  split
  · simpa [Attribute.truthy, Value.truthy] using h
  · rfl

theorem describe_cases {indent text : String} {d : Attribute} (hd : Quoteless d)
    (h : describe indent d = .ok text) :
    (shown d = "" ∧ text = "") ∨
    ((∀ c ∈ (shown d).toList, decide (c ≠ '"') = true) ∧ ∀ rest, text.toList ++ rest =
      indent.toList ++ '"' :: '"' :: '"' :: ((shown d).toList ++ '"' :: '"' :: '"' :: '\n' :: rest)) := by
  unfold describe at h
  cases hp : d.truthy with
  | false =>
    rw [hp] at h
    cases h
    exact .inl ⟨shown_of_falsy hp, rfl⟩
  | true =>
    obtain ⟨s, rfl, hs⟩ := hd hp
    rw [hp] at h
    cases h
    refine .inr ⟨fun c hc => decide_eq_true fun h => hs (h ▸ hc), fun rest => ?_⟩
    simp [shown, escape_plain hs]

theorem describe_unique {indent : String} {d d' : Attribute} {text text' : String} {s t : List Char}
    (hd : Quoteless d) (hd' : Quoteless d') (h : describe indent d = .ok text)
    (h' : describe indent d' = .ok text') (hs : ¬ indent.toList ++ ['"'] <+: s)
    (ht : ¬ indent.toList ++ ['"'] <+: t) (heq : text.toList ++ s = text'.toList ++ t) :
    shown d = shown d' ∧ s = t := by
  have hquote (rest : List Char) : Ends (· ≠ '"') ('"' :: rest) := .cons (by decide) rest
  obtain ⟨hshown, rfl⟩ | ⟨hfree, htext⟩ := describe_cases hd h
  · obtain ⟨hshown', rfl⟩ | ⟨-, htext'⟩ := describe_cases hd' h'
    · exact ⟨by rw [hshown, hshown'], heq⟩
    · rw [htext', String.toList_empty, List.nil_append] at heq
      exact absurd ⟨_, by rw [List.append_assoc, heq]; rfl⟩ hs
  · obtain ⟨-, rfl⟩ | ⟨hfree', htext'⟩ := describe_cases hd' h'
    · rw [htext, String.toList_empty, List.nil_append] at heq
      exact absurd ⟨_, by rw [List.append_assoc, ← heq]; rfl⟩ ht
    · rw [htext, htext', List.append_cancel_left_eq] at heq
      obtain ⟨hsame, hrest⟩ := run_unique hfree hfree' (hquote _) (hquote _)
        (List.cons.inj (List.cons.inj (List.cons.inj heq).2).2).2
      exact ⟨String.toList_inj.mp hsame, by simpa using hrest⟩

end Description

section Reference

def mark (present : Bool) : String := if present then "!" else ""

theorem mark_unique {present other : Bool} {s t : List Char} (hs : Ends (· = '!') s)
    (ht : Ends (· = '!') t) (h : (mark present).toList ++ s = (mark other).toList ++ t) :
    present = other ∧ s = t := by
  cases present with
  | true =>
    cases other with
    | true => exact ⟨rfl, by simpa [mark] using h⟩
    | false =>
      have ht := ht '!' (by simp [← show _ = t from h, mark])
      cases ht
  | false =>
    cases other with
    | true =>
      have hs := hs '!' (by simp [show s = _ from h, mark])
      cases hs
    | false => exact ⟨rfl, h⟩

theorem reference_cases {type : OutputType} {n : Nullability} {text : String}
    (h : type.reference n = .ok text) :
    (∃ item itemText, type = .list item ∧ item.reference n.forItems = .ok itemText ∧
      text = "[" ++ itemText ++ "]" ++ mark (!n.ofList)) ∨
    ((∀ item, type ≠ .list item) ∧ type.leaf = type ∧ type.marks n = [decide (n ≠ .always)] ∧
      ∃ name, type.typeName = .ok name ∧ text = name ++ mark (n ≠ .always)) := by
  cases type with
  | list item =>
    rw [OutputType.reference] at h
    obtain ⟨itemText, hitem, h⟩ := Outcome.bind_eq_ok_iff.mp h
    refine .inl ⟨item, itemText, rfl, hitem, ?_⟩
    cases hn : n.ofList with
    | true =>
      rw [hn] at h
      cases h
      simp [mark]
    | false =>
      rw [hn] at h
      cases h
      rw [if_neg (by simp), show "]!" = "]" ++ "!" from rfl, ← String.append_assoc]
      rfl
  | _ =>
    refine .inr ⟨by simp, rfl, rfl, ?_⟩
    rw [OutputType.reference] at h
    · obtain ⟨name, hname, h⟩ := Outcome.bind_eq_ok_iff.mp h
      refine ⟨name, hname, ?_⟩
      cases h
      by_cases hn : n = .always <;> simp [hn, mark]
    · simp

def EndsReference (rest : List Char) : Prop := Ends (fun c => isNameChar c || c = '!') rest

theorem EndsReference.mark {rest : List Char} (h : EndsReference rest) : Ends (· = '!') rest := by
  intro c hc
  have hends := h c hc
  simp only [Bool.or_eq_false_iff] at hends
  exact hends.2

theorem EndsReference.name {rest : List Char} (h : EndsReference rest) (present : Bool) :
    Ends isNameChar ((Sdl.mark present).toList ++ rest) := by
  cases present with
  | true => exact .cons (by decide) rest
  | false =>
    intro c hc
    have hends := h c hc
    simp only [Bool.or_eq_false_iff] at hends
    exact hends.1

theorem bracket_ne_name {name : String} (h : IsPlain name) (inner : String) (s t : List Char) :
    ("[" ++ inner).toList ++ s ≠ name.toList ++ t := by
  intro heq
  obtain ⟨c, more, hname, hc⟩ := name_head h t
  rw [hname, String.toList_append, List.append_assoc] at heq
  rw [← (List.cons.inj heq).1] at hc
  exact absurd hc (by decide)

theorem reference_unique {type type' : OutputType} {n n' : Nullability} {text text' : String}
    {s t : List Char} (hplain : ∀ name, type.leaf.typeName = .ok name → IsPlain name)
    (hplain' : ∀ name, type'.leaf.typeName = .ok name → IsPlain name)
    (h : type.reference n = .ok text) (h' : type'.reference n' = .ok text')
    (hs : EndsReference s) (ht : EndsReference t) (heq : text.toList ++ s = text'.toList ++ t) :
    type.typeName = type'.typeName ∧ type.marks n = type'.marks n' ∧ s = t := by
  -- The closing bracket ends the reference to the items, so the induction needs any rest and any policy.
  induction type generalizing type' n n' text text' s t with
  | list item ih =>
    obtain ⟨_, itemText, ⟨⟩, hitem, rfl⟩ | ⟨hlist, -⟩ := reference_cases h
    · obtain ⟨item', itemText', rfl, hitem', rfl⟩ | ⟨-, hleaf, -, name, hname, rfl⟩ := reference_cases h'
      · have hclose (rest : List Char) : EndsReference (']' :: rest) := .cons (by decide) rest
        have hinner : itemText.toList ++ ']' :: ((mark (!n.ofList)).toList ++ s) =
            itemText'.toList ++ ']' :: ((mark (!n'.ofList)).toList ++ t) := by
          simpa using heq
        have hitems : ∀ name, item'.leaf.typeName = .ok name → IsPlain name := hplain'
        obtain ⟨htype, hmarks, hrest⟩ := ih hplain hitems hitem hitem' (hclose _) (hclose _) hinner
        obtain ⟨hmark, rfl⟩ := mark_unique hs.mark ht.mark (List.cons.inj hrest).2
        refine ⟨?_, ?_, rfl⟩
        · rw [OutputType.typeName, OutputType.typeName, htype]
        · rw [OutputType.marks, OutputType.marks, hmark, hmarks]
      · refine absurd ?_ (bracket_ne_name (hplain' name (by rw [hleaf]; exact hname)) itemText
          (']' :: ((mark (!n.ofList)).toList ++ s)) ((mark (n' ≠ .always)).toList ++ t))
        simpa using heq
    · exact absurd rfl (hlist item)
  | _ =>
    obtain ⟨_, _, ⟨⟩, -⟩ | ⟨-, hleaf, hmarks, name, hname, rfl⟩ := reference_cases h
    obtain ⟨item, itemText, rfl, -, rfl⟩ | ⟨-, hleaf', hmarks', name', hname', rfl⟩ := reference_cases h'
    · refine absurd ?_ (bracket_ne_name (hplain name (by rw [hleaf]; exact hname)) itemText
        (']' :: ((mark (!n'.ofList)).toList ++ t)) ((mark (n ≠ .always)).toList ++ s))
      simpa using heq.symm
    · rw [String.toList_append, String.toList_append, List.append_assoc, List.append_assoc] at heq
      obtain ⟨rfl, hrest⟩ := name_unique (hplain name (by rw [hleaf]; exact hname))
        (hplain' name' (by rw [hleaf']; exact hname')) (hs.name _) (ht.name _) heq
      obtain ⟨hmark, rfl⟩ := mark_unique hs.mark ht.mark hrest
      exact ⟨by rw [hname, hname'], by rw [hmarks, hmarks', hmark], rfl⟩

end Reference

theorem renderField_unique {f f' : Field} {text text' : String} {s t : List Char} (hf : PlainField f)
    (hf' : PlainField f') (h : renderField f = .ok text) (h' : renderField f' = .ok text')
    (heq : text.toList ++ s = text'.toList ++ t) : fieldContent f = fieldContent f' ∧ s = t := by
  obtain ⟨description, hdescription, h⟩ := Outcome.bind_eq_ok_iff.mp h
  obtain ⟨type, htype, h⟩ := Outcome.bind_eq_ok_iff.mp h
  obtain ⟨description', hdescription', h'⟩ := Outcome.bind_eq_ok_iff.mp h'
  obtain ⟨type', htype', h'⟩ := Outcome.bind_eq_ok_iff.mp h'
  cases h
  cases h'
  have hline (g : Field) (hg : PlainField g) (rest : List Char) :
      ¬ "  ".toList ++ ['"'] <+: ' ' :: ' ' :: (g.name.display.toList ++ rest) := by
    obtain ⟨c, more, hname, hc⟩ := name_head hg.name rest
    rw [hname]
    rintro ⟨u, hu⟩
    rw [← (List.cons.inj (List.cons.inj (List.cons.inj hu).2).2).1] at hc
    exact absurd hc (by decide)
  have hparts : description.toList ++ ' ' :: ' ' :: (f.name.display.toList ++
      ':' :: ' ' :: (type.toList ++ '\n' :: s)) = description'.toList ++ ' ' :: ' ' ::
        (f'.name.display.toList ++ ':' :: ' ' :: (type'.toList ++ '\n' :: t)) := by
    simpa using heq
  obtain ⟨hshown, hrest⟩ := describe_unique hf.description hf'.description hdescription hdescription'
    (hline f hf _) (hline f' hf' _) hparts
  have hcolon (rest : List Char) : Ends isNameChar (':' :: rest) := .cons (by decide) rest
  obtain ⟨hname, hrest⟩ := name_unique hf.name hf'.name (hcolon _) (hcolon _)
    (List.cons.inj (List.cons.inj hrest).2).2
  have hend (rest : List Char) : EndsReference ('\n' :: rest) := .cons (by decide) rest
  obtain ⟨htypes, hmarks, hrest⟩ := reference_unique hf.type hf'.type htype htype' (hend _) (hend _)
    (List.cons.inj (List.cons.inj hrest).2).2
  refine ⟨?_, (List.cons.inj hrest).2⟩
  rw [fieldContent, fieldContent, hname, hshown, htypes, hmarks]

section Lists

variable {α γ : Type} {render : α → Except Failure String} {P : α → Prop} (content : α → γ)
  (opens : List Char → Prop)

/-- Texts that end where they seem to may be told apart in a row, if none opens what comes after. -/
theorem texts_unique
    (hunique : ∀ {a b u v s t}, P a → P b → render a = .ok u → render b = .ok v →
      u.toList ++ s = v.toList ++ t → content a = content b ∧ s = t)
    (hopens : ∀ {a u} s, P a → render a = .ok u → opens (u.toList ++ s))
    {xs ys : List α} {us vs : List String} {s t : List Char} (hxs : ∀ x ∈ xs, P x) (hys : ∀ y ∈ ys, P y)
    (hus : xs.mapM render = .ok us) (hvs : ys.mapM render = .ok vs) (hs : ¬ opens s) (ht : ¬ opens t)
    (heq : us.flatMap String.toList ++ s = vs.flatMap String.toList ++ t) :
    xs.map content = ys.map content ∧ s = t := by
  induction xs generalizing ys us vs with
  | nil =>
    cases Outcome.mapM_nil_eq_ok hus
    cases ys with
    | nil =>
      cases Outcome.mapM_nil_eq_ok hvs
      exact ⟨rfl, heq⟩
    | cons y ys =>
      -- The second row would go on with what comes after the first.
      obtain ⟨v, vs, hv, -, rfl⟩ := Outcome.mapM_cons_eq_ok hvs
      refine absurd ?_ hs
      rw [List.flatMap_nil, List.nil_append] at heq
      rw [heq, List.flatMap_cons, List.append_assoc]
      exact hopens _ (hys y List.mem_cons_self) hv
  | cons x xs ih =>
    obtain ⟨u, us, hu, hrest, rfl⟩ := Outcome.mapM_cons_eq_ok hus
    cases ys with
    | nil =>
      cases Outcome.mapM_nil_eq_ok hvs
      refine absurd ?_ ht
      rw [List.flatMap_nil, List.nil_append] at heq
      rw [← heq, List.flatMap_cons, List.append_assoc]
      exact hopens _ (hxs x List.mem_cons_self) hu
    | cons y ys =>
      obtain ⟨v, vs, hv, hrest', rfl⟩ := Outcome.mapM_cons_eq_ok hvs
      rw [List.flatMap_cons, List.flatMap_cons, List.append_assoc, List.append_assoc] at heq
      obtain ⟨hhead, heq⟩ := hunique (hxs x List.mem_cons_self) (hys y List.mem_cons_self) hu hv heq
      obtain ⟨htail, rfl⟩ := ih (fun x hx => hxs x (List.mem_cons_of_mem _ hx))
        (fun y hy => hys y (List.mem_cons_of_mem _ hy)) hrest hrest' heq
      exact ⟨by rw [List.map_cons, List.map_cons, hhead, htail], rfl⟩

end Lists

section Declarations

theorem member_unique {m m' : String} {u v : String} {s t : List Char} (hm : IsPlain m) (hm' : IsPlain m')
    (hu : (.ok ("  " ++ m ++ "\n") : Except Failure String) = .ok u)
    (hv : (.ok ("  " ++ m' ++ "\n") : Except Failure String) = .ok v)
    (heq : u.toList ++ s = v.toList ++ t) : m = m' ∧ s = t := by
  cases hu
  cases hv
  have hline (rest : List Char) : Ends isNameChar ('\n' :: rest) := .cons (by decide) rest
  have hparts : m.toList ++ '\n' :: s = m'.toList ++ '\n' :: t := by simpa using heq
  obtain ⟨hname, hrest⟩ := name_unique hm hm' (hline _) (hline _) hparts
  exact ⟨hname, (List.cons.inj hrest).2⟩

theorem members_unique {members members' : List String} {s t : List Char}
    (h : ∀ m ∈ members, IsPlain m) (h' : ∀ m ∈ members', IsPlain m)
    (heq : (members.map fun m => "  " ++ m ++ "\n").flatMap String.toList ++ '\x7d' :: s =
      (members'.map fun m => "  " ++ m ++ "\n").flatMap String.toList ++ '\x7d' :: t) :
    members = members' ∧ s = t := by
  have hlines (ms : List String) : ms.mapM (fun m => (.ok ("  " ++ m ++ "\n") : Except Failure String)) =
      .ok (ms.map fun m => "  " ++ m ++ "\n") := List.mapM_pure
  obtain ⟨hsame, hrest⟩ := texts_unique id (fun rest => rest.head? = some ' ') member_unique
    (fun _ _ hu => by cases hu; simp) h h' (hlines members) (hlines members') (by simp) (by simp) heq
  exact ⟨by simpa using hsame, (List.cons.inj hrest).2⟩

theorem no_quote_next {c : Char} (hc : c ≠ '"') (rest : List Char) :
    ¬ "".toList ++ ['"'] <+: c :: rest := by
  rintro ⟨u, hu⟩
  exact hc (List.cons.inj hu).1.symm

theorem heading_unique {c : Char} (hc : c ≠ '"') (keyword : List Char) {d d' : Attribute}
    {description description' name name' : String} {s t : List Char} (hd : Quoteless d) (hd' : Quoteless d')
    (hname : IsPlain name) (hname' : IsPlain name') (h : describe "" d = .ok description)
    (h' : describe "" d' = .ok description')
    (heq : description.toList ++ c :: (keyword ++ (name.toList ++ ' ' :: '\x7b' :: '\n' :: s)) =
      description'.toList ++ c :: (keyword ++ (name'.toList ++ ' ' :: '\x7b' :: '\n' :: t))) :
    shown d = shown d' ∧ name = name' ∧ s = t := by
  obtain ⟨hshown, hrest⟩ := describe_unique hd hd' h h' (no_quote_next hc _) (no_quote_next hc _) heq
  have hspace (rest : List Char) : Ends isNameChar (' ' :: rest) := .cons (by decide) rest
  obtain ⟨hsame, hrest⟩ := name_unique hname hname' (hspace _) (hspace _)
    (List.append_cancel_left (List.cons.inj hrest).2)
  exact ⟨hshown, hsame, by simpa using hrest⟩

theorem renderEnum_ok {e : EnumDeclaration} {text : String} (h : e.render = .ok text) :
    ∃ description, describe "" (.value e.description) = .ok description ∧ ∀ rest, text.toList ++ rest =
      description.toList ++ 'e' :: ("num ".toList ++ (e.name.toList ++ ' ' :: '\x7b' :: '\n' ::
        ((e.members.map fun m => "  " ++ m ++ "\n").flatMap String.toList ++
          '\x7d' :: '\n' :: '\n' :: rest))) := by
  obtain ⟨description, hdescription, h⟩ := Outcome.bind_eq_ok_iff.mp h
  cases h
  exact ⟨description, hdescription, fun rest => by simp⟩

theorem renderEnum_unique {e e' : EnumDeclaration} {text text' : String} {s t : List Char} (he : e.Plain)
    (he' : e'.Plain) (h : e.render = .ok text) (h' : e'.render = .ok text')
    (heq : text.toList ++ s = text'.toList ++ t) : e.content = e'.content ∧ s = t := by
  obtain ⟨description, hdescription, htext⟩ := renderEnum_ok h
  obtain ⟨description', hdescription', htext'⟩ := renderEnum_ok h'
  rw [htext, htext'] at heq
  obtain ⟨hshown, hname, hrest⟩ := heading_unique (by decide) _ he.description he'.description he.name
    he'.name hdescription hdescription' heq
  obtain ⟨hmembers, hrest⟩ := members_unique he.members he'.members hrest
  refine ⟨?_, by simpa using hrest⟩
  rw [EnumDeclaration.content, EnumDeclaration.content, hname, hshown, hmembers]

theorem renderField_opens {f : Field} {text : String} (hf : PlainField f) (h : renderField f = .ok text)
    (rest : List Char) : (text.toList ++ rest).head? = some ' ' := by
  obtain ⟨description, hdescription, h⟩ := Outcome.bind_eq_ok_iff.mp h
  obtain ⟨type, -, h⟩ := Outcome.bind_eq_ok_iff.mp h
  cases h
  obtain ⟨-, rfl⟩ | ⟨-, htext⟩ := describe_cases hf.description hdescription
  · simp
  · simp only [String.toList_append, List.append_assoc]
    rw [htext]
    rfl

theorem renderModel_ok {m : ModelDeclaration} {text : String} (h : m.render = .ok text) :
    ∃ description fields, describe "" m.description = .ok description ∧
      m.fields.mapM renderField = .ok fields ∧ ∀ rest, text.toList ++ rest =
        description.toList ++ 't' :: ("ype ".toList ++ (m.name.toList ++ ' ' :: '\x7b' :: '\n' ::
          (fields.flatMap String.toList ++ '\x7d' :: '\n' :: rest))) := by
  obtain ⟨description, hdescription, h⟩ := Outcome.bind_eq_ok_iff.mp h
  obtain ⟨fields, hfields, h⟩ := Outcome.bind_eq_ok_iff.mp h
  cases h
  exact ⟨description, fields, hdescription, hfields, fun rest => by simp⟩

theorem renderModel_unique {m m' : ModelDeclaration} {text text' : String} {s t : List Char} (hm : m.Plain)
    (hm' : m'.Plain) (h : m.render = .ok text) (h' : m'.render = .ok text')
    (heq : text.toList ++ s = text'.toList ++ t) : m.content = m'.content ∧ s = t := by
  obtain ⟨description, fields, hdescription, hfields, htext⟩ := renderModel_ok h
  obtain ⟨description', fields', hdescription', hfields', htext'⟩ := renderModel_ok h'
  rw [htext, htext'] at heq
  obtain ⟨hshown, hname, hrest⟩ := heading_unique (by decide) _ hm.description hm'.description hm.name
    hm'.name hdescription hdescription' heq
  obtain ⟨hsame, hrest⟩ := texts_unique fieldContent (fun rest => rest.head? = some ' ')
    renderField_unique (fun rest hf hu => renderField_opens hf hu rest) hm.fields hm'.fields hfields hfields'
    (by simp) (by simp) hrest
  refine ⟨?_, by simpa using hrest⟩
  rw [ModelDeclaration.content, ModelDeclaration.content, hname, hshown, hsame]

theorem renderModel_ne_empty {m : ModelDeclaration} (h : m.render = .ok "") : False := by
  obtain ⟨description, fields, -, -, htext⟩ := renderModel_ok h
  simpa using htext []

def following (blocks : List String) : List Char :=
  if blocks = [] then [] else '\n' :: ("\n".intercalate blocks).toList

theorem intercalate_line (block : String) (blocks : List String) :
    ("\n".intercalate (block :: blocks)).toList = block.toList ++ following blocks := by
  cases blocks with
  | nil => simp [following]
  | cons next rest =>
    rw [String.intercalate_cons_cons, String.toList_append, String.toList_append, List.append_assoc,
      following, if_neg (by simp)]
    rfl

theorem intercalate_of_following {blocks blocks' : List String} (h : following blocks = following blocks') :
    "\n".intercalate blocks = "\n".intercalate blocks' := by
  unfold following at h
  split at h <;> split at h
  · rename_i hnil hnil'
    rw [hnil, hnil']
  · cases h
  · cases h
  · exact String.toList_inj.mp (List.cons.inj h).2

theorem models_unique {models models' : List ModelDeclaration} {blocks blocks' : List String}
    (hm : ∀ m ∈ models, m.Plain) (hm' : ∀ m ∈ models', m.Plain)
    (h : models.mapM ModelDeclaration.render = .ok blocks)
    (h' : models'.mapM ModelDeclaration.render = .ok blocks')
    (heq : "\n".intercalate blocks = "\n".intercalate blocks') :
    models.map (·.content) = models'.map (·.content) := by
  -- A text with a model in it is not empty, so that only no models have the empty text.
  have hempty {m : ModelDeclaration} {block : String} {more : List String} (hblock : m.render = .ok block)
      (hinter : "\n".intercalate (block :: more) = "") : False := by
    have hlist := congrArg String.toList hinter
    rw [intercalate_line, String.toList_empty, List.append_eq_nil_iff, String.toList_eq_nil_iff] at hlist
    rw [hlist.1] at hblock
    exact renderModel_ne_empty hblock
  induction models generalizing models' blocks blocks' with
  | nil =>
    cases Outcome.mapM_nil_eq_ok h
    cases models' with
    | nil => rfl
    | cons m' rest' =>
      obtain ⟨block', more', hblock', -, rfl⟩ := Outcome.mapM_cons_eq_ok h'
      exact (hempty hblock' heq.symm).elim
  | cons m rest ih =>
    obtain ⟨block, more, hblock, hmore, rfl⟩ := Outcome.mapM_cons_eq_ok h
    cases models' with
    | nil =>
      cases Outcome.mapM_nil_eq_ok h'
      exact (hempty hblock heq).elim
    | cons m' rest' =>
      obtain ⟨block', more', hblock', hmore', rfl⟩ := Outcome.mapM_cons_eq_ok h'
      have hlist := congrArg String.toList heq
      rw [intercalate_line, intercalate_line] at hlist
      obtain ⟨hcontent, hfollowing⟩ := renderModel_unique (hm m List.mem_cons_self)
        (hm' m' List.mem_cons_self) hblock hblock' hlist
      have hcontents := ih (fun m hmem => hm m (List.mem_cons_of_mem _ hmem))
        (fun m hmem => hm' m (List.mem_cons_of_mem _ hmem)) hmore hmore'
        (intercalate_of_following hfollowing)
      rw [List.map_cons, List.map_cons, hcontent, hcontents]

def OpensEnum (rest : List Char) : Prop :=
  ∃ d description more, Quoteless d ∧ describe "" d = .ok description ∧
    rest = description.toList ++ 'e' :: more

theorem renderEnum_opens {e : EnumDeclaration} {text : String} (he : e.Plain) (h : e.render = .ok text)
    (rest : List Char) : OpensEnum (text.toList ++ rest) := by
  obtain ⟨description, hdescription, htext⟩ := renderEnum_ok h
  exact ⟨_, description, _, he.description, hdescription, htext rest⟩

theorem models_not_enum {models : List ModelDeclaration} {blocks : List String}
    (hm : ∀ m ∈ models, m.Plain) (h : models.mapM ModelDeclaration.render = .ok blocks) :
    ¬ OpensEnum ("\n".intercalate blocks).toList := by
  rintro ⟨d, description', more, hd, hdescription', heq⟩
  cases models with
  | nil =>
    cases Outcome.mapM_nil_eq_ok h
    simp at heq
  | cons m rest =>
    obtain ⟨block, more, hblock, -, rfl⟩ := Outcome.mapM_cons_eq_ok h
    obtain ⟨description, fields, hdescription, -, htext⟩ := renderModel_ok hblock
    rw [intercalate_line, htext] at heq
    obtain ⟨-, hrest⟩ := describe_unique (hm m List.mem_cons_self).description hd hdescription hdescription'
      (no_quote_next (by decide) _) (no_quote_next (by decide) _) heq
    cases hrest

end Declarations

theorem renderAll_unique {enums enums' : List EnumDeclaration} {models models' : List ModelDeclaration}
    {text : String} (he : ∀ e ∈ enums, e.Plain) (he' : ∀ e ∈ enums', e.Plain) (hm : ∀ m ∈ models, m.Plain)
    (hm' : ∀ m ∈ models', m.Plain) (h : renderAll .null enums models = .ok text)
    (h' : renderAll .null enums' models' = .ok text) :
    enums.map (·.content) = enums'.map (·.content) ∧ models.map (·.content) = models'.map (·.content) := by
  obtain ⟨lines, hlines, h⟩ := Outcome.bind_eq_ok_iff.mp h
  obtain ⟨blocks, hblocks, h⟩ := Outcome.bind_eq_ok_iff.mp h
  obtain ⟨lines', hlines', h'⟩ := Outcome.bind_eq_ok_iff.mp h'
  obtain ⟨blocks', hblocks', h'⟩ := Outcome.bind_eq_ok_iff.mp h'
  have heq := congrArg String.toList (Except.ok.inj (h.trans h'.symm))
  rw [String.toList_append, String.toList_append, String.toList_append, String.toList_append,
    List.append_assoc, List.append_assoc, List.append_cancel_left_eq, String.toList_join,
    String.toList_join] at heq
  obtain ⟨henums, hmodels⟩ := texts_unique (·.content) OpensEnum renderEnum_unique
    (fun rest he hu => renderEnum_opens he hu rest) he he' hlines hlines' (models_not_enum hm hblocks)
    (models_not_enum hm' hblocks') heq
  exact ⟨henums, models_unique hm hm' hblocks hblocks' (String.toList_inj.mp hmodels)⟩

section Types

def contents (w : Workspace) (described : String → Value) (types : List OutputType) :
    List EnumContent × List ModelContent :=
  ((enumsOf types).map fun e => (declareEnum e).content,
    (classesOf types).map fun c => (declareModel w described c).content)

structure PlainTypes (w : Workspace) (described : String → Value) (types : List OutputType) : Prop where
  enums : ∀ e ∈ enumsOf types, (declareEnum e).Plain
  models : ∀ c ∈ classesOf types, (declareModel w described c).Plain

variable {w w' : Workspace} {described described' : String → Value} {types types' : List OutputType}

/-- Types with the same text declare the same enums and the same models. -/
theorem contents_of_text {text : String} (hp : PlainTypes w described types)
    (hp' : PlainTypes w' described' types') (h : renderTypes w .null described types = .ok text)
    (h' : renderTypes w' .null described' types' = .ok text) :
    contents w described types = contents w' described' types' := by
  obtain ⟨henums, hmodels⟩ := renderAll_unique (List.forall_mem_map.mpr hp.enums)
    (List.forall_mem_map.mpr hp'.enums) (List.forall_mem_map.mpr hp.models)
    (List.forall_mem_map.mpr hp'.models) h h'
  rw [List.map_map, List.map_map] at henums hmodels
  exact Prod.ext henums hmodels

instance : Decidable (PlainTypes w described types) :=
  decidable_of_iff ((∀ e ∈ enumsOf types, (declareEnum e).Plain) ∧
      ∀ c ∈ classesOf types, (declareModel w described c).Plain)
    ⟨fun h => ⟨h.1, h.2⟩, fun h => ⟨h.1, h.2⟩⟩

def lampState (serial : Nat) (description : Value) : EnumType :=
  ⟨serial, "LampState", [("ON", .text "on"), ("OFF", .text "off")], description⟩

def lampClass (description : Value) : ModelClass where
  name := "Lamp"
  description := some (.value (.text "type Lamp \x7b"))
  fields := [
    { name := .text "state", attr := .text "state", type := .enum (lampState 0 .null), description },
    { name := .text "tags", attr := .text "tags", type := .list (.scalar .string), nullable := .items }]

/-- No description and an empty one look the same, and so do two classes with the same fields. -/
theorem contents_of_text_lamp :
    contents { classes := [lampClass .null] } (fun _ => .null)
        [.enum (lampState 0 .null), .object ⟨0, "Lamp"⟩] =
      contents { classes := [{ name := "Lantern" }, lampClass (.text "")] } (fun _ => .text "")
        [.object ⟨1, "Lamp"⟩, .scalar .int, .enum (lampState 5 (.text ""))] := by
  have htext : renderTypes { classes := [lampClass .null] } .null (fun _ => .null)
      [.enum (lampState 0 .null), .object ⟨0, "Lamp"⟩] = .ok ("enum LampState \x7b\n  ON\n  OFF\n\x7d\n\n" ++
        "\"\"\"type Lamp \x7b\"\"\"\ntype Lamp \x7b\n  state: LampState!\n  tags: [String]!\n\x7d\n") := by
    decide +kernel
  exact contents_of_text (by decide +kernel) (by decide +kernel) htext (by decide +kernel)

end Types

end Sdl

end SchemaCompiler
