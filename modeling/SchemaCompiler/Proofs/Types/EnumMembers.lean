import Mathlib.Data.List.Perm.Subperm
import SchemaCompiler.Proofs.Naming.MemberNames
import SchemaCompiler.Types.EnumRules

namespace SchemaCompiler.Value

theorem same_text {v : Value} {s : String} : same v (.text s) = true ↔ v = .text s := by
  cases v <;> simp [same, sameAtom, numeric?]

end SchemaCompiler.Value

namespace SchemaCompiler.EnumType

open Naming Text

def hasReserved (members : List (String × Value)) : Bool :=
  members.any fun m => isSingleWrapped m.1.toList

structure Ordinary (name : List Char) : Prop where
  letter : 'm' ∉ name
  head : ∀ rest, name = '_' :: rest → ∃ d more, rest = d :: more ∧ isDigit d = true

theorem ordinary_of_member {values : List Value} {m : String × Value} (h : m ∈ enumMembers values) :
    Ordinary m.1.toList :=
  ⟨member_letter h, fun _ hr => member_head h hr⟩

namespace Ordinary

variable {enum name : List Char}

theorem not_private (h : Ordinary name) (he : 'm' ∈ enum) : isPrivate enum name = false := by
  unfold isPrivate
  extract_lets opening
  by_contra hp
  have hopens : opening <+: name := by
    rw [← List.isPrefixOf_iff_prefix]
    simp only [Bool.not_eq_false, Bool.and_eq_true] at hp
    exact hp.1.1
  exact h.letter (hopens.subset (by simp [opening, he]))

theorem not_double (h : Ordinary name) : isDoubleWrapped name = false := by
  unfold isDoubleWrapped
  split
  · rename_i third a b rest thirdLast more _
    obtain ⟨d, tail, heq, hd⟩ := h.head _ rfl
    cases heq
    exact absurd hd (by decide)
  · rfl

theorem opens_of_single (hs : isSingleWrapped name = true) : ∃ rest, name = '_' :: rest := by
  unfold isSingleWrapped at hs
  split at hs
  · exact ⟨_, rfl⟩
  · cases hs

theorem not_directive {s : String} (h : Ordinary s.toList) (hs : isSingleWrapped s.toList = true) :
    s ∉ directives := by
  obtain ⟨rest, hr⟩ := opens_of_single hs
  obtain ⟨d, more, rfl, hd⟩ := h.head rest hr
  have hsecond : ∀ t ∈ directives, t.toList.tail.head?.any isDigit = false := by decide
  intro hmem
  have hdigit := hsecond s hmem
  rw [hr, List.tail_cons, List.head?_cons, Option.any_some, hd] at hdigit
  cases hdigit

end Ordinary

variable {enum : List Char} {o : Outline}

theorem add_ordinary (he : 'm' ∈ enum) (ho : o.ignored = []) {name : String} (h : Ordinary name.toList)
    (v : Value) : o.add enum name v =
      if isSingleWrapped name.toList then .error .reservedMemberName
      else .ok { o with members := o.members ++ [(name, v)] } := by
  unfold Outline.add
  rw [h.not_private he, if_neg (by simp), h.not_double]
  by_cases hs : isSingleWrapped name.toList = true
  · have hd := h.not_directive hs
    have hi : name ≠ ignoreDirective := by
      rintro rfl
      exact hd (by decide)
    rw [if_pos hs, if_neg hi, if_neg hd, if_pos hs]
  · rw [if_neg hs, if_neg (by simp), ho, if_neg (by simp), if_neg hs]

theorem addAll_ordinary (he : 'm' ∈ enum) (ho : o.ignored = []) {members : List (String × Value)}
    (h : ∀ m ∈ members, Ordinary m.1.toList) : o.addAll enum members =
      if hasReserved members then .error .reservedMemberName
      else .ok { o with members := o.members ++ members } := by
  induction members generalizing o with
  | nil => simp [Outline.addAll, hasReserved]
  | cons m rest ih =>
    obtain ⟨name, v⟩ := m
    obtain ⟨hm, hrest⟩ := List.forall_mem_cons.mp h
    rw [Outline.addAll, add_ordinary he ho hm, hasReserved, List.any_cons]
    by_cases hs : isSingleWrapped name.toList = true
    · rw [if_pos hs, hs]
      rfl
    · rw [if_neg hs]
      have hmore := ih (o := { o with members := o.members ++ [(name, v)] }) ho hrest
      rw [Bool.eq_false_iff.mpr hs, Bool.false_or]
      change Outline.addAll enum _ rest = _
      rw [hmore, List.append_assoc]
      rfl

theorem read_enumMembers (he : 'm' ∈ enum) (values : List Value) :
    Outline.read enum (enumMembers values) =
      if hasReserved (enumMembers values) then .error .reservedMemberName
      else .ok { members := enumMembers values } := by
  unfold Outline.read
  rw [addAll_ordinary he rfl fun m hm => ordinary_of_member hm]
  split <;> rfl

theorem checkAttributes_members (members : List (String × Value)) :
    checkAttributes { members } [] = .ok () := by
  change (if members.isEmpty = true then Except.ok () else Except.ok ()) = _
  split <;> rfl

theorem check_enumMembers {s : String} (he : 'm' ∈ s.toList) (values : List Value) :
    check (.text s) (enumMembers values) =
      if hasReserved (enumMembers values) then .error .reservedMemberName
      else if s.toList.contains '\x00' then .error .nameWithNul
      else .ok () := by
  have hnames : (enumMembers values).any (fun m => m.1 = "" || m.1 = "mro") = false := by
    rw [List.any_eq_false]
    intro m hm
    have hempty : m.1 ≠ "" := by
      intro h
      exact member_nonempty hm (by rw [h]; rfl)
    have hmro : m.1 ≠ "mro" := by
      intro h
      exact member_letter hm (by rw [h]; decide)
    simp [hempty, hmro]
  unfold check
  change Outline.read s.toList (enumMembers values) >>= _ = _
  rw [read_enumMembers he]
  by_cases hr : hasReserved (enumMembers values) = true
  · rw [if_pos hr, if_pos hr]
    rfl
  · rw [if_neg hr, if_neg hr]
    change (if (enumMembers values).any (fun m => m.1 = "" || m.1 = "mro") = true then _ else _ :
      Except Misuse Unit) = _
    rw [hnames, if_neg (by simp)]
    change (if s.toList.contains '\x00' = true then Except.error Misuse.nameWithNul else
      checkAttributes { members := enumMembers values } [] >>= fun _ =>
        checkOrder { members := enumMembers values }) = _
    rw [checkAttributes_members]
    rfl

theorem misuse?_enumMembers {s : String} (he : 'm' ∈ s.toList) (values : List Value) :
    misuse? (.text s) (enumMembers values) =
      if hasReserved (enumMembers values) then some .reservedMemberName
      else if s.toList.contains '\x00' then some .nameWithNul
      else none := by
  rw [misuse?, check_enumMembers he]
  by_cases hr : hasReserved (enumMembers values) = true
  · rw [if_pos hr, if_pos hr]
  · rw [if_neg hr, if_neg hr]
    by_cases hnul : s.toList.contains '\x00' = true
    · rw [if_pos hnul, if_pos hnul]
    · rw [if_neg hnul, if_neg hnul]

theorem colliding_of_hasReserved {values : List Value} (h : hasReserved (enumMembers values) = true) :
    Colliding values := by
  obtain ⟨m, hm, hs⟩ := List.any_eq_true.mp h
  unfold isSingleWrapped at hs
  split at hs
  · rename_i second third rest beforeLast more hr hrev
    refine colliding_of_member hm ?_ ?_
    · rw [hr]
      rfl
    · rw [← List.head?_reverse, hrev]
      rfl
  · cases hs

theorem names_of_sameEntries {xs ys : List (String × Value)} (h : Value.sameEntries xs ys = true) :
    xs.map (·.1) ⊆ ys.map (·.1) := by
  induction xs with
  | nil => simp
  | cons x rest ih =>
    obtain ⟨k, v⟩ := x
    rw [Value.sameEntries, Bool.and_eq_true] at h
    obtain ⟨hfirst, hrest⟩ := h
    split at hfirst
    · rename_i y hy
      exact List.cons_subset.mpr ⟨Value.mem_names_of_valueAt? hy, ih hrest⟩
    · cases hfirst

theorem hasReserved_of_sameRecord {members others : List (String × Value)}
    (hd : (members.map (·.1)).Nodup) (h : Value.sameRecord members others = true)
    (hr : hasReserved members = false) : hasReserved others = false := by
  rw [Value.sameRecord, Value.same, Bool.and_eq_true, beq_iff_eq] at h
  obtain ⟨hlen, hentries⟩ := h
  have hperm : (members.map (·.1)).Perm (others.map (·.1)) :=
    (List.subperm_of_subset hd (names_of_sameEntries hentries)).perm_of_length_le (by simp [hlen])
  rw [hasReserved, List.any_eq_false] at hr ⊢
  intro m hm
  have hname : m.1 ∈ members.map (·.1) := hperm.mem_iff.mpr (List.mem_map_of_mem hm)
  obtain ⟨m', hm', heq⟩ := List.mem_map.mp hname
  rw [← heq]
  exact hr m' hm'

theorem sameRecord_iff_perm {xs ys : List (String × Value)} (hx : (xs.map (·.1)).Nodup)
    (hy : (ys.map (·.1)).Nodup) (ht : ∀ m ∈ ys, ∃ s, m.2 = .text s) :
    Value.sameRecord xs ys = true ↔ xs.Perm ys := by
  rw [Value.sameRecord, Value.same, Bool.and_eq_true, beq_iff_eq]
  constructor
  · rintro ⟨hlen, hentries⟩
    have hsub : xs ⊆ ys := by
      clear hlen hx
      induction xs with
      | nil => exact List.nil_subset _
      | cons x rest ih =>
        obtain ⟨k, v⟩ := x
        rw [Value.sameEntries, Bool.and_eq_true] at hentries
        obtain ⟨hfirst, hrest⟩ := hentries
        refine List.cons_subset.mpr ⟨?_, ih hrest⟩
        split at hfirst
        · rename_i y hat
          have hmem := Value.mem_of_valueAt? hat
          obtain ⟨s, rfl⟩ := ht _ hmem
          rwa [Value.same_text.mp hfirst]
        · cases hfirst
    exact (List.subperm_of_subset hx.of_map hsub).perm_of_length_le (by omega)
  · intro hp
    refine ⟨hp.length_eq, ?_⟩
    have hsub : xs ⊆ ys := hp.subset
    clear hp hx
    induction xs with
    | nil => rw [Value.sameEntries]
    | cons x rest ih =>
      obtain ⟨k, v⟩ := x
      obtain ⟨hfirst, hrest⟩ := List.cons_subset.mp hsub
      obtain ⟨s, rfl⟩ := ht _ hfirst
      rw [Value.sameEntries, Value.valueAt?_of_mem hy hfirst, Bool.and_eq_true]
      exact ⟨Value.same_text.mpr rfl, ih hrest⟩

end SchemaCompiler.EnumType
