import Mathlib.Data.List.DropRight
import Mathlib.Data.List.Induction
import SchemaCompiler.Proofs.Naming.MemberNames

/-!
The names of all members of an enum at once. No name that a value gives ends in an underscore, so the
underscores that tell equal names apart never make two different names meet: each name is followed by as
many as there are equal names before it.
-/

namespace SchemaCompiler.Naming

def underscores (k : Nat) : String := String.ofList (List.replicate k '_')

def plainNames (values : List Value) : List String := values.mapIdx fun i v => memberName v (.int i)

/-- Each of some names with an underscore after it for every equal name before. -/
def toldApart (names : List String) : List String :=
  names.mapIdx fun i name => name ++ underscores ((names.take i).count name)

def Unmarked (names : List String) : Prop := ∀ name ∈ names, ∀ rest, name.toList ≠ rest ++ ['_']

theorem underscores_succ (name : String) (k : Nat) :
    name ++ "_" ++ underscores k = name ++ underscores (k + 1) := by
  apply String.toList_injective
  simp [underscores, List.replicate_succ]

theorem rdropWhile_underscores {s : List Char} (h : ∀ rest, s ≠ rest ++ ['_']) (k : Nat) :
    (s ++ List.replicate k '_').rdropWhile (· == '_') = s := by
  induction k with
  | zero =>
    rw [List.replicate_zero, List.append_nil, List.rdropWhile_eq_self_iff]
    intro hne hlast
    apply h s.dropLast
    rw [← beq_iff_eq.mp hlast, List.dropLast_concat_getLast]
  | succ k ih =>
    rw [List.replicate_succ', ← List.append_assoc, List.rdropWhile_concat_pos _ _ _ (by decide), ih]

theorem underscores_inj {a b : String} (ha : ∀ rest, a.toList ≠ rest ++ ['_'])
    (hb : ∀ rest, b.toList ≠ rest ++ ['_']) {j k : Nat} (h : a ++ underscores j = b ++ underscores k) :
    a = b ∧ j = k := by
  have hlist := congrArg String.toList h
  simp only [underscores, String.toList_append, String.toList_ofList] at hlist
  have hbase := congrArg (List.rdropWhile (· == '_')) hlist
  rw [rdropWhile_underscores ha, rdropWhile_underscores hb] at hbase
  rw [hbase] at hlist
  have hlen := congrArg List.length (List.append_cancel_left hlist)
  exact ⟨String.toList_injective hbase, by simpa using hlen⟩

theorem toldApart_concat (names : List String) (name : String) :
    toldApart (names ++ [name]) = toldApart names ++ [name ++ underscores (names.count name)] := by
  unfold toldApart
  rw [List.mapIdx_append]
  congr 1
  · apply List.mapIdx_eq_mapIdx_iff.mpr
    intro i hi
    rw [List.take_append_of_le_length (by omega)]
  · simp

theorem mem_toldApart_iff {names : List String} (hn : Unmarked names) {name : String}
    (h : ∀ rest, name.toList ≠ rest ++ ['_']) (k : Nat) :
    name ++ underscores k ∈ toldApart names ↔ k < names.count name := by
  induction names using List.reverseRecOn with
  | nil => simp [toldApart]
  | append_singleton names last ih =>
    obtain ⟨hnames, hlast⟩ := List.forall_mem_append.mp hn
    rw [toldApart_concat, List.mem_append, ih hnames, List.mem_singleton, List.count_append,
      List.count_singleton]
    constructor
    · rintro (hlt | heq)
      · omega
      · obtain ⟨rfl, rfl⟩ := underscores_inj h (hlast last (List.mem_singleton_self _)) heq
        simp
    · intro hlt
      by_cases hname : last = name
      · subst hname
        simp only [beq_self_eq_true, if_true] at hlt
        by_cases hk : k = names.count last
        · exact .inr (by rw [hk])
        · exact .inl (by omega)
      · simp only [beq_iff_eq, hname, if_false] at hlt
        exact .inl (by omega)

theorem untaken_of_taken {taken : List String} {k fuel : Nat} {name : String} (hk : k ≤ fuel)
    (htaken : ∀ i < k, name ++ underscores i ∈ taken) (hfree : name ++ underscores k ∉ taken) :
    untaken taken fuel name = name ++ underscores k := by
  induction k generalizing fuel name with
  | zero =>
    have hname : name ++ underscores 0 = name := by simp [underscores]
    rw [hname] at hfree ⊢
    cases fuel with
    | zero => rfl
    | succ fuel => rw [untaken, if_neg hfree]
  | succ k ih =>
    obtain ⟨fuel, rfl⟩ : ∃ n, fuel = n + 1 := ⟨fuel - 1, by omega⟩
    have hname : name ∈ taken := by simpa [underscores] using htaken 0 (by omega)
    rw [untaken, if_pos hname, ih (by omega), underscores_succ]
    · intro i hi
      rw [underscores_succ]
      exact htaken (i + 1) (by omega)
    · rwa [underscores_succ]

theorem untaken_toldApart {names : List String} (hn : Unmarked names) {name : String}
    (h : ∀ rest, name.toList ≠ rest ++ ['_']) :
    untaken (toldApart names) (toldApart names).length name = name ++ underscores (names.count name) := by
  apply untaken_of_taken
  · simpa [toldApart] using List.count_le_length
  · intro i hi
    exact (mem_toldApart_iff hn h i).mpr hi
  · rw [mem_toldApart_iff hn h]
    omega

theorem unmarked_plainNames (values : List Value) : Unmarked (plainNames values) := by
  intro name hname
  obtain ⟨i, hi, rfl⟩ := List.mem_mapIdx.mp hname
  exact (upright_memberName _ i).last

theorem plainNames_concat (values : List Value) (v : Value) :
    plainNames (values ++ [v]) = plainNames values ++ [memberName v (.int values.length)] := by
  simp [plainNames, List.mapIdx_append]

theorem names_nameMembers {before rest : List Value} {named : List (String × Value)}
    (h : named.map (·.1) = toldApart (plainNames before)) :
    (nameMembers named before.length rest).map (·.1) = toldApart (plainNames (before ++ rest)) := by
  -- Value by value: the names so far are those that the values in `before` get by themselves.
  induction rest generalizing before named with
  | nil => rw [nameMembers, List.append_nil, h]
  | cons v rest ih =>
    have hname := untaken_toldApart (unmarked_plainNames before)
      (upright_memberName v before.length).last
    rw [nameMembers]
    simp only [h, hname]
    have hmore : (named ++ [(memberName v (.int before.length) ++ underscores
        ((plainNames before).count (memberName v (.int before.length))), v)]).map (·.1) =
        toldApart (plainNames (before ++ [v])) := by
      rw [plainNames_concat, toldApart_concat, List.map_append, h]
      rfl
    have hrest := ih hmore
    rw [List.length_append, List.length_singleton, List.append_assoc, List.singleton_append] at hrest
    exact hrest

theorem names_enumMembers (values : List Value) :
    (enumMembers values).map (·.1) = toldApart (plainNames values) := by
  have hnone : ([] : List (String × Value)).map (·.1) = toldApart (plainNames []) := rfl
  exact names_nameMembers hnone

/-- The members are the values in their order. Their names are distinct and not empty, and each is the
one that its value gives with an underscore for every value before that gives the same. -/
theorem enumMembers_told_apart (values : List Value) :
    (enumMembers values).map (·.2) = values ∧
    ((enumMembers values).map (·.1)).Nodup ∧ "" ∉ (enumMembers values).map (·.1) ∧
    (enumMembers values).map (·.1) = values.mapIdx fun i v => memberName v (.int i) ++
      underscores (((plainNames values).take i).count (memberName v (.int i))) := by
  refine ⟨values_enumMembers values, nodup_enumMembers values, ?_, ?_⟩
  · intro hempty
    obtain ⟨m, hm, hname⟩ := List.mem_map.mp hempty
    apply member_nonempty hm
    rw [hname]
    rfl
  · rw [names_enumMembers, toldApart, plainNames, List.mapIdx_mapIdx]
    rfl

example : enumMembers [.text "value 1", .text "", .text "VALUE-1"] =
    [("VALUE_1", .text "value 1"), ("VALUE_1_", .text ""), ("VALUE_1__", .text "VALUE-1")] := by
  decide +kernel

end SchemaCompiler.Naming
