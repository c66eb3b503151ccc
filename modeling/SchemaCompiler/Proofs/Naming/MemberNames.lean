import Mathlib.Data.List.DropRight
import Mathlib.Data.List.Nodup
import Mathlib.Data.List.Perm.Subperm
import SchemaCompiler.Naming.MemberName

namespace SchemaCompiler

namespace Text

theorem upper_of_ascii : ∀ n < 128,
    (n ≠ 0x5f → '_' ≠ (Char.ofNat n).toUpper) ∧ 'm' ≠ (Char.ofNat n).toUpper := by
  decide

theorem upper_of_expansion : ∀ e ∈ caseExpansions,
    e.2 ≠ [] ∧ '_' ∉ e.2.map Char.ofNat ∧ 'm' ∉ e.2.map Char.ofNat := by
  decide +kernel

theorem upper_of_run : ∀ r ∈ caseRuns, ∀ x ∈ [(0x5f : Int), 0x6d],
    ¬((r.first : Int) ≤ x - r.shift ∧ x - r.shift ≤ r.last ∧ 128 ≤ x - r.shift) := by
  decide +kernel

theorem shifted_cases (runs : List CaseRun) (n : Nat) : shifted runs n = n ∨
    ∃ r ∈ runs, r.first ≤ n ∧ n ≤ r.last ∧ shifted runs n = (n + r.shift).toNat := by
  induction runs with
  | nil => exact .inl rfl
  | cons r rest ih =>
    rw [shifted]
    split
    · rename_i hin
      exact .inr ⟨r, List.mem_cons_self .., hin.1, hin.2.1, rfl⟩
    · exact ih.imp_right fun ⟨s, hs, h⟩ => ⟨s, List.mem_cons_of_mem _ hs, h⟩

theorem shifted_ne {n x : Nat} (hn : 128 ≤ n) (hx : x = 0x5f ∨ x = 0x6d) : shifted caseRuns n ≠ x := by
  rcases shifted_cases caseRuns n with heq | ⟨r, hr, hfirst, hlast, heq⟩
  · omega
  · have h := upper_of_run r hr x (by rcases hx with rfl | rfl <;> simp)
    omega

theorem toNat_ofNat (n : Nat) : (Char.ofNat n).toNat = n ∨ Char.ofNat n = Char.ofNat 0 := by
  by_cases hv : n.isValidChar
  · left
    rw [Char.ofNat, dif_pos hv]
    rfl
  · right
    rw [Char.ofNat, dif_neg hv]
    rfl

theorem ofNat_ne {n : Nat} {c : Char} (hc : c ≠ Char.ofNat 0) (h : n ≠ c.toNat) : Char.ofNat n ≠ c := by
  rintro rfl
  rcases toNat_ofNat n with heq | heq
  · exact h heq.symm
  · exact hc heq

theorem upperChar_cases (c : Char) : (c.toNat < 128 ∧ upperChar c = [c.toUpper]) ∨
    (∃ upper, (c.toNat, upper) ∈ caseExpansions ∧ upperChar c = upper.map Char.ofNat) ∨
    (128 ≤ c.toNat ∧ upperChar c = [Char.ofNat (shifted caseRuns c.toNat)]) := by
  unfold upperChar
  split
  · rename_i hlt
    exact .inl ⟨hlt, rfl⟩
  · split
    · rename_i upper hl
      obtain ⟨l, r, heq, -⟩ := List.lookup_eq_some_iff.mp hl
      refine .inr (.inl ⟨upper, ?_, rfl⟩)
      rw [heq]
      simp
    · exact .inr (.inr ⟨by omega, rfl⟩)

theorem upperChar_ne (c : Char) :
    upperChar c ≠ [] ∧ (c ≠ '_' → '_' ∉ upperChar c) ∧ 'm' ∉ upperChar c := by
  rcases upperChar_cases c with ⟨hlt, heq⟩ | ⟨upper, hmem, heq⟩ | ⟨hge, heq⟩
  · obtain ⟨hline, hletter⟩ := upper_of_ascii c.toNat hlt
    rw [Char.ofNat_toNat] at hline hletter
    rw [heq]
    refine ⟨by simp, fun hc => ?_, by simpa using hletter⟩
    have hn : c.toNat ≠ 0x5f := fun h => hc (by rw [← Char.ofNat_toNat c, h])
    simpa using hline hn
  · obtain ⟨hne, hline, hletter⟩ := upper_of_expansion _ hmem
    rw [heq]
    exact ⟨by simpa using hne, fun _ => hline, hletter⟩
  · rw [heq]
    refine ⟨by simp, fun _ h => ?_, fun h => ?_⟩
    · exact ofNat_ne (by decide) (shifted_ne hge (.inl rfl)) (List.mem_singleton.mp h).symm
    · exact ofNat_ne (by decide) (shifted_ne hge (.inr rfl)) (List.mem_singleton.mp h).symm

theorem not_mem_upper (s : List Char) : 'm' ∉ upper s := by
  rw [upper, List.mem_flatMap]
  rintro ⟨c, -, h⟩
  exact (upperChar_ne c).2.2 h

end Text

namespace Naming

open Text

theorem head_trimUnderscores {s rest : List Char} {c : Char} (h : trimUnderscores s = c :: rest) :
    c ≠ '_' := by
  have hp : trimUnderscores s <+: s.dropWhile (· == '_') := List.rdropWhile_prefix _ _
  obtain ⟨more, hm⟩ := hp
  have hhead := List.head?_dropWhile_not (· == '_') s
  rw [← hm, h] at hhead
  simpa using hhead

theorem last_trimUnderscores {s rest : List Char} {c : Char} (h : trimUnderscores s = rest ++ [c]) :
    c ≠ '_' := by
  have hhead := List.head?_dropWhile_not (· == '_') (s.dropWhile (· == '_')).reverse
  have hr : (s.dropWhile (· == '_')).reverse.dropWhile (· == '_') = c :: rest.reverse := by
    rw [← List.reverse_reverse (List.dropWhile _ _)]
    change (trimUnderscores s).reverse = _
    simp [h]
  rw [hr] at hhead
  simpa using hhead

theorem head_upperWords {s rest : List Char} {c : Char} (h : upperWords s = c :: rest) : c ≠ '_' := by
  unfold upperWords upper at h
  cases ht : trimUnderscores (joinWords false s) with
  | nil =>
    rw [ht] at h
    cases h
  | cons d more =>
    rw [ht, List.flatMap_cons] at h
    obtain ⟨hne, hline, -⟩ := upperChar_ne d
    obtain ⟨x, xs, hx⟩ := List.exists_cons_of_ne_nil hne
    rw [hx, List.cons_append] at h
    obtain ⟨rfl, -⟩ := List.cons.inj h
    rintro rfl
    exact hline (head_trimUnderscores ht) (by rw [hx]; exact List.mem_cons_self ..)

theorem last_upperWords {s rest : List Char} {c : Char} (h : upperWords s = rest ++ [c]) : c ≠ '_' := by
  unfold upperWords upper at h
  rcases List.eq_nil_or_concat' (trimUnderscores (joinWords false s)) with ht | ⟨more, d, ht⟩
  · rw [ht] at h
    simp at h
  · rw [ht, List.flatMap_append, List.flatMap_singleton] at h
    obtain ⟨hne, hline, -⟩ := upperChar_ne d
    rcases List.eq_nil_or_concat' (upperChar d) with hx | ⟨xs, x, hx⟩
    · exact absurd hx hne
    · rw [hx, ← List.append_assoc] at h
      obtain ⟨-, hc⟩ := List.append_inj' h rfl
      cases hc
      rintro rfl
      exact hline (last_trimUnderscores ht) (by rw [hx]; simp)

/-- A name that is neither reserved nor private as long as no underscore is put after it. -/
structure Upright (name : List Char) : Prop where
  nonempty : name ≠ []
  letter : 'm' ∉ name
  head : ∀ rest, name = '_' :: rest → ∃ d more, rest = d :: more ∧ isDigit d = true
  last : ∀ rest, name ≠ rest ++ ['_']

theorem display_position (position : Nat) :
    (Value.int position).display.toList = Nat.toDigits 10 position := by
  change (Nat.repr position).toList = _
  rw [Nat.repr, String.toList_ofList]

theorem upright_valueName (position : Nat) :
    Upright ("VALUE_".toList ++ (Value.int position).display.toList) := by
  rw [display_position]
  have hdigit (c : Char) (hc : c ∈ Nat.toDigits 10 position) : c.isDigit = true :=
    Nat.isDigit_of_mem_toDigits (by decide) (by decide) hc
  refine ⟨by simp, fun h => ?_, fun rest h => by simp at h, fun rest h => ?_⟩
  · rcases List.mem_append.mp h with h | h
    · revert h
      decide
    · cases hdigit _ h
  · rcases List.eq_nil_or_concat' (Nat.toDigits 10 position) with hnil | ⟨more, d, hd⟩
    · exact Nat.toDigits_ne_nil hnil
    · rw [hd, ← List.append_assoc] at h
      obtain ⟨-, hc⟩ := List.append_inj' h rfl
      cases hc
      cases hdigit '_' (by rw [hd]; simp)

theorem upright_memberName (v : Value) (position : Nat) :
    Upright (memberName v (.int position)).toList := by
  rw [memberName, String.toList_ofList, memberNameOf]
  have hletter : 'm' ∉ upperWords v.display.toList := not_mem_upper _
  have hlast (rest : List Char) : upperWords v.display.toList ≠ rest ++ ['_'] :=
    fun h => last_upperWords h rfl
  have hhead (rest : List Char) : upperWords v.display.toList ≠ '_' :: rest :=
    fun h => head_upperWords h rfl
  generalize upperWords v.display.toList = words at hletter hlast hhead
  cases words with
  | nil => exact upright_valueName position
  | cons c rest =>
    dsimp only
    split
    · rename_i hc
      refine ⟨by simp, ?_, fun more h => ?_, fun more h => ?_⟩
      · rw [List.mem_cons, not_or]
        exact ⟨by decide, hletter⟩
      · cases h
        exact ⟨c, rest, rfl, hc⟩
      · cases more with
        | nil => cases h
        | cons d more =>
          rw [List.cons_append] at h
          exact hlast more (List.cons.inj h).2
    · exact ⟨by simp, hletter, fun more h => absurd h (hhead more), hlast⟩

theorem untaken_eq (taken : List String) (fuel : Nat) (name : String) :
    ∃ k, untaken taken fuel name = name ++ String.ofList (List.replicate k '_') ∧
      (k ≠ 0 → name ∈ taken) := by
  induction fuel generalizing name with
  | zero => exact ⟨0, by simp [untaken], nofun⟩
  | succ fuel ih =>
    rw [untaken]
    by_cases hn : name ∈ taken
    · rw [if_pos hn]
      obtain ⟨k, hk, -⟩ := ih (name ++ "_")
      refine ⟨k + 1, ?_, fun _ => hn⟩
      apply String.toList_injective
      rw [hk]
      simp [List.replicate_succ]
    · rw [if_neg hn]
      exact ⟨0, by simp, fun h => absurd rfl h⟩

theorem mem_of_untaken_mem {taken : List String} (fuel : Nat) {name : String}
    (h : untaken taken fuel name ∈ taken) {i : Nat} (hi : i ≤ fuel) :
    name ++ String.ofList (List.replicate i '_') ∈ taken := by
  induction fuel generalizing name i with
  | zero =>
    obtain rfl : i = 0 := by omega
    simpa [untaken] using h
  | succ fuel ih =>
    rw [untaken] at h
    by_cases hn : name ∈ taken
    · rw [if_pos hn] at h
      cases i with
      | zero => simpa using hn
      | succ i =>
        have hmem := ih h (i := i) (by omega)
        have heq : name ++ "_" ++ String.ofList (List.replicate i '_') =
            name ++ String.ofList (List.replicate (i + 1) '_') := by
          apply String.toList_injective
          simp [List.replicate_succ]
        rwa [heq] at hmem
    · rw [if_neg hn] at h
      exact absurd h hn

theorem untaken_not_mem {taken : List String} {fuel : Nat} (hf : taken.length ≤ fuel) (name : String) :
    untaken taken fuel name ∉ taken := by
  intro hmem
  -- One name for each step of the search, and the first one: these are more than there are taken.
  have hsub : (List.range (fuel + 1)).map (fun i => name ++ String.ofList (List.replicate i '_')) ⊆
      taken := by
    intro s hs
    obtain ⟨i, hi, rfl⟩ := List.mem_map.mp hs
    exact mem_of_untaken_mem fuel hmem (by simpa [Nat.lt_succ_iff] using hi)
  have hd : ((List.range (fuel + 1)).map fun i => name ++ String.ofList (List.replicate i '_')).Nodup := by
    refine List.Nodup.map (fun i j h => ?_) List.nodup_range
    have hlen := congrArg String.length h
    simpa using hlen
  have hlen := (List.subperm_of_subset hd hsub).length_le
  rw [List.length_map, List.length_range] at hlen
  omega

theorem nodup_nameMembers {named : List (String × Value)} (h : (named.map (·.1)).Nodup)
    (position : Nat) (values : List Value) :
    ((nameMembers named position values).map (·.1)).Nodup := by
  induction values generalizing named position with
  | nil => exact h
  | cons v rest ih =>
    rw [nameMembers]
    apply ih
    rw [List.map_append, List.map_singleton, List.nodup_append_comm, List.singleton_append,
      List.nodup_cons]
    exact ⟨untaken_not_mem (Nat.le_refl _) _, h⟩

theorem nodup_enumMembers (values : List Value) : ((enumMembers values).map (·.1)).Nodup := by
  have hnone : (([] : List (String × Value)).map (·.1)).Nodup := List.nodup_nil
  exact nodup_nameMembers hnone 0 values

theorem values_nameMembers (named : List (String × Value)) (position : Nat) (values : List Value) :
    (nameMembers named position values).map (·.2) = named.map (·.2) ++ values := by
  induction values generalizing named position with
  | nil => simp [nameMembers]
  | cons v rest ih => simp [nameMembers, ih]

theorem values_enumMembers (values : List Value) : (enumMembers values).map (·.2) = values :=
  values_nameMembers [] 0 values

def NamedAt (values : List Value) (members : List (String × Value)) (j : Nat) : Prop :=
  ∀ m, members[j]? = some m → ∃ v k, values[j]? = some v ∧
    m.1 = memberName v (.int j) ++ String.ofList (List.replicate k '_') ∧
    (k ≠ 0 → ∃ i u, i < j ∧ members[i]? = some (memberName v (.int j), u))

theorem NamedAt.snoc {values : List Value} {members : List (String × Value)} {j : Nat}
    (h : NamedAt values members j) (hj : j < members.length) (last : String × Value) :
    NamedAt values (members ++ [last]) j := by
  intro m hm
  rw [List.getElem?_append_left hj] at hm
  obtain ⟨v, k, hv, hname, htaken⟩ := h m hm
  refine ⟨v, k, hv, hname, fun hk => ?_⟩
  obtain ⟨i, u, hi, hu⟩ := htaken hk
  exact ⟨i, u, hi, by rw [List.getElem?_append_left (by omega), hu]⟩

theorem nameMembers_namedAt {before rest : List Value} {named : List (String × Value)}
    (hlen : named.length = before.length) (h : ∀ j, NamedAt (before ++ rest) named j) (j : Nat) :
    NamedAt (before ++ rest) (nameMembers named before.length rest) j := by
  -- Value by value: `before` are those that are named by now, in the order of `named`.
  induction rest generalizing before named with
  | nil => exact h j
  | cons v rest ih =>
    rw [nameMembers]
    obtain ⟨k, hk, htaken⟩ := untaken_eq (named.map (·.1)) (named.map (·.1)).length
      (memberName v (.int before.length))
    generalize untaken (named.map (·.1)) (named.map (·.1)).length (memberName v (.int before.length)) =
      name at hk ⊢
    have hlast : ∀ i, NamedAt (before ++ v :: rest) (named ++ [(name, v)]) i := by
      intro i
      by_cases hi : i < named.length
      · exact (h i).snoc hi _
      · intro m hm
        rw [List.getElem?_append_right (by omega)] at hm
        obtain ⟨hlt, rfl⟩ := List.getElem?_eq_some_iff.mp hm
        have hi : i = before.length := by
          simp only [List.length_singleton] at hlt
          omega
        subst hi
        refine ⟨v, k, by simp, by simpa using hk, fun hk => ?_⟩
        obtain ⟨e, he, hname⟩ := List.mem_map.mp (htaken hk)
        obtain ⟨p, hp⟩ := List.getElem?_of_mem he
        have hlt := (List.getElem?_eq_some_iff.mp hp).1
        refine ⟨p, e.2, by omega, ?_⟩
        rw [List.getElem?_append_left hlt, hp, ← hname]
    have hsplit : before ++ v :: rest = (before ++ [v]) ++ rest := by simp
    have hmore : NamedAt ((before ++ [v]) ++ rest)
        (nameMembers (named ++ [(name, v)]) (before ++ [v]).length rest) j :=
      ih (by simp [hlen]) (by rwa [← hsplit])
    rw [← hsplit, List.length_append, List.length_singleton] at hmore
    exact hmore

theorem enumMembers_namedAt (values : List Value) (j : Nat) : NamedAt values (enumMembers values) j := by
  have hnone (i : Nat) : NamedAt ([] ++ values) [] i := nofun
  exact nameMembers_namedAt rfl hnone j

section Members

variable {values : List Value} {m : String × Value}

theorem exists_upright (h : m ∈ enumMembers values) :
    ∃ base k, m.1.toList = base ++ List.replicate k '_' ∧ Upright base := by
  obtain ⟨j, hj⟩ := List.getElem?_of_mem h
  obtain ⟨v, k, -, hname, -⟩ := enumMembers_namedAt values j m hj
  exact ⟨(memberName v (.int j)).toList, k, by rw [hname, String.toList_append, String.toList_ofList],
    upright_memberName v j⟩

theorem member_letter (h : m ∈ enumMembers values) : 'm' ∉ m.1.toList := by
  obtain ⟨base, k, hm, hbase⟩ := exists_upright h
  rw [hm, List.mem_append, not_or]
  exact ⟨hbase.letter, by simp⟩

theorem member_nonempty (h : m ∈ enumMembers values) : m.1.toList ≠ [] := by
  obtain ⟨base, k, hm, hbase⟩ := exists_upright h
  rw [hm]
  simp [hbase.nonempty]

theorem member_head (h : m ∈ enumMembers values) {rest : List Char} (hr : m.1.toList = '_' :: rest) :
    ∃ d more, rest = d :: more ∧ isDigit d = true := by
  obtain ⟨base, k, hm, hbase⟩ := exists_upright h
  obtain ⟨c, more, rfl⟩ := List.exists_cons_of_ne_nil hbase.nonempty
  rw [hm, List.cons_append] at hr
  obtain ⟨rfl, hrest⟩ := List.cons.inj hr
  obtain ⟨d, tail, rfl, hd⟩ := hbase.head more rfl
  exact ⟨d, tail ++ List.replicate k '_', hrest.symm, hd⟩

def Colliding (values : List Value) : Prop :=
  ∃ (i j : Nat) (u v : Value), i < j ∧ values[i]? = some u ∧ values[j]? = some v ∧
    memberName u (.int i) = memberName v (.int j) ∧ (memberName v (.int j)).toList.head? = some '_'

theorem colliding_of_member (h : m ∈ enumMembers values) (hhead : m.1.toList.head? = some '_')
    (hlast : m.1.toList.getLast? = some '_') : Colliding values := by
  obtain ⟨j, hj⟩ := List.getElem?_of_mem h
  obtain ⟨v, k, hv, hname, htaken⟩ := enumMembers_namedAt values j m hj
  have hup := upright_memberName v j
  have hlist : m.1.toList = (memberName v (.int j)).toList ++ List.replicate k '_' := by
    rw [hname, String.toList_append, String.toList_ofList]
  have hopens : (memberName v (.int j)).toList.head? = some '_' := by
    rw [hlist, List.head?_append_of_ne_nil _ hup.nonempty] at hhead
    exact hhead
  have hk : k ≠ 0 := by
    rintro rfl
    rw [hlist, List.replicate_zero, List.append_nil, List.getLast?_eq_some_iff] at hlast
    obtain ⟨rest, hrest⟩ := hlast
    exact hup.last rest hrest
  obtain ⟨i, u, hij, hi⟩ := htaken hk
  obtain ⟨v', k', hv', hname', -⟩ := enumMembers_namedAt values i _ hi
  refine ⟨i, j, v', v, hij, hv', hv, ?_, hopens⟩
  -- The earlier member has the very name that its value gives: no such name ends in an underscore.
  cases k' with
  | zero => simpa using hname'.symm
  | succ k' =>
    have hend := congrArg String.toList hname'
    rw [String.toList_append, String.toList_ofList, List.replicate_succ', ← List.append_assoc] at hend
    exact absurd hend (hup.last _)

end Members

end Naming
end SchemaCompiler
