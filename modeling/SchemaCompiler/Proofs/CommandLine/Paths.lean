import Mathlib.Data.List.Basic
import SchemaCompiler.CommandLine.Path

namespace SchemaCompiler.CommandLine.Path

structure IsName (name : String) : Prop where
  nonempty : name ≠ ""
  ne_dot : name ≠ "."
  ne_dots : name ≠ ".."
  no_slash : '/' ∉ name.toList

instance (name : String) : Decidable (IsName name) :=
  decidable_of_iff (name ≠ "" ∧ name ≠ "." ∧ name ≠ ".." ∧ '/' ∉ name.toList)
    ⟨fun h => ⟨h.1, h.2.1, h.2.2.1, h.2.2.2⟩, fun h => ⟨h.1, h.2, h.3, h.4⟩⟩

theorem splitFrom_append (part name rest : List Char) (h : '/' ∉ name) :
    splitFrom part (name ++ rest) = splitFrom (name.reverse ++ part) rest := by
  induction name generalizing part with
  | nil => rfl
  | cons c cs ih =>
    have hc : c ≠ '/' := fun hc => h (by simp [hc])
    have hcs : '/' ∉ cs := fun hcs => h (List.mem_cons_of_mem _ hcs)
    rw [List.cons_append, splitFrom, if_neg hc, ih _ hcs]
    simp

theorem splitFrom_names {names : List String} (hne : names ≠ [])
    (h : ∀ name ∈ names, '/' ∉ name.toList) :
    splitFrom [] ("/".intercalate names).toList = names := by
  induction names with
  | nil => exact absurd rfl hne
  | cons name rest ih =>
    have hname := h name (by simp)
    cases rest with
    | nil =>
      have hs := splitFrom_append [] name.toList [] hname
      rw [List.append_nil] at hs
      simp [hs, splitFrom]
    | cons next rest =>
      have hs := splitFrom_append [] name.toList ('/' :: ("/".intercalate (next :: rest)).toList) hname
      rw [String.intercalate_cons_cons, String.toList_append, String.toList_append, List.append_assoc,
        show "/".toList = ['/'] from rfl, List.singleton_append, hs, splitFrom, if_pos rfl,
        ih (by simp) fun n hn => h n (List.mem_cons_of_mem _ hn)]
      simp

theorem no_slash_of_mem_splitFrom {part cs : List Char} (hp : '/' ∉ part) {name : String}
    (h : name ∈ splitFrom part cs) : '/' ∉ name.toList := by
  induction cs generalizing part with
  | nil =>
    rw [splitFrom, List.mem_singleton] at h
    simpa [h] using hp
  | cons c rest ih =>
    rw [splitFrom] at h
    split at h
    · rcases List.mem_cons.mp h with rfl | h
      · simpa using hp
      · exact ih (by simp) h
    · rename_i hc
      apply ih _ h
      simp [hp, Ne.symm hc]

theorem parts_ofParts {names : List String} (h : ∀ name ∈ names, IsName name) :
    parts (ofParts names) = names := by
  have hall : names.filter (fun part => part ≠ "" && part ≠ ".") = names := by
    rw [List.filter_eq_self]
    intro name hname
    simp [(h name hname).nonempty, (h name hname).ne_dot]
  unfold parts ofParts
  rw [String.toList_append, show "/".toList = ['/'] from rfl, List.singleton_append, splitFrom,
    if_pos rfl, List.filter_cons_of_neg (by simp)]
  by_cases hne : names = []
  · subst hne
    decide
  · rw [splitFrom_names hne fun name hname => (h name hname).no_slash, hall]

theorem isName_of_mem_parts {path name : String} (h : name ∈ parts path) (hd : name ≠ "..") :
    IsName name := by
  obtain ⟨hmem, hkept⟩ := List.mem_filter.mp h
  simp only [Bool.and_eq_true, decide_eq_true_eq] at hkept
  exact ⟨hkept.1, hkept.2, hd, no_slash_of_mem_splitFrom (by simp) hmem⟩

theorem mem_absoluteParts {directory : List String} {path name : String}
    (h : name ∈ absoluteParts directory path) :
    (name ∈ parts path ∧ name ≠ "..") ∨ name ∈ directory := by
  have walk (here names : List String) (hname : name ∈ names.foldl
      (fun here part => if part = ".." then here.dropLast else here ++ [part]) here) :
      (name ∈ names ∧ name ≠ "..") ∨ name ∈ here := by
    induction names generalizing here with
    | nil => exact .inr hname
    | cons part rest ih =>
      rcases ih _ hname with ⟨hrest, hdots⟩ | hhere
      · exact .inl ⟨List.mem_cons_of_mem _ hrest, hdots⟩
      dsimp only at hhere
      split at hhere
      · exact .inr (List.dropLast_subset _ hhere)
      · rename_i hdots
        rcases List.mem_append.mp hhere with hhere | hpart
        · exact .inr hhere
        · rw [List.mem_singleton.mp hpart]
          exact .inl ⟨List.mem_cons_self, hdots⟩
  rcases walk _ _ h with hparts | hstart
  · exact .inl hparts
  · split at hstart
    · cases hstart
    · exact .inr hstart

theorem isName_of_mem_absoluteParts {directory : List String}
    (hdir : ∀ name ∈ directory, IsName name) {path name : String}
    (h : name ∈ absoluteParts directory path) : IsName name := by
  rcases mem_absoluteParts h with ⟨hparts, hdots⟩ | hname
  · exact isName_of_mem_parts hparts hdots
  · exact hdir name hname

theorem parts_absolute {directory : List String} (hdir : ∀ name ∈ directory, IsName name)
    (path : String) : parts (absolute directory path) = absoluteParts directory path :=
  parts_ofParts fun _ hname => isName_of_mem_absoluteParts hdir hname

theorem mem_ofParts {names : List String} {c : Char} (h : c ∈ (ofParts names).toList) :
    c = '/' ∨ ∃ name ∈ names, c ∈ name.toList := by
  rw [ofParts, String.toList_append, List.mem_append] at h
  rcases h with h | h
  · exact .inl (List.mem_singleton.mp h)
  · induction names with
    | nil => cases h
    | cons name rest ih =>
      cases rest with
      | nil => exact .inr ⟨name, by simp, by simpa using h⟩
      | cons next rest =>
        rw [String.intercalate_cons_cons, String.toList_append, String.toList_append, List.mem_append,
          List.mem_append] at h
        rcases h with (h | h) | h
        · exact .inr ⟨name, by simp, h⟩
        · exact .inl (List.mem_singleton.mp h)
        · rcases ih h with hslash | ⟨other, hother, hc⟩
          · exact .inl hslash
          · exact .inr ⟨other, List.mem_cons_of_mem _ hother, hc⟩

theorem mem_of_mem_splitFrom {part cs : List Char} {name : String} (h : name ∈ splitFrom part cs)
    {c : Char} (hc : c ∈ name.toList) : c ∈ part ∨ c ∈ cs := by
  induction cs generalizing part with
  | nil =>
    rw [splitFrom, List.mem_singleton] at h
    exact .inl (by simpa [h] using hc)
  | cons d rest ih =>
    rw [splitFrom] at h
    split at h
    · rcases List.mem_cons.mp h with rfl | h
      · exact .inl (by simpa using hc)
      · exact .inr (List.mem_cons_of_mem _ ((ih h).resolve_left (List.not_mem_nil)))
    · rcases ih h with hpart | hrest
      · rcases List.mem_cons.mp hpart with rfl | hpart
        · exact .inr List.mem_cons_self
        · exact .inl hpart
      · exact .inr (List.mem_cons_of_mem _ hrest)

theorem mem_absolute {directory : List String} {path : String} {c : Char}
    (h : c ∈ (absolute directory path).toList) :
    c = '/' ∨ c ∈ path.toList ∨ ∃ name ∈ directory, c ∈ name.toList := by
  rcases mem_ofParts h with hslash | ⟨name, hname, hc⟩
  · exact .inl hslash
  rcases mem_absoluteParts hname with ⟨hparts, -⟩ | hname
  · have hmem := mem_of_mem_splitFrom (List.mem_filter.mp hparts).1 hc
    exact .inr (.inl (hmem.resolve_left (List.not_mem_nil)))
  · exact .inr (.inr ⟨name, hname, hc⟩)

theorem isAbsolute_absolute (directory : List String) (path : String) :
    isAbsolute (absolute directory path) = true := by
  simp [isAbsolute, absolute, ofParts]

end SchemaCompiler.CommandLine.Path
