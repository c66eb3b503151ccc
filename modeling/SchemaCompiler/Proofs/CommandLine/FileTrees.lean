import SchemaCompiler.CommandLine.FileTree
import SchemaCompiler.Proofs.CommandLine.Paths

namespace SchemaCompiler.CommandLine.FileTree

variable {t t' : FileTree} {place here q : List String} {path text : String} {e : Entry}

structure Proper (t : FileTree) : Prop where
  names : ∀ name ∈ t.workingDirectory, Path.IsName name
  no_nul : ∀ name ∈ t.workingDirectory, '\x00' ∉ name.toList

instance : Decidable t.Proper :=
  decidable_of_iff ((∀ name ∈ t.workingDirectory, Path.IsName name) ∧
      ∀ name ∈ t.workingDirectory, '\x00' ∉ name.toList)
    ⟨fun h => ⟨h.1, h.2⟩, fun h => ⟨h.1, h.2⟩⟩

structure Writable (t : FileTree) (place : List String) : Prop where
  not_root : place ≠ []
  not_directory : t.at? place ≠ some .directory

theorem lookup_putIn (place : List String) (e : Entry) (entries : List (List String × Entry))
    (q : List String) :
    (putIn place e entries).lookup q = if q = place then some e else entries.lookup q := by
  induction entries with
  | nil =>
    rw [putIn, List.lookup_cons]
    by_cases h : q = place
    · simp [h]
    · simp [h, beq_eq_false_iff_ne.mpr h]
  | cons entry rest ih =>
    obtain ⟨p, f⟩ := entry
    rw [putIn]
    by_cases hp : p = place
    · subst hp
      rw [if_pos rfl, List.lookup_cons, List.lookup_cons]
      by_cases h : q = p
      · simp [h]
      · simp [h, beq_eq_false_iff_ne.mpr h]
    · rw [if_neg hp, List.lookup_cons, List.lookup_cons, ih]
      by_cases hq : q = p
      · simp [hq, hp]
      · simp [beq_eq_false_iff_ne.mpr hq]

theorem putIn_putIn (place : List String) (e f : Entry) (entries : List (List String × Entry)) :
    putIn place e (putIn place f entries) = putIn place e entries := by
  induction entries with
  | nil => simp [putIn]
  | cons entry rest ih =>
    obtain ⟨p, g⟩ := entry
    by_cases h : p = place <;> simp [putIn, h, ih]

@[simp] theorem put_put (t : FileTree) (place : List String) (e f : Entry) :
    (t.put place f).put place e = t.put place e := by
  simp [put, putIn_putIn]

theorem putIn_self {entries : List (List String × Entry)} (h : entries.lookup place = some e) :
    putIn place e entries = entries := by
  induction entries with
  | nil => cases h
  | cons entry rest ih =>
    obtain ⟨p, f⟩ := entry
    rw [List.lookup_cons] at h
    by_cases hp : p = place
    · subst hp
      simp only [beq_self_eq_true, Option.some.injEq] at h
      simp [putIn, h]
    · simp only [beq_eq_false_iff_ne.mpr (Ne.symm hp)] at h
      simp [putIn, hp, ih h]

theorem put_self (hplace : place ≠ []) (h : t.at? place = some e) : t.put place e = t := by
  unfold at? at h
  rw [if_neg hplace] at h
  simp [put, putIn_self h]

theorem at?_put (h : place ≠ []) (q : List String) :
    (t.put place e).at? q = if q = place then some e else t.at? q := by
  unfold at? put
  by_cases hq : q = []
  · subst hq
    simp [Ne.symm h]
  · rw [if_neg hq, if_neg hq, lookup_putIn]

theorem Writable.put (h : t.Writable place) (text : String) :
    (t.put place (.file text)).Writable place :=
  ⟨h.not_root, by simp [at?_put h.not_root]⟩

theorem at?_of_follow {parts : List String} (h : t.follow here parts = .ok (q, e)) :
    t.at? q = some e := by
  induction parts generalizing here with
  | nil =>
    rw [follow] at h
    split at h
    · cases h
      assumption
    · cases h
  | cons part rest ih =>
    rw [follow] at h
    split at h
    · cases h
    · cases h
    · split at h
      · exact ih h
      · split at h
        · cases h
        · exact ih h

theorem place_of_follow {parts : List String} (hparts : ".." ∉ parts)
    (h : t.follow here parts = .ok (q, e)) : q = here ++ parts := by
  induction parts generalizing here with
  | nil =>
    rw [follow] at h
    split at h
    · cases h
      simp
    · cases h
  | cons part rest ih =>
    rw [follow] at h
    split at h
    · cases h
    · cases h
    · rw [if_neg fun hp => hparts (by simp [hp])] at h
      split at h
      · cases h
      · rw [ih (fun hr => hparts (List.mem_cons_of_mem _ hr)) h]
        simp

theorem follow_append (here before after : List String) :
    t.follow here (before ++ after) = (t.follow here before >>= fun r => t.follow r.1 after) := by
  induction before generalizing here with
  | nil =>
    rw [List.nil_append, follow]
    cases h : t.at? here with
    | none => cases after <;> simp [follow, h] <;> rfl
    | some e => rfl
  | cons part rest ih =>
    rw [List.cons_append, follow, follow]
    split
    · rfl
    · rfl
    · split
      · exact ih _
      · split
        · rfl
        · exact ih _

def LeadsOn (place : List String) (text : String) :
    (before after : Except FileFault (List String × Entry)) → Prop
  | .ok (q, e), after => after = .ok (q, if q = place then .file text else e)
  | .error .notFound, after =>
    after = .error .notFound ∨ after = .error .notDirectory ∨ after = .ok (place, .file text)
  | .error fault, after => after = .error fault

theorem follow_put (h : t.Writable place) (text : String) (here parts : List String) :
    LeadsOn place text (t.follow here parts) ((t.put place (.file text)).follow here parts) := by
  have hat := at?_put (t := t) (e := .file text) h.not_root
  induction parts generalizing here with
  | nil =>
    rw [follow, follow, hat]
    by_cases hp : here = place
    · rw [if_pos hp]
      cases t.at? here with
      | none => exact .inr (.inr (by rw [hp]))
      | some e => simp [LeadsOn, hp]
    · rw [if_neg hp]
      cases t.at? here with
      | none => exact .inl rfl
      | some e => simp [LeadsOn, hp]
  | cons part rest ih =>
    rw [follow, follow, hat]
    by_cases hp : here = place
    · rw [if_pos hp]
      cases hd : t.at? here with
      | none => exact .inr (.inl rfl)
      | some e =>
        cases e with
        | file old => rfl
        | directory => exact absurd (hp ▸ hd) h.not_directory
    · rw [if_neg hp]
      cases t.at? here with
      | none => exact .inl rfl
      | some e =>
        cases e with
        | file old => rfl
        | directory =>
          dsimp only
          split
          · exact ih _
          · split
            · rfl
            · exact ih _

theorem locate_put (h : t.Writable place) (text path : String) :
    LeadsOn place text (t.locate path) ((t.put place (.file text)).locate path) := by
  unfold locate
  split
  · rfl
  · exact follow_put h text _ _

theorem stat_put_of_ok (h : t.Writable place) {kind : EntryKind} (hs : t.stat path = .ok kind)
    (text : String) : (t.put place (.file text)).stat path = .ok kind := by
  have hl := locate_put h text path
  unfold stat at hs ⊢
  cases hf : t.locate path with
  | error fault =>
    rw [hf] at hs
    cases hs
  | ok r =>
    obtain ⟨q, e⟩ := r
    rw [hf] at hs hl
    change _ = _ at hl
    rw [hl]
    have hat : t.at? q = some e := by
      unfold locate at hf
      split at hf
      · cases hf
      · exact at?_of_follow hf
    by_cases hq : q = place
    · subst hq
      cases e with
      | file old =>
        rw [if_pos rfl]
        exact hs
      | directory => exact absurd hat h.not_directory
    · simpa [hq] using hs

theorem stat_put_of_error (h : t.Writable place) {fault : FileFault}
    (hs : t.stat path = .error fault) (text : String) :
    (t.put place (.file text)).stat path = .error fault ∨
      fault = .notFound ∧ ((t.put place (.file text)).stat path = .error .notDirectory ∨
        (t.put place (.file text)).stat path = .ok .file) := by
  have hl := locate_put h text path
  unfold stat at hs ⊢
  cases hf : t.locate path with
  | ok r =>
    rw [hf] at hs
    cases hs
  | error other =>
    rw [hf] at hs hl
    cases hs
    cases fault with
    | notFound =>
      rcases hl with hl | hl | hl
      · exact .inl (by rw [hl]; rfl)
      · exact .inr ⟨rfl, .inl (by rw [hl]; rfl)⟩
      · exact .inr ⟨rfl, .inr (by rw [hl]; rfl)⟩
    | _ =>
      change _ = _ at hl
      exact .inl (by rw [hl]; rfl)

theorem stat_put_of_file {old : String} (hplace : place ≠ []) (h : t.at? place = some (.file old))
    (text path : String) : (t.put place (.file text)).stat path = t.stat path := by
  have hw : t.Writable place := ⟨hplace, by simp [h]⟩
  have hback : (t.put place (.file text)).put place (.file old) = t := by
    rw [put_put, put_self hplace h]
  cases hs : t.stat path with
  | ok kind => exact stat_put_of_ok hw hs text
  | error fault =>
    rcases stat_put_of_error hw hs text with hsame | ⟨rfl, hother | hother⟩
    · exact hsame
    · rcases stat_put_of_error (hw.put text) hother old with hs' | ⟨hfault, -⟩
      · rw [hback, hs] at hs'
        cases hs'
      · cases hfault
    · have hs' := stat_put_of_ok (hw.put text) hother old
      rw [hback, hs] at hs'
      cases hs'

theorem kind_of_write {kind : EntryKind} (hw : t.write path text = .ok t') (hs : t.stat path = .ok kind) :
    kind = .file := by
  unfold write at hw
  unfold stat at hs
  split at hw
  · rename_i hl
    rw [hl] at hs
    cases hs
    rfl
  · cases hw
  · rename_i hl
    rw [hl] at hs
    cases hs
  · cases hw

section Absolute

variable (hdir : t.Proper)

include hdir

theorem locate_absolute {r : List String × Entry}
    (h : t.locate (Path.absolute t.workingDirectory path) = .ok r) :
    r.1 = Path.absoluteParts t.workingDirectory path ∧ t.at? r.1 = some r.2 := by
  obtain ⟨q, e⟩ := r
  unfold locate at h
  split at h
  · cases h
  · rw [start, if_pos (Path.isAbsolute_absolute _ _), Path.parts_absolute hdir.names] at h
    refine ⟨?_, at?_of_follow h⟩
    apply place_of_follow _ h
    intro hdots
    exact (Path.isName_of_mem_absoluteParts hdir.names hdots).ne_dots rfl

theorem read_put_of_ok (h : t.Writable place) {s : String}
    (hne : Path.absoluteParts t.workingDirectory path ≠ place)
    (hr : t.read (Path.absolute t.workingDirectory path) = .ok s) (text : String) :
    (t.put place (.file text)).read (Path.absolute t.workingDirectory path) = .ok s := by
  have hl := locate_put h text (Path.absolute t.workingDirectory path)
  unfold read at hr ⊢
  cases hf : t.locate (Path.absolute t.workingDirectory path) with
  | error fault =>
    rw [hf] at hr
    cases hr
  | ok r =>
    obtain ⟨q, e⟩ := r
    have hq : q = _ := (locate_absolute hdir hf).1
    rw [hf] at hr hl
    change _ = _ at hl
    rw [hl, if_neg (hq ▸ hne)]
    exact hr

theorem newPlace_absolute (text : String)
    (hl : t.locate (Path.absolute t.workingDirectory path) = .error .notFound)
    (hn : t.newPlace (Path.absolute t.workingDirectory path) = .ok place) :
    place = Path.absoluteParts t.workingDirectory path ∧ place ≠ [] ∧ t.at? place = none ∧
      (t.put place (.file text)).locate (Path.absolute t.workingDirectory path) =
        .ok (place, .file text) := by
  unfold locate at hl ⊢
  split at hl
  · cases hl
  rename_i hlimit
  rw [if_neg hlimit]
  have hnames : ".." ∉ Path.absoluteParts t.workingDirectory path := fun hdots =>
    (Path.isName_of_mem_absoluteParts hdir.names hdots).ne_dots rfl
  have hstart (s : FileTree) : s.start (Path.absolute t.workingDirectory path) = [] :=
    if_pos (Path.isAbsolute_absolute _ _)
  unfold newPlace at hn
  rw [hstart, Path.lastPart, Path.parts_absolute hdir.names] at hn
  rw [hstart, Path.parts_absolute hdir.names] at hl ⊢
  -- The root is there, so a path where nothing is has a last part.
  rcases List.eq_nil_or_concat (Path.absoluteParts t.workingDirectory path) with hnil | ⟨above, last, hlast⟩
  · rw [hnil] at hl
    cases hl
  rw [List.concat_eq_append] at hlast
  rw [hlast] at hl hn hnames ⊢
  rw [List.dropLast_concat, List.getLast?_concat, Option.getD_some] at hn
  rw [follow_append] at hl ⊢
  cases ha : t.follow [] above with
  | error fault =>
    rw [ha] at hn
    cases hn
  | ok r =>
    obtain ⟨here, e⟩ := r
    have hhere := place_of_follow (fun hd => hnames (List.mem_append_left _ hd)) ha
    have hat := at?_of_follow ha
    rw [List.nil_append] at hhere
    subst hhere
    rw [ha] at hn hl
    cases e with
    | file old => cases hn
    | directory =>
      cases hn
      have hdots : last ≠ ".." := fun hd => hnames (by simp [hd])
      have hl : t.follow here [last] = .error .notFound := hl
      rw [follow, hat] at hl
      dsimp only at hl
      rw [if_neg hdots] at hl
      split at hl
      · cases hl
      rename_i hshort
      rw [follow] at hl
      have hnone : t.at? (here ++ [last]) = none := by
        cases hat : t.at? (here ++ [last]) with
        | none => rfl
        | some e =>
          rw [hat] at hl
          cases hl
      refine ⟨rfl, by simp, hnone, ?_⟩
      have hw : t.Writable (here ++ [last]) := ⟨by simp, by simp [hnone]⟩
      have hthere := follow_put hw text [] here
      rw [ha] at hthere
      have hother : here ≠ here ++ [last] := by simp
      change _ = _ at hthere
      rw [if_neg hother] at hthere
      rw [hthere]
      change follow _ here [last] = _
      rw [follow, at?_put hw.not_root, if_neg hother, hat]
      dsimp only
      rw [if_neg hdots, if_neg hshort, follow, at?_put hw.not_root, if_pos rfl]

theorem write_absolute (hw : t.write (Path.absolute t.workingDirectory path) text = .ok t') :
    t.Writable (Path.absoluteParts t.workingDirectory path) ∧
      t' = t.put (Path.absoluteParts t.workingDirectory path) (.file text) ∧
      t'.locate (Path.absolute t.workingDirectory path) =
        .ok (Path.absoluteParts t.workingDirectory path, .file text) := by
  unfold write at hw
  split at hw
  · rename_i place old hl
    cases hw
    obtain ⟨hplace, hat⟩ := locate_absolute hdir hl
    dsimp only at hplace hat
    subst hplace
    have h : t.Writable (Path.absoluteParts t.workingDirectory path) := by
      refine ⟨fun hroot => ?_, by simp [hat]⟩
      rw [hroot] at hat
      cases hat
    have hthere := locate_put h text (Path.absolute t.workingDirectory path)
    rw [hl] at hthere
    change _ = _ at hthere
    rw [if_pos rfl] at hthere
    exact ⟨h, rfl, hthere⟩
  · cases hw
  · rename_i hl
    cases hn : t.newPlace (Path.absolute t.workingDirectory path) with
    | error fault =>
      rw [hn] at hw
      cases hw
    | ok place =>
      rw [hn] at hw
      cases hw
      obtain ⟨hplace, hroot, hnone, hthere⟩ := newPlace_absolute hdir text hl hn
      rw [← hplace]
      exact ⟨⟨hroot, by simp [hnone]⟩, rfl, hthere⟩
  · cases hw

theorem read_written (hw : t.write (Path.absolute t.workingDirectory path) text = .ok t') :
    t'.read (Path.absolute t.workingDirectory path) = .ok text := by
  obtain ⟨-, -, hthere⟩ := write_absolute hdir hw
  rw [read, hthere]

theorem write_again (hw : t.write (Path.absolute t.workingDirectory path) text = .ok t')
    (other : String) : t'.write (Path.absolute t.workingDirectory path) other =
      .ok (t.put (Path.absoluteParts t.workingDirectory path) (.file other)) := by
  obtain ⟨-, hput, hthere⟩ := write_absolute hdir hw
  rw [write, hthere]
  dsimp only
  rw [hput, put_put]

end Absolute

theorem Proper.put (hdir : t.Proper) (place : List String) (e : Entry) : (t.put place e).Proper :=
  ⟨hdir.names, hdir.no_nul⟩

end SchemaCompiler.CommandLine.FileTree
