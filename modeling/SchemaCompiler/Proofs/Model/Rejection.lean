import SchemaCompiler.Proofs.Model.Refusal

namespace SchemaCompiler

open Work Node

variable {w : Workspace} {o : Options} {α : Type} {key : Value} {kind : Option Kind}

theorem Checks.spoiled {x : Work α} {k : Value} {node : Node} {Q : α → Prop} {w' : Workspace}
    (h : Checks x w ((k, node) :: node.visits) Q)
    (hx : x w = .error (.unsupportedKind key kind) w') : node.spoiled = true := by
  obtain ⟨found, hfind, -⟩ := h.of_error hx
  cases hs : node.spoiled with
  | true => rfl
  | false =>
    have hclear : Clear ((k, node) :: node.visits) := List.forall_mem_cons.mpr (spoiled_eq_false.mp hs)
    rw [find?_offends_eq_none.mpr hclear] at hfind
    cases hfind

theorem synthesize_refused {source other : Node} {description : Value}
    {compileFields compileOthers : Options → Work (List CompiledField)} {w' : Workspace}
    (hw : Faultless w)
    (hfields : ∀ name generatedName v v', Faultless v →
      compileFields { o with name, generatedName } v = .error (.unsupportedKind key kind) v' →
      compileOthers { o with name, generatedName } v = .error (.unsupportedKind key kind) v')
    (h : synthesize o source description compileFields w = .error (.unsupportedKind key kind) w') :
    synthesize o other description compileOthers w = .error (.unsupportedKind key kind) w' := by
  have hname := modelName_checks (o := o) hw description
  have hrun := synthesis w o source description compileFields
  rw [h] at hrun
  generalize hr : EStateM.Result.error (Failure.unsupportedKind key kind) w' = r at hrun
  cases hrun with
  | unnamed name =>
    cases hr
    obtain ⟨node, hfind, -⟩ := hname.of_error name
    cases hfind
  | refused name reason =>
    cases hr
    rcases reason with h | h <;> cases h
  | held name same => cases hr
  | @failed naming w1 _ key e name isKey free fields =>
    cases hr
    obtain ⟨hw1, -⟩ := hname.of_ok name
    have hothers : compileOthers (o.within naming) w1 = .error (.unsupportedKind _ kind) w' :=
      hfields _ _ w1 w' hw1 fields
    rw [synthesize_eq, name]
    dsimp only
    rw [isKey]
    dsimp only
    rw [free]
    dsimp only
    rw [hothers]
  | @made naming _ w2 fields name compiled =>
    have hends := defineModel_ends (o := o) (w := w2) naming source fields
    unfold Ends at hends
    rw [← hr] at hends
    exact absurd rfl (hends key kind)

theorem compileField_cut {node : Node} {k : Value} {fieldKind : Kind} {w' : Workspace} (hw : Faultless w)
    (hname : o.enumName = none) (ho : o.builder = none)
    (hcut : classify o k node w = .error (.unsupportedKind key kind) w' →
      classify o k node.cut w = .error (.unsupportedKind key kind) w')
    (h : compileField o k node fieldKind (classify o k node) w =
      .error (.unsupportedKind key kind) w') :
    compileField o k node.cut fieldKind (classify o k node.cut) w =
      .error (.unsupportedKind key kind) w' := by
  cases hr : classify o k node w with
  | error e w1 =>
    unfold compileField at h ⊢
    rw [bind_of_error hr] at h
    cases h
    exact bind_of_error (hcut hr) _
  | ok c w1 =>
    have hclear := ((classify_checks o ho hname k node w hw).of_ok hr).2
    rw [cut_of_clear hclear]
    exact h

mutual

theorem classify_cut (o : Options) (ho : o.builder = none) (hname : o.enumName = none) (k : Value) :
    (node : Node) → (w w' : Workspace) → Faultless w →
    classify o k node w = .error (.unsupportedKind key kind) w' →
    classify o k node.cut w = .error (.unsupportedKind key kind) w'
  | .optional a inner, w, w', hw, h => by
    rw [classify] at h
    rw [cut, classify]
    exact bind_of_error (classify_cut o ho hname k inner w w' hw (error_of_map h)) _
  | .array a item, w, w', hw, h => by
    rw [classify] at h
    rw [cut, classify]
    exact bind_of_error (classify_cut o ho hname k item w w' hw (error_of_map h)) _
  | .object a shape, w, w', hw, h => by
    rw [classify_object ho] at h
    rw [cut, classify_object ho]
    cases hn : nestedName o k a.description with
    | error e =>
      rw [hn] at h
      exact h
    | ok name =>
      rw [hn, ofExcept_bind_apply] at h
      rw [ofExcept_bind_apply]
      apply bind_of_error
      exact synthesize_refused hw
        (fun inner generatedName v v' hv => compileShape_cut { o with name := inner, generatedName } ho
          hname shape v v' hv)
        (error_of_map h)
  | .enum _ _, _, _, _, h | .boolean _, _, _, _, h | .string _, _, _, _, h | .number _ _, _, _, _, h
  | .union _ _, _, _, _, h | .literal _ _, _, _, _, h | .date _, _, _, _, h | .any _, _, _, _, h
  | .plain _, _, _, _, h => h

theorem compileShape_cut (o : Options) (ho : o.builder = none) (hname : o.enumName = none) :
    (shape : List (Value × Node)) → (w w' : Workspace) → Faultless w →
    compileShape o shape w = .error (.unsupportedKind key kind) w' →
    compileShape o (cutShape shape) w = .error (.unsupportedKind key kind) w'
  | [], w, w', hw, h => by
    rw [compileShape] at h
    cases h
  | (k, node) :: rest, w, w', hw, h => by
    -- A field that is refused at once is cut off from what follows but not changed itself.
    have hrefused (hoffends : node.offends = true) : cutShape ((k, node) :: rest) = [(k, node)] := by
      have hclear : Clear node.visits := visits_of_offends hoffends ▸ nofun
      rw [cutShape, if_pos (by simp [spoiled, hoffends]), cut_of_clear hclear]
    rw [compileShape_cons] at h
    rcases compileNode_cases o k node with ⟨fieldKind, hk, hfield, hrun⟩ | ⟨hk, hrun⟩
    · rw [hrun] at h
      have hchecks := compileField_checks hname k fieldKind (classify_checks o ho hname k node w hw)
      cases hr : compileField o k node fieldKind (classify o k node) w with
      | ok field w1 =>
        obtain ⟨hw1, hclear⟩ := hchecks.of_ok hr
        have hsound := spoiled_eq_false.mpr (List.forall_mem_cons.mp hclear)
        rw [bind_apply, hr] at h
        rw [cutShape, hsound, if_neg (by simp), compileShape_cons, hrun, bind_apply, hr]
        exact bind_of_error (compileShape_cut o ho hname rest w1 w' hw1 (error_of_map h)) _
      | error e w1 =>
        rw [bind_of_error hr] at h
        cases h
        have hspoiled := hchecks.spoiled hr
        rw [cutShape, if_pos hspoiled, compileShape, kind?_cut, hk]
        dsimp only
        rw [if_pos hfield]
        exact bind_of_error (compileField_cut hw hname ho
          (classify_cut o ho hname k node w w' hw) hr) _
    · rw [hrun] at h
      cases h
      rw [hrefused (offends_of_kind hk).1, compileShape_cons, hrun]
      rfl

end

/-- An object that is accepted has no field that offends, however deep. One that is refused for a kind
is so for the first field that offends, and what is visited after it has no effect: without it the
same is refused, and the same types are left behind. -/
theorem rejection_exact (name : Value) (a : Annotations) (shape : List (Value × Node)) :
    match compileModel (.named name) (.object a shape) {} with
    | .ok _ _ => ∀ b fields, Reaches (.object a shape) (.object b fields) →
        ∀ f ∈ fields, f.2.offends = false
    | .error (.unsupportedKind key kind) w =>
      (∃ node, (visitsShape shape).find? (·.2.offends) = some (key, node) ∧ kind = node.tag) ∧
      (visitsShape (cutShape shape)).map Prod.fst = (untilOffence (visitsShape shape)).map Prod.fst ∧
      compileModel (.named name) (.object a (cutShape shape)) {} = .error (.unsupportedKind key kind) w
    | .error _ _ => True := by
  have hempty : Faultless {} := by
    intro m hm
    cases hm
  have hchecks : Checks (compileModel (.named name) (.object a shape)) {} (visitsShape shape)
      fun _ => True := by
    unfold compileModel
    apply synthesize_checks hempty
    intro inner generatedName v hv
    exact compileShape_checks _ rfl rfl shape v hv
  cases hr : compileModel (.named name) (.object a shape) {} with
  | ok c w =>
    obtain ⟨_, hclear⟩ := hchecks.of_ok hr
    intro b fields hreach f hf
    have hvisited := hreach.mem_visits hf
    rw [visits] at hvisited
    exact hclear f hvisited
  | error e w =>
    cases e with
    | unsupportedKind key kind =>
      unfold Checks Ends at hchecks
      rw [hr] at hchecks
      refine ⟨hchecks key kind rfl, keys_cutShape shape, ?_⟩
      unfold compileModel at hr ⊢
      apply synthesize_refused hempty _ hr
      intro inner generatedName v v' hv
      exact compileShape_cut _ rfl rfl shape v v' hv
    | _ => trivial

def datedLamp : List (Value × Node) :=
  [(.text "bulb", .object {} [(.text "made", .optional {} (.array {} (.date {})))]),
    (.text "switch", .object {} [(.text "state", .enum {} (.list [.text "on", .text "off"]))])]

theorem rejection_exact_datedLamp :
    ∃ w, compileModel (.named (.text "Lamp")) (.object {} datedLamp) {} =
        .error (.unsupportedKind (.text "made") (some .date)) w ∧
      (visitsShape (cutShape datedLamp)).map Prod.fst = [.text "bulb", .text "made"] ∧
      compileModel (.named (.text "Lamp")) (.object {} (cutShape datedLamp)) {} =
        .error (.unsupportedKind (.text "made") (some .date)) w := by
  have hfails : ∃ w, compileModel (.named (.text "Lamp")) (.object {} datedLamp) {} =
      .error (.unsupportedKind (.text "made") (some .date)) w := ⟨_, rfl⟩
  obtain ⟨w, hfails⟩ := hfails
  have h := rejection_exact (.text "Lamp") {} datedLamp
  rw [hfails] at h
  obtain ⟨-, hkeys, hcut⟩ := h
  exact ⟨w, hfails, hkeys, hcut⟩

end SchemaCompiler
