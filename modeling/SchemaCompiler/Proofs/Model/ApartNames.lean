import SchemaCompiler.Proofs.Model.Places
import SchemaCompiler.Proofs.Model.TypesHeld
import SchemaCompiler.Proofs.Naming.PascalCase

namespace SchemaCompiler

open Work

def Node.shape : Node → List (Value × Node)
  | .object _ shape => shape
  | _ => []

def placesIn (a : Annotations) (shape : List (Value × Node)) : List Place :=
  ⟨[], .object a shape⟩ :: placesOf shape

/-- Two of some places have the name, and they are not two enums with the same members. -/
def Conflict (t : Title) (name : String) (ps : List Place) : Prop :=
  ¬ ps.Pairwise fun p q => p.name t = name → q.name t = name → p.node.SameMembers q.node

section Conflicts

variable {t : Title} {a : Annotations} {shape : List (Value × Node)}

theorem shown_placesIn (h : (Node.object a shape).Undescribed) :
    (Definition.model t a shape :: definitionsOf t shape).map Definition.shown =
      (placesIn a shape).map (Place.shown t) := by
  obtain ⟨-, hfields⟩ := Node.eachDescription_object.mp h
  rw [placesIn, List.map_cons, List.map_cons, shown_definitionsOf t shape hfields]
  simp [Definition.shown, Place.shown, Definition.source, Definition.name, Place.name, Node.isEnum, pascalPath]

theorem sources_definitionsOf (h : ∀ f ∈ shape, f.2.Undescribed) :
    (definitionsOf t shape).map Definition.source = (placesOf shape).map Place.node := by
  have hshown := congrArg (List.map Prod.fst) (shown_definitionsOf t shape h)
  rwa [List.map_map, List.map_map] at hshown

theorem pairwise_placesIn (h : (Node.object a shape).Undescribed) (R : Node × String → Node × String → Prop) :
    ((Definition.model t a shape :: definitionsOf t shape).Pairwise fun d d' => R d.shown d'.shown) ↔
      (placesIn a shape).Pairwise fun p q => R (p.shown t) (q.shown t) := by
  refine List.pairwise_map.symm.trans ?_
  rw [shown_placesIn h]
  exact List.pairwise_map

theorem agrees_of_sameMembers {d d' : Definition} (ht : d'.source.TextValued)
    (h : d.source.SameMembers d'.source) : d.Agrees d' := by
  cases d with
  | model => exact h.elim
  | enum t key a values =>
    cases d' with
    | model => exact h.elim
    | enum t' key' b others =>
      exact (EnumType.sameRecord_iff_perm (Naming.nodup_enumMembers _) (Naming.nodup_enumMembers _)
        fun m hm => text_of_member ht hm).mpr h

theorem textValued_definitions (h : (Node.object a shape).Undescribed)
    (ht : ∀ p ∈ placesOf shape, p.node.TextValued) :
    ∀ d ∈ Definition.model t a shape :: definitionsOf t shape, d.source.TextValued := by
  obtain ⟨-, hfields⟩ := Node.eachDescription_object.mp h
  refine List.forall_mem_cons.mpr ⟨trivial, fun d hd => ?_⟩
  have hsource := List.mem_map_of_mem (f := Definition.source) hd
  rw [sources_definitionsOf hfields] at hsource
  obtain ⟨p, hp, hnode⟩ := List.mem_map.mp hsource
  rw [← hnode]
  exact ht p hp

theorem conflict_of_clash (h : (Node.object a shape).Undescribed)
    (ht : ∀ p ∈ placesOf shape, p.node.TextValued) {name : String}
    (hclash : Clash name (.model t a shape :: definitionsOf t shape)) :
    Conflict t name (placesIn a shape) := by
  intro hapart
  have hdefs := (pairwise_placesIn h fun x y => x.2 = name → y.2 = name → x.1.SameMembers y.1).mpr hapart
  refine hclash (hdefs.imp_of_mem fun {d d'} _ hd' hsame hn hn' => ?_)
  exact agrees_of_sameMembers (textValued_definitions h ht d' hd') (hsame hn hn')

end Conflicts

/-- The second text is the first one, or goes on after it with anything but a lower-case letter. -/
def Continues (s t : String) : Prop :=
  s.toList <+: t.toList ∧ ∀ c ∈ (t.toList.drop s.toList.length).head?, c.isLower = false

instance (s t : String) : Decidable (Continues s t) := inferInstanceAs (Decidable (_ ∧ _))

def leading (shape : List (Value × Node)) : List (Value × Node) :=
  shape.filter fun f => !(places f.1 f.2).isEmpty

structure KeysApart (shape : List (Value × Node)) : Prop where
  nonempty : ∀ f ∈ leading shape, Naming.pascalKey f.1 ≠ ""
  apart : (leading shape).Pairwise fun f g =>
    ¬ Continues (Naming.pascalKey f.1) (Naming.pascalKey g.1) ∧
      ¬ Continues (Naming.pascalKey g.1) (Naming.pascalKey f.1)

instance (shape : List (Value × Node)) : Decidable (KeysApart shape) :=
  decidable_of_iff (_ ∧ _) ⟨fun h => ⟨h.1, h.2⟩, fun h => ⟨h.1, h.2⟩⟩

namespace Place

def label (p : Place) : List Char :=
  (pascalPath p.keys).toList ++ if p.node.isEnum then "Enum".toList else []

theorem name_eq (name : String) (p : Place) : p.name ⟨name, false⟩ = name ++ String.ofList p.label := by
  unfold Place.name label
  cases p.node.isEnum <;> simp [String.append_assoc]

theorem label_of_name {name : String} {p q : Place} (h : p.name ⟨name, false⟩ = q.name ⟨name, false⟩) :
    p.label = q.label := by
  rw [name_eq, name_eq] at h
  have hchars := congrArg String.toList h
  simpa using hchars

theorem label_below (key : Value) (p : Place) :
    (p.below key).label = (Naming.pascalKey key).toList ++ p.label := by
  rw [label, below, pascalPath, String.toList_append, List.append_assoc]
  rfl

end Place

theorem not_isLower_of_pascalKey {key : Value} {c : Char}
    (h : c ∈ (Naming.pascalKey key).toList.head?) : c.isLower = false := by
  obtain ⟨rest, hrest⟩ := List.head?_eq_some_iff.mp h
  cases key with
  | text s =>
    rw [Naming.pascalKey, Naming.pascalCase, String.toList_ofList] at hrest
    exact Naming.not_isLower_head hrest
  | _ => cases hrest

theorem Place.not_isLower_label (p : Place) : ∀ c ∈ p.label.head?, c.isLower = false := by
  obtain ⟨keys, node⟩ := p
  induction keys with
  | nil =>
    intro c hc
    cases he : node.isEnum with
    | false => simp [label, pascalPath, he] at hc
    | true =>
      simp [label, pascalPath, he] at hc
      rw [← hc]
      decide
  | cons key rest ih =>
    intro c hc
    change c ∈ (Place.below key ⟨rest, node⟩).label.head? at hc
    rw [label_below] at hc
    cases hk : (Naming.pascalKey key).toList with
    | nil =>
      rw [hk, List.nil_append] at hc
      exact ih c hc
    | cons x more =>
      rw [hk] at hc
      exact not_isLower_of_pascalKey (by rw [hk]; exact hc)

theorem placesOf_eq (shape : List (Value × Node)) :
    placesOf shape = shape.flatMap fun f => places f.1 f.2 := by
  induction shape with
  | nil => rfl
  | cons f rest ih => rw [placesOf, List.flatMap_cons, ih]

theorem below_of_mem_places {key : Value} {n : Node} {p : Place} (h : p ∈ places key n) :
    ∃ q : Place, p = q.below key := by
  obtain ⟨rest, hrest⟩ := keys_places key n h
  exact ⟨⟨rest, p.node⟩, by rw [Place.below, ← hrest]⟩

theorem mem_leading {shape : List (Value × Node)} {f : Value × Node} (hf : f ∈ shape) {p : Place}
    (hp : p ∈ places f.1 f.2) : f ∈ leading shape := by
  refine List.mem_filter.mpr ⟨hf, ?_⟩
  rw [Bool.not_eq_true', List.isEmpty_eq_false_iff]
  exact List.ne_nil_of_mem hp

theorem KeysApart.label_ne_nil {shape : List (Value × Node)} (h : KeysApart shape) {p : Place}
    (hp : p ∈ placesOf shape) : p.label ≠ [] := by
  rw [placesOf_eq] at hp
  obtain ⟨f, hf, hp⟩ := List.mem_flatMap.mp hp
  obtain ⟨q, rfl⟩ := below_of_mem_places hp
  have hkey := h.nonempty f (mem_leading hf hp)
  intro hnil
  rw [Place.label_below, List.append_eq_nil_iff] at hnil
  exact hkey (by simpa using hnil.1)

theorem labels_ne_of_not_continues {k k' : Value} {p q : Place}
    (h : ¬ Continues (Naming.pascalKey k) (Naming.pascalKey k'))
    (h' : ¬ Continues (Naming.pascalKey k') (Naming.pascalKey k)) :
    (p.below k).label ≠ (q.below k').label := by
  have hcontinues {s t : String} {rest more : List Char} (hs : t.toList = s.toList ++ rest)
      (hmore : ∀ c ∈ (rest ++ more).head?, c.isLower = false) : Continues s t := by
    refine ⟨⟨rest, hs.symm⟩, fun c hc => hmore c ?_⟩
    rw [hs, List.drop_left] at hc
    obtain ⟨others, rfl⟩ := List.head?_eq_some_iff.mp hc
    rfl
  intro heq
  rw [Place.label_below, Place.label_below] at heq
  rcases List.append_eq_append_iff.mp heq with ⟨rest, hk, hp⟩ | ⟨rest, hk, hq⟩
  · exact h (hcontinues hk (hp ▸ p.not_isLower_label))
  · exact h' (hcontinues hk (hq ▸ q.not_isLower_label))

mutual

theorem labels_places (key : Value) : (n : Node) → (∀ p ∈ places key n, KeysApart p.node.shape) →
    (places key n).Pairwise fun p q => p.label ≠ q.label
  | .optional a inner, h => by
    rw [places] at h ⊢
    exact labels_places key inner h
  | .array a item, h => by
    rw [places] at h ⊢
    exact labels_places key item h
  | .enum a values, _ => by
    rw [places]
    exact List.pairwise_singleton _ _
  | .object a shape, h => by
    rw [places] at h ⊢
    obtain ⟨hshape, hbelow⟩ := List.forall_mem_cons.mp h
    have hplaces (p : Place) (hp : p ∈ placesOf shape) : KeysApart p.node.shape :=
      hbelow (p.below key) (List.mem_map_of_mem hp)
    refine List.pairwise_cons.mpr ⟨fun q hq => ?_, ?_⟩
    · obtain ⟨p, hp, rfl⟩ := List.mem_map.mp hq
      intro heq
      change (Place.below key ⟨[], .object a shape⟩).label = _ at heq
      rw [Place.label_below, Place.label_below, List.append_cancel_left_eq] at heq
      exact KeysApart.label_ne_nil hshape hp heq.symm
    · rw [List.pairwise_map]
      refine (labels_placesOf shape hshape hplaces).imp fun {p q} hne heq => hne ?_
      rw [Place.label_below, Place.label_below, List.append_cancel_left_eq] at heq
      exact heq
  | .boolean _, _ | .string _, _ | .number _ _, _ | .union _ _, _ | .literal _ _, _ | .date _, _
  | .any _, _ | .plain _, _ => .nil

theorem labels_placesOf : (shape : List (Value × Node)) → KeysApart shape →
    (∀ p ∈ placesOf shape, KeysApart p.node.shape) →
    (placesOf shape).Pairwise fun p q => p.label ≠ q.label
  | [], _, _ => .nil
  | (key, node) :: rest, hshape, h => by
    rw [placesOf] at h ⊢
    obtain ⟨hnode, hplaces⟩ := List.forall_mem_append.mp h
    have hsub : (leading rest).Sublist (leading ((key, node) :: rest)) := (List.sublist_cons_self ..).filter _
    have hrest : KeysApart rest := ⟨fun f hf => hshape.nonempty f (hsub.subset hf), hshape.apart.sublist hsub⟩
    refine List.pairwise_append.mpr ⟨labels_places key node hnode, labels_placesOf rest hrest hplaces, ?_⟩
    intro p hp q hq
    rw [placesOf_eq] at hq
    obtain ⟨f, hf, hq⟩ := List.mem_flatMap.mp hq
    have hapart := hshape.apart
    have hleads : (key, node) ∈ leading ((key, node) :: rest) := mem_leading List.mem_cons_self hp
    have hfirst : leading ((key, node) :: rest) = (key, node) :: leading rest :=
      List.filter_cons_of_pos (List.mem_filter.mp hleads).2
    rw [hfirst] at hapart
    obtain ⟨hne, hne'⟩ := (List.pairwise_cons.mp hapart).1 f (mem_leading hf hq)
    obtain ⟨p, rfl⟩ := below_of_mem_places hp
    obtain ⟨q, rfl⟩ := below_of_mem_places hq
    exact labels_ne_of_not_continues hne hne'

end

theorem not_conflict_of_keysApart {N : String} {a : Annotations} {shape : List (Value × Node)}
    (h : ∀ p ∈ placesIn a shape, KeysApart p.node.shape) (name : String) :
    ¬ Conflict ⟨N, false⟩ name (placesIn a shape) := by
  obtain ⟨hroot, hplaces⟩ := List.forall_mem_cons.mp h
  have hbelow := labels_placesOf shape hroot hplaces
  intro hconflict
  have hlabels : (placesIn a shape).Pairwise fun p q => p.label ≠ q.label := by
    refine List.pairwise_cons.mpr ⟨fun q hq heq => KeysApart.label_ne_nil hroot hq ?_, hbelow⟩
    rw [← heq]
    rfl
  refine hconflict (hlabels.imp fun {p q} hne hp hq => absurd (Place.label_of_name (hp.trans hq.symm)) hne)

/-- A tree is refused a name only for two types that the name is made for, and is never compiled where
there are any. There are none where the keys of every object are apart. -/
theorem isolated_names_apart {N : String} (hN : N ≠ "") (hnul : '\x00' ∉ N.toList) {a : Annotations}
    {shape : List (Value × Node)} (hundescribed : (Node.object a shape).Undescribed)
    (hdistinct : ((placesOf shape).map Place.node).Nodup)
    (htexts : ∀ p ∈ placesOf shape, p.node.TextValued) :
    (∀ x w, compileModel (.named (.text N)) (.object a shape) {} = .error (.duplicateType x) w →
      ∃ name, x = .text name ∧ Conflict ⟨N, false⟩ name (placesIn a shape)) ∧
    (∀ c w, compileModel (.named (.text N)) (.object a shape) {} = .ok c w →
      ∀ name, ¬ Conflict ⟨N, false⟩ name (placesIn a shape)) ∧
    ((∀ p ∈ placesIn a shape, KeysApart p.node.shape) →
      ∀ x w, compileModel (.named (.text N)) (.object a shape) {} ≠ .error (.duplicateType x) w) := by
  have htruthy : (Options.named (.text N)).name.truthy = true := by
    simpa [Options.named, Value.truthy] using hN
  have htitle : (Options.named (.text N)).rootTitle a.description (.int 0) = ⟨N, false⟩ := by
    rw [Options.rootTitle, if_pos htruthy]
    rfl
  have hrefused (x : Value) (w : Workspace)
      (h : compileModel (.named (.text N)) (.object a shape) {} = .error (.duplicateType x) w) :
      ∃ name, x = .text name ∧ Conflict ⟨N, false⟩ name (placesIn a shape) := by
    have hm : modelName (.named (.text N)) a.description {} =
        .ok { name := .text N, description := a.description } {} := by
      rw [modelName_eq, statedName?_of_name htruthy]
      rfl
    have hbooks := isolated_books (.inr ⟨N, rfl⟩) shape hm
    unfold Ends at hbooks
    rw [h, Options.definitions, htitle] at hbooks
    rcases hbooks.2 hnul with hfaults | ⟨name, hname, hclash⟩
    · exact absurd rfl (hfaults.unnamed x)
    · cases hname
      exact ⟨name, rfl, conflict_of_clash hundescribed htexts hclash⟩
  refine ⟨hrefused, fun c w h name hconflict => ?_, fun hkeys x w h => ?_⟩
  · obtain ⟨-, hfields⟩ := Node.eachDescription_object.mp hundescribed
    rw [← sources_definitionsOf (t := ⟨N, false⟩) hfields] at hdistinct
    have hdefs := textValued_definitions (t := ⟨N, false⟩) hundescribed htexts
    have htypes := compileModel_types hN hdistinct (List.forall_mem_cons.mp hdefs).2 c w h
    have hpairs := (pairwise_placesIn hundescribed fun x y => x.2 = y.2 → x.1.SameMembers y.1).mp htypes.apart
    exact hconflict (hpairs.imp fun hsame hp hq => hsame (hp.trans hq.symm))
  · obtain ⟨name, -, hconflict⟩ := hrefused x w h
    exact not_conflict_of_keysApart hkeys name hconflict

theorem textValued_list (a : Annotations) (names : List String) :
    (Node.enum a (.list (names.map .text))).TextValued := by
  intro v hv
  obtain ⟨s, -, rfl⟩ := List.mem_map.mp hv
  exact ⟨s, rfl⟩

def lidShape : List (Value × Node) :=
  [(.text "outer_lid", .optional { tag := 1 } (.object { tag := 2 }
      [(.text "state", .enum { tag := 3 } (.list [.text "open", .text "shut"]))])),
    (.text "label", .string { tag := 4 }),
    (.text "state", .array { tag := 5 } (.enum { tag := 6 } (.list [.text "full"])))]

theorem undescribed_lidShape : (Node.object {} lidShape).Undescribed := by
  refine Node.eachDescription_object.mpr ⟨rfl, ?_⟩
  intro f hf
  simp only [lidShape, List.mem_cons, List.not_mem_nil, or_false] at hf
  rcases hf with rfl | rfl | rfl
  · refine Node.eachDescription_optional.mpr (Node.eachDescription_object.mpr ⟨rfl, ?_⟩)
    intro g hg
    obtain rfl := List.mem_singleton.mp hg
    nofun
  · nofun
  · exact Node.eachDescription_array.mpr nofun

theorem isolated_names_apart_box :
    (∃ c w, compileModel (.named (.text "Box")) (.object {} lidShape) {} = .ok c w) ∧
    (∀ name, ¬ Conflict ⟨"Box", false⟩ name (placesIn {} lidShape)) ∧
    ∀ x w, compileModel (.named (.text "Box")) (.object {} lidShape) {} ≠ .error (.duplicateType x) w := by
  have htexts : ∀ p ∈ placesOf lidShape, p.node.TextValued := by
    intro p hp
    simp only [lidShape, placesOf, places, List.append_nil, List.cons_append, List.nil_append, List.map_cons,
      List.map_nil, List.mem_cons, List.not_mem_nil, or_false] at hp
    rcases hp with rfl | rfl | rfl
    · trivial
    · exact textValued_list _ ["open", "shut"]
    · exact textValued_list _ ["full"]
  obtain ⟨-, hcompiled, hapart⟩ := isolated_names_apart (N := "Box") (by decide) (by decide)
    undescribed_lidShape (by decide) htexts
  obtain ⟨c, w, hrun⟩ := ok_of_outcome (x := compileModel (.named (.text "Box")) (.object {} lidShape))
    (w := {}) (by decide +kernel)
  exact ⟨⟨c, w, hrun⟩, hcompiled c w hrun, hapart (by decide)⟩

theorem isolated_names_clash :
    let shape : List (Value × Node) :=
      [(.text "first_name", .object { tag := 1 } []), (.text "firstName", .object { tag := 2 } [])]
    (Node.object {} shape).Undescribed ∧ ((placesOf shape).map Place.node).Nodup ∧
      ∃ w, compileModel (.named (.text "Box")) (.object {} shape) {} =
        .error (.duplicateType (.text "BoxFirstName")) w := by
  intro shape
  refine ⟨Node.eachDescription_object.mpr ⟨rfl, ?_⟩, by decide, error_of_outcome (by decide +kernel)⟩
  intro f hf
  simp only [shape, List.mem_cons, List.not_mem_nil, or_false] at hf
  rcases hf with rfl | rfl <;> exact Node.eachDescription_object.mpr ⟨rfl, by simp⟩

end SchemaCompiler
