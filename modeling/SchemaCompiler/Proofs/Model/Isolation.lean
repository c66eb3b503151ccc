import Mathlib.Logic.Function.Basic
import SchemaCompiler.Proofs.Model.Agreement
import SchemaCompiler.Proofs.Model.Closure

namespace SchemaCompiler

open Work

variable {registry sequence : Key} {w v : Workspace}

section Renaming

/-- The handle that a state holds in the place of another state's handle: the one of the same name. -/
def counterpart (v : Workspace) (registry : Key) (n : NamedType) : NamedType :=
  ((v.registries registry).get? (.text n.name)).getD n

structure Renames (ρ : NamedType → NamedType) (registry : Key) (w v : Workspace) : Prop where
  injective : ∀ x ∈ (w.registries registry).types, ∀ y ∈ (w.registries registry).types,
    ρ x = ρ y → x = y
  entries : (v.registries registry).entries =
    (w.registries registry).entries.map fun x => { x with type := ρ x.type }
  enums : ∀ e, .enum e ∈ (w.registries registry).types →
    ∃ serial, ρ (.enum e) = .enum { e with serial }
  objects : ∀ c, .object c ∈ (w.registries registry).types →
    ∃ serial, ρ (.object c) = .object { c with serial } ∧
      v.whole? { c with serial } = (w.whole? c).map (ModelClass.rename ρ)

theorem counterpart_of_held (hv : Closed v) {n m : NamedType} (h : Held v registry m)
    (hn : n.name = m.name) : counterpart v registry n = m := by
  obtain ⟨entry, hentry, rfl⟩ := h
  obtain ⟨_, _, hp⟩ := (hv.ordered registry).placed hentry
  have hget := (hv.ordered registry).get?_eq hentry
  rw [hp.named, ← hn] at hget
  rw [counterpart, hget]
  rfl

theorem held_of_known {n : NamedType} {type : OutputType} (hl : type.leaf = n.toOutput)
    (h : Known (v.registries registry).entries type) : Held v registry n := by
  rcases h with ⟨s, hs⟩ | ⟨entry, hentry, ht⟩
  · rw [hl] at hs
    cases n <;> cases hs
  · refine ⟨entry, hentry, ?_⟩
    rw [hl] at ht
    cases hn : entry.type <;> rw [hn] at ht <;> cases n <;> cases ht <;> rfl

theorem rename_counterpart (hv : Closed v) {t u : OutputType}
    (ht : Known (w.registries registry).entries t) (hu : Known (v.registries registry).entries u)
    (same : t.rename NamedType.anonymous = u.rename NamedType.anonymous) :
    u = t.rename (counterpart v registry) := by
  induction t generalizing u with
  | scalar s =>
    cases u with
    | scalar r =>
      cases same
      rfl
    | _ => cases same
  | list item ih =>
    cases u with
    | list other => exact congrArg OutputType.list (ih ht hu (OutputType.list.inj same))
    | _ => cases same
  | enum e =>
    cases u with
    | enum f =>
      have hname : NamedType.name (.enum e) = NamedType.name (.enum f) := by
        simp only [OutputType.rename, NamedType.anonymous, NamedType.toOutput, OutputType.enum.injEq,
          EnumType.mk.injEq] at same
        exact same.2.1
      have hheld : Held v registry (.enum f) := held_of_known rfl hu
      rw [OutputType.rename, counterpart_of_held hv hheld hname]
      rfl
    | _ => cases same
  | object c =>
    cases u with
    | object d =>
      have hname : NamedType.name (.object c) = NamedType.name (.object d) := by
        simp only [OutputType.rename, NamedType.anonymous, NamedType.toOutput, OutputType.object.injEq,
          ClassHandle.mk.injEq] at same
        exact same.2
      have hheld : Held v registry (.object d) := held_of_known rfl hu
      rw [OutputType.rename, counterpart_of_held hv hheld hname]
      rfl
    | _ => cases same
  | plain x =>
    rcases ht with ⟨s, hs⟩ | ⟨entry, _, hl⟩
    · cases hs
    · cases hn : entry.type <;> rw [hn] at hl <;> cases hl
  | thing text =>
    rcases ht with ⟨s, hs⟩ | ⟨entry, _, hl⟩
    · cases hs
    · cases hn : entry.type <;> rw [hn] at hl <;> cases hl

theorem map_eq_of_pairs {α β γ : Type} {f : α → γ} {g : β → γ} {h : α → β} {xs : List α} {ys : List β}
    (same : xs.map f = ys.map g) (pairs : ∀ x ∈ xs, ∀ y ∈ ys, f x = g y → y = h x) :
    ys = xs.map h := by
  induction xs generalizing ys with
  | nil => exact List.map_eq_nil_iff.mp same.symm
  | cons x xs ih =>
    cases ys with
    | nil => cases same
    | cons y ys =>
      obtain ⟨hxy, hrest⟩ := List.cons.inj same
      rw [List.map_cons, ← pairs x (by simp) y (by simp) hxy,
        ← ih hrest fun a ha b hb => pairs a (by simp [ha]) b (by simp [hb])]

theorem whole?_of_held (hw : Closed w) {c : ClassHandle} (h : Held w registry (.object c)) :
    ∃ m, w.whole? c = some m ∧ ∀ f ∈ m.fields, Known (w.registries registry).entries f.type := by
  obtain ⟨entry, hentry, ht⟩ := h
  obtain ⟨before, hbefore, hp⟩ := (hw.ordered registry).placed hentry
  obtain ⟨m, hm, _, hknown⟩ := hp.known c ht
  refine ⟨_, congrArg (Option.map _) hm, fun f hf => ?_⟩
  rw [ModelClass.fields_inherit] at hf
  exact (hknown f hf).mono hbefore

theorem model_counterpart (hw : Closed w) (hv : Closed v) {c d : ClassHandle}
    (hc : Held w registry (.object c)) (hd : Held v registry (.object d))
    (same : (w.whole? c).map (ModelClass.rename NamedType.anonymous) =
      (v.whole? d).map (ModelClass.rename NamedType.anonymous)) :
    v.whole? d = (w.whole? c).map (ModelClass.rename (counterpart v registry)) := by
  obtain ⟨m, hm, hfields⟩ := whole?_of_held hw hc
  obtain ⟨n, hn, hothers⟩ := whole?_of_held hv hd
  rw [hm, hn, Option.map_some, Option.map_some] at same
  rw [hm, hn, Option.map_some]
  have hmodel := Option.some.inj same
  have hf : n.fields = m.fields.map (Field.rename (counterpart v registry)) := by
    apply map_eq_of_pairs (congrArg ModelClass.fields hmodel)
    intro f hf g hg hfg
    have htype := rename_counterpart hv (hfields f hf) (hothers g hg) (congrArg Field.type hfg)
    cases f
    cases g
    simp only [Field.rename, Field.mk.injEq] at hfg htype ⊢
    exact ⟨hfg.1.symm, hfg.2.1.symm, htype, hfg.2.2.2.1.symm, hfg.2.2.2.2.1.symm, hfg.2.2.2.2.2.symm⟩
  cases m
  cases n
  simp only [ModelClass.rename, ModelClass.mk.injEq] at hmodel hf ⊢
  simp [hmodel, hf]

theorem renames_of_indistinct (hw : Closed w) (hv : Closed v)
    (h : Indistinct registry sequence w v) : Renames (counterpart v registry) registry w v := by
  have hpair : ∀ x ∈ (w.registries registry).entries, ∃ y ∈ (v.registries registry).entries,
      Twins w v (some x.type) (some y.type) ∧ counterpart v registry x.type = y.type ∧
        x.type.name = y.type.name := by
    intro x hx
    obtain ⟨_, _, hp⟩ := (hw.ordered registry).placed hx
    have ht := h.twins x.name
    rw [(hw.ordered registry).get?_eq hx] at ht
    cases hy : (v.registries registry).get? x.name with
    | none =>
      rw [hy] at ht
      generalize x.type = t at ht
      cases ht
    | some t =>
      obtain ⟨y, hmem, hname, hyt⟩ := Registry.mem_of_get? hy
      obtain ⟨_, _, hq⟩ := (hv.ordered registry).placed hmem
      rw [hy, ← hyt] at ht
      have hnames : x.type.name = y.type.name := by
        have := hp.named.symm.trans (hname.symm.trans hq.named)
        exact Key.text.inj this
      exact ⟨y, hmem, ht, counterpart_of_held hv ⟨y, hmem, rfl⟩ hnames, hnames⟩
  constructor
  · intro a ha b hb hab
    obtain ⟨x, hx, rfl⟩ := List.mem_map.mp ha
    obtain ⟨y, hy, rfl⟩ := List.mem_map.mp hb
    obtain ⟨x', _, _, hcx, hnx⟩ := hpair x hx
    obtain ⟨y', _, _, hcy, hny⟩ := hpair y hy
    have hname : x.type.name = y.type.name := by rw [hnx, hny, ← hcx, ← hcy, hab]
    have hgetx := (hw.ordered registry).get?_eq hx
    have hgety := (hw.ordered registry).get?_eq hy
    obtain ⟨_, _, hpx⟩ := (hw.ordered registry).placed hx
    obtain ⟨_, _, hpy⟩ := (hw.ordered registry).placed hy
    rw [hpx.named, hname, ← hpy.named, hgety] at hgetx
    exact (Option.some.inj hgetx).symm
  · apply map_eq_of_pairs h.view
    intro x hx y hy hxy
    simp only [Prod.mk.injEq] at hxy
    have hname : x.type.name = y.type.name := by
      rw [← NamedType.name_anonymous x.type, ← NamedType.name_anonymous y.type]
      exact congrArg (fun t => t.1.name) hxy.2.2
    have hc := counterpart_of_held hv ⟨y, hy, rfl⟩ hname
    cases y
    simp only [Registry.Entry.mk.injEq]
    exact ⟨hxy.1.symm, hc.symm, hxy.2.1.symm⟩
  · intro e he
    obtain ⟨x, hx, hxe⟩ := List.mem_map.mp he
    obtain ⟨y, _, ht, hc, _⟩ := hpair x hx
    rw [hxe] at ht hc
    rw [hc]
    generalize y.type = t at ht
    cases ht with
    | enum _ f hname hmembers hdescription =>
      refine ⟨f.serial, ?_⟩
      rw [hname, hmembers, hdescription]
  · intro c hcl
    obtain ⟨x, hx, hxc⟩ := List.mem_map.mp hcl
    obtain ⟨y, hy, ht, hc, _⟩ := hpair x hx
    rw [hxc] at ht hc
    rw [hc]
    have hheld : Held v registry y.type := ⟨y, hy, rfl⟩
    generalize y.type = t at ht hheld
    cases ht with
    | object _ d hname hmodel =>
      have hd : d = { c with serial := d.serial } := by rw [hname]
      exact ⟨d.serial, congrArg NamedType.object hd, hd ▸ model_counterpart hw hv ⟨x, hx, hxc⟩ hheld hmodel⟩

end Renaming

structure Sharing (ι : Type) where
  registry : ι → Key
  sequence : ι → Key
  memo : Key
  registries_differ : Function.Injective registry
  sequences_differ : Function.Injective sequence

namespace Sharing

variable {ι : Type}

inductive Step (ι : Type) where
  | compile (party : ι) (o : Options) (node : Node)
  | clearMemo

def options (s : Sharing ι) (party : ι) (o : Options) : Options :=
  { o with
    registry := s.registry party, memo := s.memo, sequence := s.sequence party, builder := none }

def run (s : Sharing ι) : List (Step ι) → Workspace →
    List (ι × Except Failure ClassHandle) × Workspace
  | [], w => ([], w)
  | .compile party o node :: rest, w =>
    let work := compileModel (s.options party o) node
    let (outcomes, last) := run s rest (work.after w)
    ((party, work.outcome w) :: outcomes, last)
  | .clearMemo :: rest, w => run s rest (w.setMemo s.memo {})

def Step.isOf [DecidableEq ι] (party : ι) : Step ι → Bool
  | .compile other _ _ => other = party
  | .clearMemo => false

theorem run_closed (s : Sharing ι) (steps : List (Step ι)) (hc : Closed w) :
    Closed (s.run steps w).2 ∧ Grows w (s.run steps w).2 ∧
      ∀ x ∈ (s.run steps w).1, ∀ c, x.2 = .ok c → Held (s.run steps w).2 (s.registry x.1) (.object c) := by
  induction steps generalizing w with
  | nil => exact ⟨hc, .refl w, nofun⟩
  | cons step rest ih =>
    cases step with
    | clearMemo =>
      obtain ⟨hlast, hgrows, hheld⟩ := ih (hc.clearMemo s.memo)
      exact ⟨hlast, ⟨hgrows.entries, hgrows.classes⟩, hheld⟩
    | compile party o node =>
      have hkeeps := compileModel_keeps (s.options party o) rfl node hc
      unfold Keeps Ends at hkeeps
      have hstep : Closed ((compileModel (s.options party o) node).after w) ∧
          Grows w ((compileModel (s.options party o) node).after w) ∧
          ∀ c, (compileModel (s.options party o) node).outcome w = .ok c →
            Held ((compileModel (s.options party o) node).after w) (s.registry party) (.object c) := by
        unfold after outcome
        cases hr : compileModel (s.options party o) node w with
        | ok c w1 =>
          rw [hr] at hkeeps
          refine ⟨hkeeps.1, hkeeps.2.1, fun d hd => ?_⟩
          cases hd
          exact hkeeps.2.2
        | error e w1 =>
          rw [hr] at hkeeps
          exact ⟨hkeeps.1, hkeeps.2, nofun⟩
      obtain ⟨hclosed, hgrows, hheld⟩ := hstep
      obtain ⟨hlast, hmore, hrest⟩ := ih hclosed
      refine ⟨hlast, hgrows.trans hmore, fun x hx c hxc => ?_⟩
      rcases List.mem_cons.mp hx with rfl | hx
      · exact (hheld c hxc).mono hmore
      · exact hrest x hx c hxc

structure Spares (registry sequence : Key) (w w' : Workspace) : Prop where
  coherent : Coherent w → Coherent w'
  registries : w'.registries registry = w.registries registry
  sequences : w'.sequences sequence = w.sequences sequence
  classes : w.classes <+: w'.classes

theorem Spares.refl (w : Workspace) : Spares registry sequence w w := ⟨id, rfl, rfl, List.prefix_rfl⟩

theorem Spares.trans {u : Workspace} (h : Spares registry sequence u v)
    (k : Spares registry sequence v w) : Spares registry sequence u w :=
  ⟨fun hc => k.coherent (h.coherent hc), k.registries.trans h.registries,
    k.sequences.trans h.sequences, h.classes.trans k.classes⟩

theorem Spares.indistinct {w' : Workspace} (k : Spares registry sequence w w')
    (h : Indistinct registry sequence w v) : Indistinct registry sequence w' v :=
  ⟨k.coherent h.left, h.right, (Workspace.view_of_classes h.left k.registries k.classes).trans h.view,
    k.sequences.trans h.sequence⟩

theorem spares_of_change {used memo drawn : Key} {size : Nat} (h : Change used memo drawn size w v)
    (hr : registry ≠ used) (hs : sequence ≠ drawn) : Spares registry sequence w v := by
  refine ⟨h.coherent, ?_, ?_, ?_⟩
  · cases h with
    | addEnum e => exact update_of_ne _ _ hr
    | addObject c => exact update_of_ne _ _ hr
    | _ => rfl
  · cases h with
    | draw next => exact update_of_ne _ _ hs
    | _ => rfl
  · cases h with
    | addClass c => exact List.prefix_append _ _
    | _ => exact List.prefix_rfl

theorem admits_spares (s : Sharing ι) {i j : ι} (hij : j ≠ i) (o : Options) (size : Nat) :
    Admits (Spares (s.registry i) (s.sequence i)) (s.options j o) size where
  refl := .refl
  trans := .trans
  change h := spares_of_change h (fun h => hij (s.registries_differ h.symm))
    fun h => hij (s.sequences_differ h.symm)
  build := nofun

theorem run_alike [DecidableEq ι] (s : Sharing ι) (i : ι) (steps : List (Step ι))
    (h : Indistinct (s.registry i) (s.sequence i) w v) :
    Indistinct (s.registry i) (s.sequence i) (s.run steps w).2 (s.run (steps.filter (·.isOf i)) v).2 ∧
      ((s.run steps w).1.filter (·.1 = i)).map (fun x => x.2.map ClassHandle.name) =
        (s.run (steps.filter (·.isOf i)) v).1.map fun x => x.2.map ClassHandle.name := by
  induction steps generalizing w v with
  | nil => exact ⟨h, rfl⟩
  | cons step rest ih =>
    cases step with
    | clearMemo =>
      have hcleared : Indistinct (s.registry i) (s.sequence i) (w.setMemo s.memo {}) v :=
        ⟨h.left.clearMemo s.memo, h.right, h.view, h.sequence⟩
      exact ih hcleared
    | compile j o node =>
      by_cases hij : j = i
      · subst hij
        have hown : (Step.compile j o node).isOf j = true := decide_eq_true rfl
        have hends := compileModel_alike (o := s.options j o) rfl node h
        have hstep : Indistinct (s.registry j) (s.sequence j)
            ((compileModel (s.options j o) node).after w)
            ((compileModel (s.options j o) node).after v) ∧
            ((compileModel (s.options j o) node).outcome w).map ClassHandle.name =
              ((compileModel (s.options j o) node).outcome v).map ClassHandle.name := by
          unfold after outcome
          generalize compileModel (s.options j o) node w = x at hends
          generalize compileModel (s.options j o) node v = y at hends
          cases hends with
          | ok c d w1 v1 same states => exact ⟨states, congrArg Except.ok same⟩
          | error e w1 v1 states => exact ⟨states, rfl⟩
        obtain ⟨hlast, houtcomes⟩ := ih hstep.1
        rw [List.filter_cons_of_pos hown]
        refine ⟨hlast, ?_⟩
        simp only [run]
        rw [List.filter_cons_of_pos (by simp), List.map_cons, List.map_cons, houtcomes, hstep.2]
      · have hother : ¬ (Step.compile j o node).isOf i = true := fun h => hij (of_decide_eq_true h)
        have hspares := compileModel_admits (admits_spares s hij o (sizeOf node)) w
        obtain ⟨hlast, houtcomes⟩ := ih (hspares.indistinct h)
        rw [List.filter_cons_of_neg hother]
        refine ⟨hlast, ?_⟩
        simp only [run]
        rw [List.filter_cons_of_neg (by simpa using hij), houtcomes]

theorem party_of_run (s : Sharing ι) {steps : List (Step ι)} {x : ι × Except Failure ClassHandle}
    (hx : x ∈ (s.run steps w).1) : ∃ o node, .compile x.1 o node ∈ steps := by
  induction steps generalizing w with
  | nil => cases hx
  | cons step rest ih =>
    cases step with
    | clearMemo =>
      obtain ⟨o, node, hmem⟩ := ih hx
      exact ⟨o, node, List.mem_cons_of_mem _ hmem⟩
    | compile j o node =>
      rcases List.mem_cons.mp hx with rfl | hx
      · exact ⟨o, node, List.mem_cons_self⟩
      · obtain ⟨o', node', hmem⟩ := ih hx
        exact ⟨o', node', List.mem_cons_of_mem _ hmem⟩

theorem outcomes_counterpart (hv : Closed v) {xs ys : List (ι × Except Failure ClassHandle)}
    (hheld : ∀ y ∈ ys, ∀ c, y.2 = .ok c → Held v registry (.object c))
    (same : xs.map (fun x => x.2.map ClassHandle.name) = ys.map fun y => y.2.map ClassHandle.name) :
    ys.map (fun y => y.2.map NamedType.object) =
      xs.map fun x => x.2.map fun c => counterpart v registry (.object c) := by
  induction xs generalizing ys with
  | nil =>
    rw [List.map_eq_nil_iff.mp same.symm]
    rfl
  | cons x xs ih =>
    cases ys with
    | nil => cases same
    | cons y ys =>
      obtain ⟨hxy, hrest⟩ := List.cons.inj same
      rw [List.map_cons, List.map_cons, ih (fun z hz => hheld z (List.mem_cons_of_mem _ hz)) hrest]
      congr 1
      obtain ⟨i, x⟩ := x
      obtain ⟨j, y⟩ := y
      have hown (d : ClassHandle) (hd : y = .ok d) : Held v registry (.object d) :=
        hheld (j, y) List.mem_cons_self d hd
      cases x with
      | error e =>
        cases y with
        | error f =>
          cases hxy
          rfl
        | ok d => cases hxy
      | ok c =>
        cases y with
        | error f => cases hxy
        | ok d =>
          have hname : NamedType.name (.object c) = NamedType.name (.object d) := Except.ok.inj hxy
          exact congrArg Except.ok (counterpart_of_held hv (hown d rfl) hname).symm

theorem reached_afterAll (sequences : Key → Value) (actions : List Action) :
    Reached (afterAll sequences actions) := by
  unfold afterAll
  have hstart : Reached { sequences } := by
    refine Leads.elsewhere rfl rfl (Nat.le_refl _) (Nat.le_refl _) fun m hm => ?_
    cases hm
  generalize ({ sequences } : Workspace) = w at hstart
  induction actions generalizing w with
  | nil => exact hstart
  | cons action rest ih =>
    apply ih
    apply Leads.trans hstart
    cases action with
    | compile o node =>
      have hafter : Action.after w (.compile o node) =
          (compileModel { o with builder := none } node).after w := by
        simp only [Action.after, after]
        cases compileModel { o with builder := none } node w <;> rfl
      rw [hafter]
      refine .compile w { o with builder := none } node fun b hb => ?_
      cases hb
    | clearRegistry id => exact .clearRegistry w id
    | clearMemo id => exact .clearMemo w id

/-- Whatever parties that share a memo compile in turn, and whenever the memo is emptied, each party's
outcomes and the content of its registry are, with other handles, those that its own compilations
have with an empty memo that nobody else uses. -/
theorem compilations_isolated [DecidableEq ι] (s : Sharing ι) (sequences : Key → Value)
    (past : List Action) (steps : List (Step ι)) (i : ι) :
    let start := afterAll sequences past
    let (outcomes, shared) := s.run steps start
    let (own, alone) := s.run (steps.filter (·.isOf i)) (start.setMemo s.memo {})
    ∃ ρ, Renames ρ (s.registry i) shared alone ∧
      alone.sequences (s.sequence i) = shared.sequences (s.sequence i) ∧
      own.map (fun x => x.2.map NamedType.object) =
        (outcomes.filter (·.1 = i)).map fun x => x.2.map fun c => ρ (.object c) := by
  intro start
  have hclosed : Closed start := closed_afterAll sequences past
  have hcoherent : Coherent start := (reached_afterAll sequences past).coherent
  have hindistinct : Indistinct (s.registry i) (s.sequence i) start (start.setMemo s.memo {}) :=
    ⟨hcoherent, hcoherent.clearMemo s.memo, rfl, rfl⟩
  obtain ⟨hlast, hnames⟩ := run_alike s i steps hindistinct
  obtain ⟨hshared, -, -⟩ := run_closed s steps hclosed
  obtain ⟨halone, -, hheld⟩ := run_closed s (steps.filter (·.isOf i)) (hclosed.clearMemo s.memo)
  refine ⟨_, renames_of_indistinct hshared halone hlast, hlast.sequence.symm, ?_⟩
  apply outcomes_counterpart halone _ hnames
  intro y hy c hc
  obtain ⟨o, node, hmem⟩ := party_of_run s hy
  have hparty : y.1 = i := of_decide_eq_true (List.mem_filter.mp hmem).2
  exact hparty ▸ hheld y hy c hc

def pair : Sharing Bool where
  registry b := .whole b.toNat
  sequence b := .whole b.toNat
  memo := .null
  registries_differ := by rintro (_ | _) (_ | _) h <;> first | rfl | cases h
  sequences_differ := by rintro (_ | _) (_ | _) h <;> first | rfl | cases h

def pairSteps : List (Step Bool) :=
  let lamp : Node := .object {} [(.text "state", .enum {} (.list [.text "on"]))]
  [.compile false lampOptions lamp, .clearMemo, .compile true lampOptions lamp]

theorem compilations_isolated_pair :
    let shared := (pair.run pairSteps (afterAll (fun _ => .int 0) [])).2
    let alone := (pair.run [pairSteps[2]] ((afterAll (fun _ => .int 0) []).setMemo .null {})).2
    (shared.registries (.whole 1)).enums.map (·.serial) = [1] ∧
      (alone.registries (.whole 1)).enums.map (·.serial) = [0] ∧
      ∃ ρ, Renames ρ (.whole 1) shared alone := by
  obtain ⟨ρ, hρ, -⟩ := compilations_isolated pair (fun _ => .int 0) [] pairSteps true
  exact ⟨rfl, rfl, ρ, hρ⟩

end Sharing

end SchemaCompiler
