import SchemaCompiler.CommandLine.Command
import SchemaCompiler.CommandLine.FileTree

namespace SchemaCompiler.CommandLine

open FileTree

variable {α β σ : Type} {t t' : FileTree}

def Reads (t : FileTree) (x : ExceptT Stop (StateM FileTree) α) (r : Except Stop α) : Prop :=
  x.run.run t = (r, t)

/-- The work leaves the first tree as it is, and comes to the same in the second if it comes to
something in the first. -/
def Lasts (t t' : FileTree) (x : ExceptT Stop (StateM FileTree) α) : Prop :=
  ∃ r, Reads t x r ∧ ∀ a, r = .ok a → Reads t' x (.ok a)

section Rules

variable {x : ExceptT Stop (StateM FileTree) α} {f : α → ExceptT Stop (StateM FileTree) β}

namespace Reads

theorem pure (t : FileTree) (a : α) : Reads t (pure a) (.ok a) := rfl

theorem throw (t : FileTree) (stop : Stop) :
    Reads t (throw stop : ExceptT Stop (StateM FileTree) α) (.error stop) := rfl

theorem run_bind {a : α} (hx : Reads t x (.ok a)) : (x >>= f).run.run t = (f a).run.run t := by
  change (match x.run.run t with | (s, t) => (ExceptT.bindCont f s).run t) = _
  rw [hx]
  rfl

theorem bind {a : α} {r : Except Stop β} (hx : Reads t x (.ok a)) (hf : Reads t (f a) r) :
    Reads t (x >>= f) r := by
  rw [Reads, hx.run_bind]
  exact hf

theorem bind_error {stop : Stop} (hx : Reads t x (.error stop)) :
    Reads t (x >>= f) (.error stop) := by
  change (match x.run.run t with | (s, t) => (ExceptT.bindCont f s).run t) = _
  rw [hx]
  rfl

theorem lift_bind_iff {y : StateM FileTree α} {a : α} (h : y.run t = (a, t)) {r : Except Stop β} :
    Reads t (liftM y >>= f) r ↔ Reads t (f a) r := by
  have hrun : (liftM y >>= f).run.run t = (f a).run.run t := by
    change (match (match y.run t with | (a, s) => (Except.ok a, s)) with
      | (s, t) => (ExceptT.bindCont f s).run t) = _
    rw [h]
    rfl
  rw [Reads, hrun]
  rfl

theorem unique {r s : Except Stop α} (hr : Reads t x r) (hs : Reads t x s) : r = s :=
  congrArg Prod.fst (Eq.trans (Eq.symm hr) hs)

theorem of_bind {b : β} (h : Reads t (x >>= f) (.ok b)) (hx : Lasts t t' x) :
    ∃ a, Reads t x (.ok a) ∧ Reads t (f a) (.ok b) := by
  obtain ⟨stop | a, hr, -⟩ := hx
  · cases h.unique hr.bind_error
  · rw [Reads, hr.run_bind] at h
    exact ⟨a, hr, h⟩

end Reads

namespace Lasts

theorem pure (a : α) : Lasts t t' (pure a) := ⟨_, .pure t a, fun _ h => by cases h; exact .pure t' a⟩

theorem throw (stop : Stop) : Lasts t t' (throw stop : ExceptT Stop (StateM FileTree) α) :=
  ⟨_, .throw t stop, fun _ h => nomatch h⟩

theorem bind (hx : Lasts t t' x) (hf : ∀ a, Reads t x (.ok a) → Lasts t t' (f a)) :
    Lasts t t' (x >>= f) := by
  obtain ⟨stop | a, hr, hlasts⟩ := hx
  · exact ⟨_, hr.bind_error, fun _ h => nomatch h⟩
  · obtain ⟨r, hs, hf⟩ := hf a hr
    exact ⟨r, hr.bind hs, fun b hb => (hlasts a rfl).bind (hf b hb)⟩

theorem lift_bind {y : StateM FileTree α} {a a' : α} (h : y.run t = (a, t)) (h' : y.run t' = (a', t'))
    (hf : (a = a' ∧ Lasts t t' (f a)) ∨ ∃ stop, f a = MonadExcept.throw stop) : Lasts t t' (liftM y >>= f) := by
  rcases hf with ⟨rfl, r, hr, hlasts⟩ | ⟨stop, hstop⟩
  · exact ⟨r, (Reads.lift_bind_iff h).mpr hr, fun b hb => (Reads.lift_bind_iff h').mpr (hlasts b hb)⟩
  · exact ⟨.error stop, (Reads.lift_bind_iff h).mpr (hstop ▸ .throw t stop), fun _ hb => nomatch hb⟩

theorem reads (hx : Lasts t t' x) {a : α} (h : Reads t x (.ok a)) : Reads t' x (.ok a) := by
  obtain ⟨r, hr, hlasts⟩ := hx
  exact hlasts a (hr.unique h)

theorem optionMapM {f : α → ExceptT Stop (StateM FileTree) β} (h : ∀ a, Lasts t t' (f a)) :
    (o : Option α) → Lasts t t' (o.mapM f)
  | none => .pure none
  | some a => .bind (h a) fun b _ => .pure (some b)

theorem foldlM {f : σ → α → ExceptT Stop (StateM FileTree) σ} (h : ∀ s a, Lasts t t' (f s a))
    (s : σ) (xs : List α) : Lasts t t' (xs.foldlM f s) := by
  induction xs generalizing s with
  | nil => exact .pure s
  | cons a rest ih => exact .bind (h s a) fun s _ => ih s

end Lasts

theorem Reads.foldlM {f : σ → α → ExceptT Stop (StateM FileTree) σ} (h : ∀ s a, Lasts t t' (f s a))
    {P : σ → Prop} (hstep : ∀ s a s', P s → Reads t (f s a) (.ok s') → P s') {s s' : σ}
    {xs : List α} (hs : P s) (hr : Reads t (xs.foldlM f s) (.ok s')) : P s' := by
  induction xs generalizing s with
  | nil =>
    cases hr
    exact hs
  | cons a rest ih =>
    obtain ⟨next, hnext, hrest⟩ := hr.of_bind (h s a)
    exact ih (hstep s a next hs hnext) hrest

end Rules

structure Within (t t' : FileTree) : Prop where
  workingDirectory : t'.workingDirectory = t.workingDirectory
  stat : ∀ {path kind}, t.stat path = .ok kind → t'.stat path = .ok kind

def KeepsText (t t' : FileTree) (path : String) : Prop :=
  ∀ s, t.read path = .ok s → t'.read path = .ok s

theorem Within.refl (t : FileTree) : Within t t := ⟨rfl, id⟩

theorem KeepsText.refl (t : FileTree) (path : String) : KeepsText t t path := fun _ => id

theorem absolutePath_ok {path s : String} (h : Reads t (absolutePath access path) (.ok s)) :
    s = Path.absolute t.workingDirectory path ∧ '\x00' ∉ path.toList := by
  unfold absolutePath at h
  split at h
  · cases h
  · rename_i hnul
    cases h
    exact ⟨rfl, fun hmem => hnul (List.contains_iff_mem.mpr hmem)⟩

section Functions

variable (h : Within t t')

include h

theorem absolutePath_lasts (path : String) : Lasts t t' (absolutePath access path) := by
  unfold absolutePath
  split
  · exact .throw _
  · refine ⟨.ok (Path.absolute t.workingDirectory path), rfl, fun a ha => ?_⟩
    cases ha
    rw [← h.workingDirectory]
    rfl

theorem existingPath_lasts (parameter : PathParameter) (path : String) :
    Lasts t t' (existingPath access parameter path) := by
  refine .bind (absolutePath_lasts h path) fun absolute _ => .lift_bind rfl rfl ?_
  cases hs : t.stat absolute with
  | ok kind => exact .inl ⟨(h.stat hs).symm, .pure absolute⟩
  | error fault => exact .inr ⟨_, rfl⟩

theorem existingPath_ok {parameter : PathParameter} {path s : String}
    (hr : Reads t (existingPath access parameter path) (.ok s)) :
    s = Path.absolute t.workingDirectory path := by
  obtain ⟨absolute, ha, hr⟩ := hr.of_bind (absolutePath_lasts h path)
  rw [← (absolutePath_ok ha).1]
  have hr := (Reads.lift_bind_iff (y := access.stat absolute) rfl).mp hr
  cases hs : t.stat absolute with
  | ok kind =>
    rw [hs] at hr
    cases hr
    rfl
  | error fault =>
    rw [hs] at hr
    cases hr

theorem checkSetting_lasts (a : Arguments) (s : Switches) (setting : Setting) :
    Lasts t t' (checkSetting access a s setting) := by
  unfold checkSetting
  split
  · exact .pure _
  · exact .bind (.optionMapM (existingPath_lasts h _) _) fun _ _ => .pure _
  · split
    · exact .pure _
    · split
      · exact .pure _
      · exact .throw _
  · exact .pure _
  · exact .pure _
  · exact .pure _

theorem ofArguments_lasts (a : Arguments) : Lasts t t' (Invocation.ofArguments access a) := by
  refine .bind (.foldlM (checkSetting_lasts h a) _ _) fun switches _ => ?_
  split
  · exact .throw _
  · exact .bind (existingPath_lasts h _ _) fun _ _ => .pure _
  · refine .bind (existingPath_lasts h _ _) fun _ _ => .bind (absolutePath_lasts h _) fun _ _ => ?_
    dsimp only
    split
    · exact .throw _
    · exact .pure _

end Functions

theorem checkSetting_config {a : Arguments} {s s' : Switches} {setting : Setting}
    (hr : Reads t (checkSetting access a s setting) (.ok s')) :
    s'.config = s.config ∨ s'.config = (a.value? .config).map (Path.absolute t.workingDirectory) := by
  unfold checkSetting at hr
  split at hr
  · cases hr
    exact .inl rfl
  · have hlasts := existingPath_lasts (Within.refl t) .config
    cases hc : a.value? .config with
    | none =>
      rw [hc] at hr
      cases hr
      exact .inr rfl
    | some c =>
      rw [hc] at hr
      obtain ⟨o, ho, hr⟩ := hr.of_bind (.optionMapM hlasts _)
      obtain ⟨path, hpath, ho⟩ := ho.of_bind (hlasts c)
      cases hr
      cases ho
      exact .inr (congrArg some (existingPath_ok (Within.refl t) hpath))
  · split at hr
    · cases hr
      exact .inl rfl
    · split at hr
      · cases hr
        exact .inl rfl
      · cases hr
  all_goals
    cases hr
    exact .inl rfl

structure Invokes (t : FileTree) (a : Arguments) (path output : String) (i : Invocation) : Prop where
  path_eq : i.path = Path.absolute t.workingDirectory path
  output_eq : i.output = some (Path.absolute t.workingDirectory output)
  output_no_nul : '\x00' ∉ output.toList
  config_eq : ∀ p, i.config = some p →
    ∃ c, a.value? .config = some c ∧ p = Path.absolute t.workingDirectory c
  withoutOutput : Reads t (Invocation.ofArguments access { a with positionals := [path] })
    (.ok { i with output := none })

theorem invokes_of_ofArguments {a : Arguments} {i : Invocation} {path output : String}
    (hpos : a.positionals = [path, output])
    (hr : Reads t (Invocation.ofArguments access a) (.ok i)) : Invokes t a path output i := by
  have hwithin := Within.refl t
  obtain ⟨switches, hs, hr⟩ := hr.of_bind (.foldlM (checkSetting_lasts hwithin a) _ _)
  rw [hpos] at hr
  obtain ⟨p, hp, hr⟩ := hr.of_bind (existingPath_lasts hwithin _ _)
  obtain ⟨o, ho, hr⟩ := hr.of_bind (absolutePath_lasts hwithin _)
  cases hr
  obtain ⟨rfl, hnul⟩ := absolutePath_ok ho
  refine ⟨existingPath_ok hwithin hp, rfl, hnul, ?_, hs.bind (hp.bind (.pure t _))⟩
  refine Reads.foldlM (P := fun s : Switches => ∀ p, s.config = some p →
    ∃ c, a.value? .config = some c ∧ p = Path.absolute t.workingDirectory c)
    (checkSetting_lasts hwithin a) ?_ (by simp) hs
  intro s setting s' hP hr p hp
  rcases checkSetting_config hr with hc | hc
  · exact hP p (hc ▸ hp)
  · rw [hc, Option.map_eq_some_iff] at hp
    obtain ⟨c, hc, rfl⟩ := hp
    exact ⟨c, hc, rfl⟩

theorem orFault_lasts (x : Except Failure α) :
    Lasts t t' (orFault x : ExceptT Stop (StateM FileTree) α) := by
  cases x with
  | ok a => exact .pure a
  | error f => exact .throw _

theorem readText_lasts {path : String} (h : KeepsText t t' path) :
    Lasts t t' (readText access path) := by
  refine .lift_bind rfl rfl ?_
  cases hs : t.read path with
  | ok text => exact .inl ⟨(h text hs).symm, .pure _⟩
  | error fault => exact .inr ⟨_, rfl⟩

theorem readConfig_lasts {i : Invocation} (h : ∀ path, i.config = some path → KeepsText t t' path) :
    Lasts t t' (readConfig access i) := by
  unfold readConfig
  dsimp only
  split
  · exact .pure _
  · rename_i path hpath
    refine .bind (readText_lasts (h path hpath)) fun text _ => ?_
    split
    · exact .bind (orFault_lasts _) fun _ _ => .pure _
    · exact .throw _

theorem readSchemaDocument_lasts {i : Invocation} (h : KeepsText t t' i.path) :
    Lasts t t' (readSchemaDocument access i) := by
  refine .bind (readText_lasts h) fun text _ => ?_
  split
  · exact .pure _
  · exact .throw _
  · exact .throw _

theorem load_lasts {i : Invocation} (hconfig : ∀ path, i.config = some path → KeepsText t t' path)
    (hpath : KeepsText t t' i.path) : Lasts t t' (load access i) :=
  .bind (readConfig_lasts hconfig) fun _ _ => .bind (readSchemaDocument_lasts hpath) fun _ _ => .pure _

end SchemaCompiler.CommandLine
