import SchemaCompiler.Proofs.CommandLine.Reading
import SchemaCompiler.Proofs.Outcome

namespace SchemaCompiler

def Config.commented (c : Config) : Bool :=
  !c.outputFormat.asksFor .json && c.addGenerationComment.truthy

theorem Sdl.renderAll_header (header : Value) (enums : List EnumDeclaration)
    (models : List ModelDeclaration) :
    renderAll header enums models = (renderAll .null enums models).map (renderHeader header ++ ·) := by
  unfold renderAll
  cases enums.mapM EnumDeclaration.render with
  | error e => rfl
  | ok enums =>
    cases models.mapM ModelDeclaration.render with
    | error e => rfl
    | ok models => simp [Except.map, renderHeader, Value.truthy, String.append_assoc]

namespace CommandLine

open FileTree

section Rendering

variable {m : Type → Type} [Monad m]

def comment (files : FileAccess m) (i : Invocation) (config : Config) : ExceptT Stop m String :=
  if config.commented then
    (fun line => "# Generated by: " ++ line ++ "\n\n") <$> Invocation.commandLine files (some i)
  else pure ""

theorem comment_uncommented {config : Config} (h : config.commented = false) (files : FileAccess m)
    (i : Invocation) : comment files i config = pure "" := by
  rw [comment, h, if_neg (by simp)]

def body (config : Config) (c : Compilation) : Except Failure String :=
  if config.outputFormat.asksFor .json then renderJson config c
  else Sdl.renderRegistry c.workspace .null .null

theorem renderHeader_generated (line : String) :
    Sdl.renderHeader (.text ("Generated by: " ++ line)) = "# Generated by: " ++ line ++ "\n\n" := by
  have htruthy : (Value.text ("Generated by: " ++ line)).truthy = true := by simp [Value.truthy]
  rw [Sdl.renderHeader, if_pos htruthy, Value.display, ← String.append_assoc]
  rfl

theorem render_eq [LawfulMonad m] (files : FileAccess m) (i : Invocation) (config : Config)
    (c : Compilation) :
    render files i config c =
      comment files i config >>= fun top => orFault ((body config c).map (top ++ ·)) := by
  unfold render comment body Config.commented
  cases config.outputFormat.asksFor .json with
  | true => cases renderJson config c <;> simp [Except.map]
  | false =>
    cases config.addGenerationComment.truthy with
    | true =>
      simp [generationHeader, Sdl.renderRegistry, Sdl.renderTypes, renderHeader_generated,
        Sdl.renderAll_header (.text _)]
    | false => cases h : Sdl.renderRegistry c.workspace .null .null <;> simp [Except.map, h]

end Rendering

section Comment

variable {t t' : FileTree} (h : ∀ path, t'.stat path = t.stat path)

include h

theorem shownValue_lasts (value : String) :
    Lasts t t' (Invocation.shownValue access value) := by
  unfold Invocation.shownValue
  split
  · exact .pure _
  · refine .lift_bind rfl rfl (.inl ⟨(h _).symm, ?_⟩)
    split
    · exact .pure _
    · exact .pure _
    · exact .pure _
    · exact .throw _

theorem shownOption_lasts (setting : Setting) (value : Option String) :
    Lasts t t' (Invocation.shownOption access setting value) := by
  cases value with
  | none => exact .pure _
  | some v => exact .bind (shownValue_lasts h v) fun _ _ => .pure _

theorem words_lasts (i : Invocation) : Lasts t t' (i.words access) :=
  .bind (shownOption_lasts h _ _) fun _ _ => .bind (shownOption_lasts h _ _) fun _ _ =>
    .bind (shownOption_lasts h _ _) fun _ _ => .bind (shownValue_lasts h _) fun _ _ =>
      .bind (.optionMapM (shownValue_lasts h) _) fun _ _ => .pure _

theorem comment_lasts (i : Invocation) (config : Config) : Lasts t t' (comment access i config) := by
  unfold comment
  split
  · exact .bind (.bind (words_lasts h i) fun _ _ => .pure _) fun _ _ => .pure _
  · exact .pure _

theorem render_lasts (i : Invocation) (config : Config) (c : Compilation) :
    Lasts t t' (render access i config c) := by
  rw [render_eq]
  exact .bind (comment_lasts h i config) fun _ _ => orFault_lasts _

end Comment

structure Production where
  invocation : Invocation
  config : Config
  document : Value
  comment : String
  body : String

namespace Production

variable (p : Production)

def compilation : Compilation := compileDocument (rootName p.invocation p.config) p.document

def text : String := Text.endLine (p.comment ++ p.body)

def log : String := if p.invocation.verbose then logText p.compilation else ""

def finish (t : FileTree) : Outcome × FileTree :=
  match p.invocation.output with
  | none => ({ output := Text.withoutControls p.text, errors := p.log }, t)
  | some path =>
    match t.write path p.text with
    | .ok t' => ({ errors := p.log }, t')
    | .error fault => ((Stop.fault (.file fault)).outcome p.log, t)

end Production

structure Produces (t : FileTree) (a : Arguments) (p : Production) : Prop where
  no_help : a.has .help = false
  invocation : Reads t (Invocation.ofArguments access a) (.ok p.invocation)
  loaded : Reads t (load access p.invocation) (.ok (p.config, p.document))
  compiled : ∃ c, p.compilation.model = .ok c
  comment : Reads t (comment access p.invocation p.config) (.ok p.comment)
  body : body p.config p.compilation = .ok p.body

section Runs

variable {t : FileTree} {args : List String} {a : Arguments}

theorem run_bind {α β : Type} {x : ExceptT Stop (StateM FileTree) α} {r : Except Stop α}
    {t' : FileTree} (h : x.run.run t = (r, t')) (f : Except Stop α → StateM FileTree β) :
    (x.run >>= f).run t = (f r).run t' := by
  change (match x.run.run t with | (s, t) => (f s).run t) = _
  rw [h]

theorem access_write (t : FileTree) (path text : String) :
    (access.write path text).run t =
      match t.write path text with
      | .ok t' => (.ok (), t')
      | .error fault => (.error fault, t) := by
  change (match t.write path text with
    | .ok t' => (do set t'; return .ok () : StateM FileTree (Except FileFault Unit))
    | .error fault => return .error fault).run t = _
  cases t.write path text <;> rfl

theorem exitCode_outcome (stop : Stop) (log : String) : (stop.outcome log).exitCode ≠ 0 := by
  cases stop <;> simp [Stop.outcome]

theorem deliver_run {i : Invocation} {config : Config} {c : Compilation} {handle : ClassHandle}
    {text : String} (hc : c.model = .ok handle) (h : Reads t (render access i config c) (.ok text)) :
    (deliver access i config c).run.run t =
      match i.output with
      | none => (.ok (Text.withoutControls (Text.endLine text)), t)
      | some path =>
        match t.write path (Text.endLine text) with
        | .ok t' => (.ok "", t')
        | .error fault => (.error (.fault (.file fault)), t) := by
  unfold deliver
  rw [hc]
  dsimp only
  rw [h.run_bind]
  cases i.output with
  | none => rfl
  | some path =>
    dsimp only
    have hlift (y : StateM FileTree (Except FileFault Unit))
        (f : Except FileFault Unit → ExceptT Stop (StateM FileTree) String) :
        (liftM y >>= f).run.run t = (f (y.run t).1).run.run (y.run t).2 := rfl
    rw [hlift, access_write]
    cases t.write path (Text.endLine text) <;> rfl

theorem run_of_produces {p : Production} (ha : Arguments.read args = .ok a) (h : Produces t a p) :
    (run access args).run t = p.finish t := by
  obtain ⟨c, hc⟩ := h.compiled
  have hrender : Reads t (render access p.invocation p.config p.compilation)
      (.ok (p.comment ++ p.body)) := by
    rw [render_eq]
    refine h.comment.bind ?_
    rw [h.body]
    exact .pure _ _
  unfold run
  rw [ha]
  dsimp only
  rw [h.no_help, if_neg (by simp), run_bind h.invocation]
  dsimp only
  unfold perform
  rw [run_bind h.loaded]
  dsimp only
  have hdeliver := deliver_run hc hrender
  unfold Production.compilation at hdeliver
  unfold Production.finish
  cases ho : p.invocation.output with
  | none =>
    rw [ho] at hdeliver
    rw [run_bind hdeliver]
    rfl
  | some path =>
    rw [ho] at hdeliver
    dsimp only at hdeliver ⊢
    rw [Production.text]
    cases hw : t.write path (Text.endLine (p.comment ++ p.body)) with
    | error fault =>
      rw [hw] at hdeliver
      rw [run_bind hdeliver]
      rfl
    | ok t' =>
      rw [hw] at hdeliver
      rw [run_bind hdeliver]
      rfl

theorem produces_or_unchanged (t : FileTree) (ha : Arguments.read args = .ok a) :
    (∃ p, Produces t a p) ∨
      ∃ o, (run access args).run t = (o, t) ∧ (a.has .help = false → o.exitCode ≠ 0) := by
  unfold run
  rw [ha]
  dsimp only
  cases hhelp : a.has .help with
  | true => exact .inr ⟨_, rfl, nofun⟩
  | false =>
    rw [if_neg (by simp)]
    obtain ⟨stop | i, hi, -⟩ := ofArguments_lasts (Within.refl t) a
    · exact .inr ⟨_, run_bind hi _, fun _ => exitCode_outcome _ _⟩
    rw [run_bind hi]
    dsimp only
    unfold perform
    obtain ⟨stop | ⟨config, document⟩, hl, -⟩ :=
      load_lasts (fun _ _ => KeepsText.refl t _) (KeepsText.refl t i.path)
    · exact .inr ⟨_, run_bind hl _, fun _ => exitCode_outcome _ _⟩
    rw [run_bind hl]
    dsimp only
    cases hm : (compileDocument (rootName i config) document).model with
    | error f =>
      have hd : Reads t (deliver access i config (compileDocument (rootName i config) document))
          (.error (stopOf f)) := by
        unfold deliver
        rw [hm]
        exact .throw t _
      exact .inr ⟨_, run_bind hd _, fun _ => exitCode_outcome _ _⟩
    | ok handle =>
      obtain ⟨stop | text, hr, -⟩ :=
        render_lasts (fun _ => rfl) i config (compileDocument (rootName i config) document)
      · have hd : Reads t (deliver access i config (compileDocument (rootName i config) document))
            (.error stop) := by
          unfold deliver
          rw [hm]
          exact hr.bind_error
        exact .inr ⟨_, run_bind hd _, fun _ => exitCode_outcome _ _⟩
      · rw [render_eq] at hr
        obtain ⟨top, ht, hr⟩ := hr.of_bind (comment_lasts (fun _ => rfl) i config)
        cases hb : body config (compileDocument (rootName i config) document) with
        | error f =>
          rw [hb] at hr
          cases hr
        | ok rest => exact .inl ⟨⟨i, config, document, top, rest⟩, hhelp, hi, hl, ⟨handle, hm⟩, ht, hb⟩

end Runs

end CommandLine

end SchemaCompiler
