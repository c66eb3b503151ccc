import SchemaCompiler.Proofs.CommandLine.FileTrees
import SchemaCompiler.Proofs.CommandLine.Running

namespace SchemaCompiler

namespace Text

theorem dropControls_plain {cs : List Char} (h : escapeChar ∉ cs) : dropControls [] cs = cs := by
  induction cs with
  | nil => rfl
  | cons c rest ih =>
    rw [dropControls, if_neg fun hc => h (by simp [hc]), ih fun hr => h (List.mem_cons_of_mem _ hr)]

theorem withoutControls_plain {s : String} (h : escapeChar ∉ s.toList) : withoutControls s = s := by
  rw [withoutControls, dropControls_plain h, String.ofList_toList]

end Text

namespace CommandLine

def withoutPositional : Nat → List String → List String
  | _, [] => []
  | n, argument :: rest =>
    if argument = "--" then argument :: rest.eraseIdx n
    else if isOption argument.toList then
      match readOption argument.toList with
      | .ok ⟨_, some _⟩ =>
        match rest with
        | [] => [argument]
        | value :: rest => argument :: value :: withoutPositional n rest
      | _ => argument :: withoutPositional n rest
    else if n = 0 then rest
    else argument :: withoutPositional (n - 1) rest

theorem read_withoutPositional (n : Nat) (args : List String) :
    Arguments.read (withoutPositional n args) =
      (Arguments.read args).map fun a => { a with positionals := a.positionals.eraseIdx n } := by
  induction args using Arguments.read.induct generalizing n with
  | case1 => rfl
  | case2 rest =>
    rw [withoutPositional.eq_def]
    rfl
  | case3 argument rest hdashes hoption e hread =>
    rw [withoutPositional.eq_def]
    dsimp only
    rw [if_neg hdashes, if_pos hoption, hread]
    simp only [Arguments.read, hdashes, hoption, hread, if_false, if_true]
    rfl
  | case4 argument rest hdashes hoption occurrences hread ih =>
    rw [withoutPositional.eq_def]
    dsimp only
    rw [if_neg hdashes, if_pos hoption, hread]
    simp only [Arguments.read, hdashes, hoption, hread, ih, if_false, if_true]
    cases Arguments.read rest <;> rfl
  | case5 argument hdashes hoption occurrences setting spelling hread =>
    rw [withoutPositional.eq_def]
    dsimp only
    rw [if_neg hdashes, if_pos hoption, hread]
    simp only [Arguments.read, hdashes, hoption, hread, if_false, if_true]
    rfl
  | case6 argument hdashes hoption occurrences setting spelling hread value rest ih =>
    rw [withoutPositional.eq_def]
    dsimp only
    rw [if_neg hdashes, if_pos hoption, hread]
    simp only [Arguments.read, hdashes, hoption, hread, ih, if_false, if_true]
    cases Arguments.read rest <;> rfl
  | case7 argument rest hdashes hoption ih =>
    rw [withoutPositional.eq_def]
    dsimp only
    rw [if_neg hdashes, if_neg hoption]
    split
    · simp_all only [Arguments.read, if_false]
      cases Arguments.read rest <;> rfl
    · simp only [Arguments.read, hdashes, hoption, ih, if_false]
      cases n with
      | zero => contradiction
      | succ n => cases Arguments.read rest <;> rfl

open FileTree

/-- The run on the arguments comes to an output that opens with the comment on how it was made. -/
def Comments (t : FileTree) (args : List String) : Prop :=
  ∃ a p, Arguments.read args = .ok a ∧ Produces t a p ∧ p.config.commented = true

section Runs

variable {t t' : FileTree} {args : List String} {a : Arguments} {p : Production} {o : Outcome}
  {path output : String}

theorem Produces.invokes (h : Produces t a p) (hpos : a.positionals = [path, output]) :
    Invokes t a path output p.invocation :=
  invokes_of_ofArguments hpos h.invocation

def Production.withoutOutput (p : Production) : Production :=
  { p with invocation := { p.invocation with output := none } }

theorem compilation_withoutOutput (p : Production) : p.withoutOutput.compilation = p.compilation := by
  unfold Production.compilation Production.withoutOutput rootName
  rfl

theorem load_withoutOutput (i : Invocation) :
    load access { i with output := none } = load access i := by
  unfold load readConfig readSchemaDocument
  rfl

theorem Produces.withoutOutput (h : Produces t a p) (hpos : a.positionals = [path, output])
    (hc : p.config.commented = false) :
    Produces t { a with positionals := [path] } p.withoutOutput where
  no_help := h.no_help
  invocation := (h.invokes hpos).withoutOutput
  loaded := by
    unfold Production.withoutOutput
    rw [load_withoutOutput]
    exact h.loaded
  compiled := by
    rw [compilation_withoutOutput]
    exact h.compiled
  comment := by
    have hcomment := h.comment
    unfold Production.withoutOutput
    rw [comment_uncommented hc] at hcomment ⊢
    exact hcomment
  body := by
    rw [compilation_withoutOutput]
    exact h.body

theorem finish_written (h : p.invocation.output = some path) (hexit : (p.finish t).1.exitCode = 0) :
    ∃ t', t.write path p.text = .ok t' ∧ p.finish t = ({ errors := p.log }, t') := by
  unfold Production.finish at hexit ⊢
  rw [h] at hexit ⊢
  dsimp only at hexit ⊢
  cases hw : t.write path p.text with
  | ok t' => exact ⟨t', rfl, rfl⟩
  | error fault =>
    rw [hw] at hexit
    exact absurd hexit (exitCode_outcome _ _)

theorem finish_failed (hexit : (p.finish t).1.exitCode ≠ 0) : (p.finish t).2 = t := by
  unfold Production.finish at hexit ⊢
  split
  · rfl
  · rename_i place hout
    rw [hout] at hexit
    dsimp only at hexit
    split
    · rename_i s hw
      rw [hw] at hexit
      exact absurd rfl hexit
    · rfl

/-- A run that fails changes no file. A run that compiles with an output path and does not fail prints
nothing and changes that one file. What the file then holds is printed by the run without the output
path, less the control sequences in it, unless it opens with the comment on how it was made. -/
theorem run_all_or_nothing (hdir : t.Proper) (h : (run access args).run t = (o, t')) :
    (o.exitCode ≠ 0 → t' = t) ∧
    ∀ a path output, Arguments.read args = .ok a → a.has .help = false →
      a.positionals = [path, output] → o.exitCode = 0 →
        o.output = "" ∧ ∃ text,
          (∀ q, t'.at? q =
            if q = Path.absoluteParts t.workingDirectory output then some (.file text) else t.at? q) ∧
          (¬ Comments t args → (run access (withoutPositional 1 args)).run t =
            ({ o with output := Text.withoutControls text }, t)) ∧
          (Text.escapeChar ∉ text.toList → Text.withoutControls text = text) := by
  constructor
  · intro hexit
    cases ha : Arguments.read args with
    | error e =>
      unfold run at h
      rw [ha] at h
      cases h
      rfl
    | ok a =>
      rcases produces_or_unchanged t ha with ⟨p, hp⟩ | ⟨o', ho, -⟩
      · rw [run_of_produces ha hp] at h
        have hfailed : (p.finish t).1.exitCode ≠ 0 := by
          rw [h]
          exact hexit
        rw [← finish_failed hfailed, h]
      · rw [ho] at h
        cases h
        rfl
  · intro a path output ha hhelp hpos hexit
    rcases produces_or_unchanged t ha with ⟨p, hp⟩ | ⟨o', ho, hfails⟩
    · rw [run_of_produces ha hp] at h
      obtain ⟨s, hw, hfinish⟩ := finish_written (hp.invokes hpos).output_eq (by rw [h]; exact hexit)
      rw [hfinish] at h
      obtain ⟨rfl, rfl⟩ := Prod.mk.inj h
      obtain ⟨hplace, rfl, -⟩ := write_absolute hdir hw
      refine ⟨rfl, p.text, at?_put hplace.not_root, ?_, Text.withoutControls_plain⟩
      intro hcomment
      have hc : p.config.commented = false := by
        cases hc : p.config.commented with
        | false => rfl
        | true => exact absurd ⟨a, p, ha, hp, hc⟩ hcomment
      have hread : Arguments.read (withoutPositional 1 args) = .ok { a with positionals := [path] } := by
        rw [read_withoutPositional, ha, Except.map, hpos]
        rfl
      exact run_of_produces hread (hp.withoutOutput hpos hc)
    · rw [ho] at h
      cases h
      exact absurd hexit (hfails hhelp)

end Runs

def boldSchema : FileTree where
  workingDirectory := ["work"]
  entries := [(["work"], .directory), (["work", "s.json"],
    .file "\x7b\"description\": \"W: \\u001b[1mbold\", \"properties\": \x7b\x7d\x7d")]

def boldArguments : List String := ["s.json", "out.graphql", "--no-comment"]

theorem not_comments_bold : ¬ Comments boldSchema boldArguments := by
  rintro ⟨a, p, ha, hp, hc⟩
  have hread : Arguments.read boldArguments =
      .ok ⟨[⟨.noComment, none⟩], ["s.json", "out.graphql"]⟩ := by decide
  rw [hread] at ha
  cases ha
  have hinvocation : Reads boldSchema
      (Invocation.ofArguments access ⟨[⟨.noComment, none⟩], ["s.json", "out.graphql"]⟩)
      (.ok ⟨{ noComment := true }, "/work/s.json", some "/work/out.graphql"⟩) := by
    change @Eq (Except Stop Invocation × FileTree) _ _
    decide +kernel
  have hi := Except.ok.inj (hp.invocation.unique hinvocation)
  have hloaded : Reads boldSchema
      (load access ⟨{ noComment := true }, "/work/s.json", some "/work/out.graphql"⟩)
      (.ok ({ addGenerationComment := .bool false },
        .record [("description", .text "W: \x1b[1mbold"), ("properties", .record [])])) := by
    change @Eq (Except Stop (Config × Value) × FileTree) _ _
    decide +kernel
  have hl := hp.loaded
  rw [hi] at hl
  have hconfig := congrArg Prod.fst (Except.ok.inj (hl.unique hloaded))
  rw [show p.config = _ from hconfig] at hc
  exact absurd hc (by decide)

theorem run_all_or_nothing_bold : ∃ text,
    ((run access boldArguments).run boldSchema).2.at? ["work", "out.graphql"] = some (.file text) ∧
      ((run access (withoutPositional 1 boldArguments)).run boldSchema).1.output =
        Text.withoutControls text := by
  have hdir : boldSchema.Proper := by decide
  have hexit : ((run access boldArguments).run boldSchema).1.exitCode = 0 := by decide +kernel
  obtain ⟨-, h⟩ := run_all_or_nothing hdir (Prod.eta ((run access boldArguments).run boldSchema)).symm
  obtain ⟨-, text, hat, hprinted, -⟩ := h ⟨[⟨.noComment, none⟩], ["s.json", "out.graphql"]⟩
    "s.json" "out.graphql" (by decide) (by decide) rfl hexit
  exact ⟨text, by rw [hat]; exact if_pos (by decide), by rw [hprinted not_comments_bold]⟩

theorem boldSchema_printed :
    ((run access boldArguments).run boldSchema).2.at? ["work", "out.graphql"] =
        some (.file "\"\"\"\x1b[1mbold\"\"\"\ntype W \x7b\n\x7d\n") ∧
      ((run access (withoutPositional 1 boldArguments)).run boldSchema).1.output =
        "\"\"\"bold\"\"\"\ntype W \x7b\n\x7d\n" := by
  constructor <;> decide +kernel

end CommandLine

end SchemaCompiler
