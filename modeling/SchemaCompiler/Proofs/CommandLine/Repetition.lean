import Mathlib.Data.List.TakeWhile
import SchemaCompiler.Proofs.CommandLine.AllOrNothing
import SchemaCompiler.Proofs.Model.Closure

namespace SchemaCompiler.CommandLine

open FileTree

namespace Path

theorem length_of_mem_splitFrom {part cs : List Char} {name : String} (h : name ∈ splitFrom part cs) :
    name.length ≤ part.length + cs.length := by
  induction cs generalizing part with
  | nil =>
    rw [splitFrom, List.mem_singleton] at h
    simp [h]
  | cons c rest ih =>
    rw [splitFrom] at h
    split at h
    · rcases List.mem_cons.mp h with rfl | h
      · simp
      · have hlength := ih h
        simp only [List.length_nil, List.length_cons] at hlength ⊢
        omega
    · have hlength := ih h
      simp only [List.length_cons] at hlength ⊢
      omega

theorem length_of_mem_parts {path name : String} (h : name ∈ parts path) : name.length ≤ path.length := by
  have hlength := length_of_mem_splitFrom (List.mem_filter.mp h).1
  rwa [List.length_nil, Nat.zero_add, String.length_toList] at hlength

theorem length_lastPart (path : String) : (lastPart path).length ≤ path.length := by
  unfold lastPart
  cases hlast : (parts path).getLast? with
  | none => simp
  | some name => exact length_of_mem_parts (List.mem_of_getLast? hlast)

theorem length_lastPart_absolute {path : String} (h : isAbsolute path = true) :
    (lastPart path).length < path.length := by
  obtain ⟨rest, hrest⟩ : ∃ rest, path.toList = '/' :: rest := by
    simpa [isAbsolute, List.head?_eq_some_iff] using h
  have hlength : path.length = rest.length + 1 := by
    rw [← String.length_toList, hrest, List.length_cons]
  unfold lastPart
  cases hlast : (parts path).getLast? with
  | none => simp [hlength]
  | some name =>
    have hmem := (List.mem_filter.mp (List.mem_of_getLast? hlast)).1
    rw [hrest, splitFrom, if_pos rfl] at hmem
    rw [Option.getD_some]
    rcases List.mem_cons.mp hmem with rfl | hmem
    · simp [hlength]
    · have := length_of_mem_splitFrom hmem
      simp only [List.length_nil] at this
      omega

end Path

def room : List String → Nat
  | [] => 0
  | word :: words => word.length + 1 + room words

theorem room_append (words more : List String) : room (words ++ more) = room words + room more := by
  induction words with
  | nil => simp [room]
  | cons word words ih =>
    rw [List.cons_append, room, room, ih]
    omega

theorem length_intercalate (word : String) (words : List String) :
    (" ".intercalate (word :: words)).length = word.length + room words := by
  induction words generalizing word with
  | nil => simp [room]
  | cons next rest ih =>
    rw [String.intercalate_cons_cons, String.length_append, String.length_append, ih, room,
      show " ".length = 1 from rfl]
    omega

section Comment

variable {t : FileTree} {place : List String} {path : String}

def shown (t : FileTree) (value : String) : Except Stop String :=
  if value.toList.contains '\x00' then .ok value
  else
    match t.stat (Path.plain value) with
    | .ok _ => .ok (Path.lastPart value)
    | .error .notFound | .error .notDirectory => .ok value
    | .error fault => .error (.fault (.file fault))

theorem shownValue_reads (t : FileTree) (value : String) :
    Reads t (Invocation.shownValue access value) (shown t value) := by
  unfold Invocation.shownValue shown
  split
  · exact .pure t value
  · refine (Reads.lift_bind_iff (y := access.stat (Path.plain value)) rfl).mpr ?_
    cases t.stat (Path.plain value) with
    | ok kind => rfl
    | error fault => cases fault <;> rfl

theorem shown_put (h : t.Writable place) (text : String) {value s : String}
    (hs : shown t value = .ok s) :
    ∃ s', shown (t.put place (.file text)) value = .ok s' ∧ s'.length ≤ s.length := by
  unfold shown at hs ⊢
  split
  · rename_i hnul
    rw [if_pos hnul] at hs
    exact ⟨value, rfl, by cases hs; exact Nat.le_refl _⟩
  · rename_i hnul
    rw [if_neg hnul] at hs
    cases hstat : t.stat (Path.plain value) with
    | ok kind =>
      rw [hstat] at hs
      rw [stat_put_of_ok h hstat]
      exact ⟨_, rfl, by cases hs; exact Nat.le_refl _⟩
    | error fault =>
      rw [hstat] at hs
      have hlast := Path.length_lastPart value
      rcases stat_put_of_error h hstat text with hsame | ⟨rfl, hnew | hnew⟩
      · rw [hsame]
        exact ⟨s, hs, Nat.le_refl _⟩
      · rw [hnew]
        exact ⟨value, rfl, by cases hs; exact Nat.le_refl _⟩
      · rw [hnew]
        exact ⟨_, rfl, by cases hs; exact hlast⟩

theorem plain_absolute (hdir : t.Proper) (path : String) :
    Path.plain (Path.absolute t.workingDirectory path) = Path.absolute t.workingDirectory path := by
  rw [Path.plain, Path.isAbsolute_absolute, Path.parts_absolute hdir.names]
  rfl

theorem shown_new (hdir : t.Proper) {text : String} {t' : FileTree} (hnul : '\x00' ∉ path.toList)
    (hw : t.write (Path.absolute t.workingDirectory path) text = .ok t')
    (hnew : ∀ kind, t.stat (Path.absolute t.workingDirectory path) ≠ .ok kind) {s : String}
    (hs : shown t (Path.absolute t.workingDirectory path) = .ok s) :
    ∃ s', shown t' (Path.absolute t.workingDirectory path) = .ok s' ∧ s'.length < s.length := by
  obtain ⟨-, -, hthere⟩ := write_absolute hdir hw
  have hstat : t'.stat (Path.absolute t.workingDirectory path) = .ok .file := by
    rw [stat, hthere]
    rfl
  have hkept : ¬ (Path.absolute t.workingDirectory path).toList.contains '\x00' = true := by
    intro hmem
    rcases Path.mem_absolute (List.contains_iff_mem.mp hmem) with h | h | ⟨name, hname, h⟩
    · cases h
    · exact hnul h
    · exact hdir.no_nul name hname h
  have hlast := Path.length_lastPart_absolute (Path.isAbsolute_absolute t.workingDirectory path)
  unfold shown at hs ⊢
  rw [if_neg hkept, plain_absolute hdir] at hs ⊢
  rw [hstat]
  refine ⟨_, rfl, ?_⟩
  split at hs
  · rename_i kind hkind
    exact absurd hkind (hnew kind)
  · cases hs
    exact hlast
  · cases hs
    exact hlast
  · cases hs

theorem shownOption_put (h : t.Writable place) (text : String) {setting : Setting} {value : Option String}
    {ws : List String} (hr : Reads t (Invocation.shownOption access setting value) (.ok ws)) :
    ∃ ws', Reads (t.put place (.file text)) (Invocation.shownOption access setting value) (.ok ws') ∧
      room ws' ≤ room ws := by
  cases value with
  | none =>
    cases hr
    exact ⟨[], .pure _ _, Nat.le_refl _⟩
  | some v =>
    obtain ⟨s, hs, hr⟩ := hr.of_bind (shownValue_lasts (fun _ => rfl) v)
    obtain ⟨s', hs', hlength⟩ := shown_put h text ((shownValue_reads t v).unique hs)
    cases hr
    refine ⟨_, .bind (hs' ▸ shownValue_reads _ v) (.pure _ _), ?_⟩
    simp only [room, String.length_append]
    omega

theorem words_new (hdir : t.Proper) {text : String} {t' : FileTree} (hnul : '\x00' ∉ path.toList)
    (hw : t.write (Path.absolute t.workingDirectory path) text = .ok t')
    (hnew : ∀ kind, t.stat (Path.absolute t.workingDirectory path) ≠ .ok kind) {i : Invocation}
    (hi : i.output = some (Path.absolute t.workingDirectory path)) {ws : List String}
    (hr : Reads t (i.words access) (.ok ws)) :
    ∃ ws', Reads t' (i.words access) (.ok ws') ∧
      (" ".intercalate ws').length < (" ".intercalate ws).length := by
  obtain ⟨hplace, hput, -⟩ := write_absolute hdir hw
  have hsame : ∀ path, t.stat path = t.stat path := fun _ => rfl
  obtain ⟨name, hname, hr⟩ := hr.of_bind (shownOption_lasts hsame _ _)
  obtain ⟨config, hconfig, hr⟩ := hr.of_bind (shownOption_lasts hsame _ _)
  obtain ⟨format, hformat, hr⟩ := hr.of_bind (shownOption_lasts hsame _ _)
  obtain ⟨source, hsource, hr⟩ := hr.of_bind (shownValue_lasts hsame _)
  obtain ⟨output, houtput, hr⟩ := hr.of_bind (.optionMapM (shownValue_lasts hsame) _)
  cases hr
  rw [hi] at houtput
  obtain ⟨target, htarget, houtput⟩ := houtput.of_bind (shownValue_lasts hsame _)
  cases houtput
  obtain ⟨name', hname', hname_le⟩ := shownOption_put hplace text hname
  obtain ⟨config', hconfig', hconfig_le⟩ := shownOption_put hplace text hconfig
  obtain ⟨format', hformat', hformat_le⟩ := shownOption_put hplace text hformat
  obtain ⟨source', hsource', hsource_le⟩ := shown_put hplace text ((shownValue_reads t _).unique hsource)
  obtain ⟨target', htarget', htarget_lt⟩ :=
    shown_new hdir hnul hw hnew ((shownValue_reads t _).unique htarget)
  rw [← hput] at hname' hconfig' hformat' hsource'
  have hoption : Reads t' (i.output.mapM (Invocation.shownValue access)) (.ok (some target')) := by
    rw [hi]
    exact .bind (htarget' ▸ shownValue_reads t' _) (.pure t' _)
  refine ⟨_, .bind hname' (.bind hconfig' (.bind hformat'
    (.bind (hsource' ▸ shownValue_reads t' _) (.bind hoption (.pure t' _))))), ?_⟩
  simp only [Option.toList_some, List.cons_append, List.nil_append, length_intercalate, room,
    room_append]
  omega

theorem comment_new (hdir : t.Proper) {text : String} {t' : FileTree} (hnul : '\x00' ∉ path.toList)
    (hw : t.write (Path.absolute t.workingDirectory path) text = .ok t')
    (hnew : ∀ kind, t.stat (Path.absolute t.workingDirectory path) ≠ .ok kind) {i : Invocation}
    (hi : i.output = some (Path.absolute t.workingDirectory path)) {config : Config}
    (hc : config.commented = true) {top : String} (hr : Reads t (comment access i config) (.ok top)) :
    ∃ line line' : String, top = "# Generated by: " ++ line ++ "\n\n" ∧
      Reads t' (comment access i config) (.ok ("# Generated by: " ++ line' ++ "\n\n")) ∧
      line'.length < line.length := by
  unfold comment at hr ⊢
  rw [if_pos hc] at hr ⊢
  obtain ⟨line, hline, hr⟩ := hr.of_bind (.bind (words_lasts (fun _ => rfl) i) fun _ _ => .pure _)
  obtain ⟨ws, hws, hline⟩ := hline.of_bind (words_lasts (fun _ => rfl) i)
  cases hr
  cases hline
  obtain ⟨ws', hws', hlt⟩ := words_new hdir hnul hw hnew hi hws
  exact ⟨_, _, rfl, .bind (.bind hws' (.pure t' _)) (.pure t' _), hlt⟩

end Comment

section Body

variable {c : Compilation} {handle : ClassHandle}

theorem compileAlone_ok (name : Value) (node : Node) :
    compileAlone name (.ok node) = match compileModel (.named name) node {} with
      | .ok model workspace => ⟨.ok model, workspace⟩
      | .error failure workspace => ⟨.error failure, workspace⟩ := rfl

theorem held_of_compileDocument {name document : Value}
    (h : (compileDocument name document).model = .ok handle) :
    Held (compileDocument name document).workspace .null (.object handle) := by
  unfold compileDocument at h ⊢
  cases hn : (Schema.readDocument document).map fun node => (node.tagFrom 0).1 with
  | error e =>
    rw [hn] at h
    cases h
  | ok node =>
    have hkeeps := compileModel_keeps (.named name) rfl node (closed_empty fun _ => .int 0)
    unfold Keeps Work.Ends at hkeeps
    rw [hn, compileAlone_ok] at h
    rw [compileAlone_ok]
    cases hrun : compileModel (.named name) node {} with
    | ok c w =>
      rw [hrun] at h hkeeps
      cases h
      exact hkeeps.2.2
    | error e w =>
      rw [hrun] at h
      cases h

theorem mem_intercalate {separator : String} {texts : List String} {text : String} (h : text ∈ texts)
    {c : Char} (hc : c ∈ text.toList) : c ∈ (separator.intercalate texts).toList := by
  induction texts with
  | nil => cases h
  | cons first rest ih =>
    cases rest with
    | nil =>
      rw [List.mem_singleton.mp h] at hc
      simpa using hc
    | cons next rest =>
      rw [String.intercalate_cons_cons, String.toList_append, String.toList_append]
      rcases List.mem_cons.mp h with rfl | h
      · exact List.mem_append_left _ (List.mem_append_left _ hc)
      · exact List.mem_append_right _ (ih h)

theorem brace_of_render {m : Sdl.ModelDeclaration} {text : String} (h : m.render = .ok text) :
    '\x7d' ∈ text.toList := by
  obtain ⟨description, -, h⟩ := Outcome.bind_eq_ok_iff.mp h
  obtain ⟨fields, -, h⟩ := Outcome.bind_eq_ok_iff.mp h
  cases h
  simp

theorem brace_of_renderRegistry {w : Workspace} (hheld : Held w .null (.object handle)) {text : String}
    (h : Sdl.renderRegistry w .null .null = .ok text) : '\x7d' ∈ text.toList := by
  obtain ⟨entry, hentry, htype⟩ := hheld
  have hclass : handle ∈ Sdl.classesOf ((w.registries .null).types.map (·.toOutput)) :=
    List.mem_filterMap.mpr ⟨.object handle,
      List.mem_map.mpr ⟨entry.type, List.mem_map_of_mem hentry, by rw [htype]; rfl⟩, rfl⟩
  obtain ⟨enums, -, h⟩ := Outcome.bind_eq_ok_iff.mp h
  obtain ⟨models, hmodels, h⟩ := Outcome.bind_eq_ok_iff.mp h
  cases h
  obtain ⟨model, hmodel, hrender⟩ := Outcome.mapM_mem hmodels (List.mem_map_of_mem hclass)
  rw [String.toList_append]
  exact List.mem_append_right _ (mem_intercalate hmodel (brace_of_render hrender))

theorem endLine_append (top : String) {rest : String} {c : Char} (hc : c ∈ rest.toList) (hne : c ≠ '\n') :
    Text.endLine (top ++ rest) = top ++ Text.endLine rest := by
  have hkept : ¬ (rest.toList.reverse.dropWhile (· == '\n')).isEmpty = true := by
    rw [List.isEmpty_iff, List.dropWhile_eq_nil_iff]
    intro hall
    exact hne (by simpa using hall c (List.mem_reverse.mpr hc))
  unfold Text.endLine
  rw [String.toList_append, List.reverse_append, List.dropWhile_append, if_neg hkept,
    List.reverse_append, List.reverse_reverse, List.append_assoc, String.ofList_append, String.ofList_toList]

end Body

section Runs

variable {t t₁ : FileTree} {args : List String} {a : Arguments} {p : Production} {o : Outcome}
  {path output : String}

/-- The arguments have an output path, which leads neither to the document nor to the configuration. -/
structure Apart (directory : List String) (a : Arguments) (path output : String) : Prop where
  positionals : a.positionals = [path, output]
  from_path : Path.absolute directory output ≠ Path.absolute directory path
  from_config : ∀ c, a.value? .config = some c → Path.absolute directory output ≠ Path.absolute directory c

theorem Produces.again (hdir : t.Proper) (h : Produces t a p) (hapart : Apart t.workingDirectory a path output)
    {text : String} (hw : t.write (Path.absolute t.workingDirectory output) text = .ok t₁) {top : String}
    (hc : Reads t₁ (CommandLine.comment access p.invocation p.config) (.ok top)) :
    Produces t₁ a { p with comment := top } := by
  obtain ⟨hplace, rfl, -⟩ := write_absolute hdir hw
  have hwithin : Within t (t.put (Path.absoluteParts t.workingDirectory output) (.file text)) :=
    ⟨rfl, fun hs => stat_put_of_ok hplace hs text⟩
  have hkeeps (source : String)
      (hne : Path.absolute t.workingDirectory output ≠ Path.absolute t.workingDirectory source) :
      KeepsText t (t.put (Path.absoluteParts t.workingDirectory output) (.file text))
        (Path.absolute t.workingDirectory source) := by
    intro s hs
    exact read_put_of_ok hdir hplace (fun heq => hne (by rw [Path.absolute, ← heq, Path.absolute])) hs text
  have hi := h.invokes hapart.positionals
  refine ⟨h.no_help, (ofArguments_lasts hwithin a).reads h.invocation, ?_, h.compiled, hc, h.body⟩
  refine (load_lasts ?_ ?_).reads h.loaded
  · intro source hsource
    obtain ⟨c, hc, rfl⟩ := hi.config_eq source hsource
    exact hkeeps c (hapart.from_config c hc)
  · rw [hi.path_eq]
    exact hkeeps path hapart.from_path

theorem finish_again (hdir : t.Proper) {text : String}
    (hw : t.write (Path.absolute t.workingDirectory output) text = .ok t₁)
    (hout : p.invocation.output = some (Path.absolute t.workingDirectory output)) :
    p.finish t₁ =
      ({ errors := p.log }, t.put (Path.absoluteParts t.workingDirectory output) (.file p.text)) := by
  unfold Production.finish
  rw [hout]
  dsimp only
  rw [write_again hdir hw]

theorem Produces.again_of_file (hdir : t.Proper) (h : Produces t a p)
    (hapart : Apart t.workingDirectory a path output)
    {text : String} (hw : t.write (Path.absolute t.workingDirectory output) text = .ok t₁)
    (hfile : t.stat (Path.absolute t.workingDirectory output) = .ok .file) : Produces t₁ a p := by
  obtain ⟨hplace, hput, -⟩ := write_absolute hdir hw
  have hstat (source : String) : t₁.stat source = t.stat source := by
    cases hl : t.locate (Path.absolute t.workingDirectory output) with
    | error fault =>
      rw [stat, hl] at hfile
      cases hfile
    | ok r =>
      obtain ⟨q, e⟩ := r
      obtain ⟨rfl, hat⟩ := locate_absolute hdir hl
      rw [stat, hl] at hfile
      cases e with
      | file old =>
        rw [hput]
        exact stat_put_of_file hplace.not_root hat text source
      | directory => cases hfile
  exact h.again hdir hapart hw ((comment_lasts hstat _ _).reads h.comment)

theorem Produces.unique {q : Production} (h : Produces t a p) (k : Produces t a q) : p = q := by
  obtain ⟨i, config, document, top, rest⟩ := p
  obtain ⟨j, config', document', top', rest'⟩ := q
  cases h.invocation.unique k.invocation
  cases h.loaded.unique k.loaded
  cases h.comment.unique k.comment
  cases h.body.symm.trans k.body
  rfl

theorem run_settled (hdir : t.Proper) (ha : Arguments.read args = .ok a)
    (hw : t.write (Path.absolute t.workingDirectory output) p.text = .ok t₁)
    (hout : p.invocation.output = some (Path.absolute t.workingDirectory output))
    (h : Produces t₁ a p) : (run access args).run t₁ = ({ errors := p.log }, t₁) := by
  rw [run_of_produces ha h, finish_again hdir hw hout, ← (write_absolute hdir hw).2.1]

theorem text_commented (h : Produces t a p) (hc : p.config.commented = true) :
    p.text = p.comment ++ Text.endLine p.body := by
  obtain ⟨handle, hmodel⟩ := h.compiled
  have hbody := h.body
  unfold Config.commented at hc
  have hjson : ¬ p.config.outputFormat.asksFor .json = true := by
    intro hjson
    simp [hjson] at hc
  unfold CommandLine.body at hbody
  rw [if_neg hjson] at hbody
  have hbrace := brace_of_renderRegistry (held_of_compileDocument hmodel) hbody
  exact endLine_append _ hbrace (by decide)

theorem run_again_new (hdir : t.Proper) (ha : Arguments.read args = .ok a)
    (hapart : Apart t.workingDirectory a path output) (h : Produces t a p)
    (hw : t.write (Path.absolute t.workingDirectory output) p.text = .ok t₁)
    (hnew : ∀ kind, t.stat (Path.absolute t.workingDirectory output) ≠ .ok kind)
    (hc : p.config.commented = true) :
    ∃ t₂, (run access args).run t₁ = ({ errors := p.log }, t₂) ∧
      (run access args).run t₂ = ({ errors := p.log }, t₂) ∧
      ∃ line shorter rest : String, shorter.length < line.length ∧
        t₁.read (Path.absolute t.workingDirectory output) =
          .ok ("# Generated by: " ++ line ++ "\n\n" ++ rest) ∧
        t₂.read (Path.absolute t.workingDirectory output) =
          .ok ("# Generated by: " ++ shorter ++ "\n\n" ++ rest) := by
  have hi := h.invokes hapart.positionals
  obtain ⟨line, shorter, htop, hagain, hlt⟩ :=
    comment_new hdir hi.output_no_nul hw hnew hi.output_eq hc h.comment
  have hsecond := h.again hdir hapart hw hagain
  have htext := text_commented h hc
  have htext' := text_commented hsecond hc
  rw [htop] at htext
  generalize hq : { p with comment := "# Generated by: " ++ shorter ++ "\n\n" } = q at hsecond htext'
  have hout : q.invocation.output = some (Path.absolute t.workingDirectory output) := by
    rw [← hq]
    exact hi.output_eq
  have hlog : q.log = p.log := by
    rw [← hq]
    rfl
  have hread := read_written hdir hw
  have hrun := run_of_produces ha hsecond
  rw [finish_again hdir hw hout, hlog] at hrun
  have hw' := write_again hdir hw q.text
  have hfile : t₁.stat (Path.absolute t.workingDirectory output) = .ok .file := by
    rw [stat, (write_absolute hdir hw).2.2]
    rfl
  obtain ⟨-, rfl, -⟩ := write_absolute hdir hw
  have hdir' := hdir.put (Path.absoluteParts t.workingDirectory output) (.file p.text)
  have hthird := hsecond.again_of_file hdir' hapart hw' hfile
  have hrun' := run_settled hdir' ha hw' hout hthird
  rw [hlog] at hrun'
  refine ⟨_, hrun, hrun', line, shorter, Text.endLine p.body, hlt, ?_, ?_⟩
  · rw [hread, htext]
  · exact (read_written hdir' hw').trans (congrArg Except.ok (by rw [htext', ← hq]))

/-- The second run ends as the first did, and the third one changes nothing more. The output stays as it
is unless it opens with a comment and was not there before the first run; then the comment is shorter,
and the rest of the output stays. -/
theorem run_again (hdir : t.Proper) (ha : Arguments.read args = .ok a)
    (hapart : Apart t.workingDirectory a path output) (hrun : (run access args).run t = (o, t₁))
    (hexit : o.exitCode = 0) :
    ∃ t₂, (run access args).run t₁ = (o, t₂) ∧ (run access args).run t₂ = (o, t₂) ∧
      (t₂ = t₁ ↔
        (Comments t args → t.stat (Path.absolute t.workingDirectory output) = .ok .file)) ∧
      (t₂ ≠ t₁ → ∃ line shorter rest : String, shorter.length < line.length ∧
        t₁.read (Path.absolute t.workingDirectory output) =
          .ok ("# Generated by: " ++ line ++ "\n\n" ++ rest) ∧
        t₂.read (Path.absolute t.workingDirectory output) =
          .ok ("# Generated by: " ++ shorter ++ "\n\n" ++ rest)) := by
  have hcomments {p : Production} (hp : Produces t a p) : Comments t args ↔ p.config.commented = true := by
    constructor
    · rintro ⟨a', q, ha', hq, hc⟩
      cases ha.symm.trans ha'
      rwa [hp.unique hq]
    · exact fun hc => ⟨a, p, ha, hp, hc⟩
  rcases produces_or_unchanged t ha with ⟨p, hp⟩ | ⟨o', ho, hfails⟩
  · rw [run_of_produces ha hp] at hrun
    have hout := (hp.invokes hapart.positionals).output_eq
    obtain ⟨s, hw, hfinish⟩ := finish_written hout (by rw [hrun]; exact hexit)
    rw [hfinish] at hrun
    obtain ⟨rfl, rfl⟩ := Prod.mk.inj hrun
    by_cases hfile : t.stat (Path.absolute t.workingDirectory output) = .ok .file
    · have hsame := run_settled hdir ha hw hout (hp.again_of_file hdir hapart hw hfile)
      exact ⟨s, hsame, hsame, ⟨fun _ _ => hfile, fun _ => rfl⟩, fun hne => absurd rfl hne⟩
    by_cases hc : p.config.commented = true
    · have hnew (kind : EntryKind) : t.stat (Path.absolute t.workingDirectory output) ≠ .ok kind :=
        fun hs => hfile (by rw [hs, kind_of_write hw hs])
      obtain ⟨t₂, hsecond, hthird, line, shorter, rest, hlt, hread, hread'⟩ :=
        run_again_new hdir ha hapart hp hw hnew hc
      have hne : t₂ ≠ s := by
        rintro rfl
        rw [hread] at hread'
        have hlength := congrArg String.length (Except.ok.inj hread')
        simp only [String.length_append] at hlength
        omega
      refine ⟨t₂, hsecond, hthird, ⟨fun heq => absurd heq hne, fun hthere => ?_⟩,
        fun _ => ⟨line, shorter, rest, hlt, hread, hread'⟩⟩
      exact absurd (hthere ((hcomments hp).mpr hc)) hfile
    · have hplain (i : Invocation) := comment_uncommented (Bool.not_eq_true _ ▸ hc) access i
      have htop : p.comment = "" := by
        have hcomment := hp.comment
        rw [hplain] at hcomment
        exact Except.ok.inj (hcomment.unique (.pure t ""))
      have hagain : Reads s (comment access p.invocation p.config) (.ok p.comment) := by
        rw [hplain, htop]
        exact .pure s ""
      have hsame := run_settled hdir ha hw hout (hp.again hdir hapart hw hagain)
      exact ⟨s, hsame, hsame, ⟨fun _ hcommented => absurd ((hcomments hp).mp hcommented) hc, fun _ => rfl⟩,
        fun hne => absurd rfl hne⟩
  · rw [ho] at hrun
    obtain ⟨rfl, rfl⟩ := Prod.mk.inj hrun
    refine ⟨t, ho, ho, ⟨?_, fun _ => rfl⟩, fun hne => absurd rfl hne⟩
    rintro - ⟨a', q, ha', hq, -⟩
    cases ha.symm.trans ha'
    exact absurd hexit (hfails hq.no_help)

end Runs

def soleSchema : FileTree where
  workingDirectory := ["work"]
  entries := [(["work"], .directory), (["work", "s.json"],
    .file "\x7b\"description\": \"W: a\", \"properties\": \x7b\x7d\x7d")]

theorem run_again_sole : ∃ o t₁ t₂,
    (run access ["s.json", "out.graphql"]).run soleSchema = (o, t₁) ∧
      (run access ["s.json", "out.graphql"]).run t₁ = (o, t₂) ∧
      (run access ["s.json", "out.graphql"]).run t₂ = (o, t₂) := by
  have hdir : soleSchema.Proper := by decide
  have hexit : ((run access ["s.json", "out.graphql"]).run soleSchema).1.exitCode = 0 := by
    decide +kernel
  have hapart : Apart ["work"] ⟨[], ["s.json", "out.graphql"]⟩ "s.json" "out.graphql" :=
    ⟨rfl, by decide, nofun⟩
  obtain ⟨t₂, hsecond, hthird, -⟩ := run_again hdir (by decide) hapart
    (Prod.eta ((run access ["s.json", "out.graphql"]).run soleSchema)).symm hexit
  exact ⟨_, _, t₂, rfl, hsecond, hthird⟩

theorem soleSchema_rewritten :
    let first := (run access ["s.json", "out.graphql"]).run soleSchema
    let second := (run access ["s.json", "out.graphql"]).run first.2
    first.2.at? ["work", "out.graphql"] = some (.file
        "# Generated by: schema_to_model s.json /work/out.graphql\n\n\"\"\"a\"\"\"\ntype W \x7b\n\x7d\n") ∧
      second.2.at? ["work", "out.graphql"] = some (.file
        "# Generated by: schema_to_model s.json out.graphql\n\n\"\"\"a\"\"\"\ntype W \x7b\n\x7d\n") := by
  constructor <;> decide +kernel

end SchemaCompiler.CommandLine
