import DynLisp.Console.Command
import DynLisp.Proofs.Evaluation.Composition
import DynLisp.Proofs.Evaluation.Soundness
import DynLisp.Proofs.Reader.Faults

/-!
# What stops the console

A fault of the program is reported, and the interactive loop goes on with the next line.  A failure
of the host stops it.  From a sound session only one such failure can come from a text, an integer
that is too long to be read: reading has no other (`failure_of_read`), evaluation has none at all,
and every value can be shown.  So the loop answers every line exactly if it meets no such integer.
A script may moreover be no text at all.
-/

namespace DynLisp

/-! ## Values can be shown -/

namespace Datum

variable {literal : Bool}

theorem exists_writeAll {items : List Datum} (h : ∀ d ∈ items, ∃ text, d.write literal = .ok text) :
    ∃ text, writeAll literal items = .ok text := by
  induction items with
  | nil => exact ⟨"", rfl⟩
  | cons d items ih =>
    obtain ⟨⟨text, ht⟩, hitems⟩ := List.forall_mem_cons.mp h
    obtain ⟨more, hm⟩ := ih hitems
    rw [writeAll, ht, hm]
    exact ⟨_, rfl⟩

theorem exists_writeEntries {entries : List (String × Datum)}
    (h : ∀ e ∈ entries, ∃ text, e.2.write literal = .ok text) :
    ∃ text, writeEntries literal entries = .ok text := by
  induction entries with
  | nil => exact ⟨"", rfl⟩
  | cons e entries ih =>
    obtain ⟨⟨text, ht⟩, hentries⟩ := List.forall_mem_cons.mp h
    obtain ⟨more, hm⟩ := ih hentries
    rw [writeEntries, ht, hm]
    exact ⟨_, rfl⟩

theorem IsValue.exists_write {v : Datum} (h : v.IsValue) : ∃ text, v.write literal = .ok text := by
  induction h with
  | str | int | real | bool | nil | fn | native => exact ⟨_, rfl⟩
  | list _ ih =>
    obtain ⟨text, ht⟩ := exists_writeAll ih
    rw [write, ht]
    exact ⟨_, rfl⟩
  | @map entries _ ih =>
    cases entries with
    | nil => exact ⟨_, rfl⟩
    | cons e entries =>
      obtain ⟨text, ht⟩ := exists_writeEntries ih
      rw [write, ht]
      · exact ⟨_, rfl⟩
      · nofun

theorem IsValue.functionsOfForms {v : Datum} (h : v.IsValue) : v.FunctionsOfForms := by
  intro place params body hr
  generalize hf : Datum.fn place params body = f at hr
  induction hr with
  | refl d =>
    subst hf
    cases h with
    | fn hbody => exact hbody
  | list hd _ ih =>
    cases h with
    | list hitems => exact ih (hitems _ hd) hf
  | map hb _ ih =>
    cases h with
    | map hentries => exact ih (hentries _ hb) hf

end Datum

theorem Repl.results_of_isValue {values : List Datum} (h : ∀ v ∈ values, v.IsValue) (index : Nat) :
    (results index values).2 = none := by
  induction values generalizing index with
  | nil => rfl
  | cons v values ih =>
    obtain ⟨hv, hvalues⟩ := List.forall_mem_cons.mp h
    obtain ⟨text, ht⟩ := hv.exists_write
    rw [results, Datum.source, ht]
    exact ih hvalues (index + 1)

/-! ## Sound sessions -/

/-- Everything that is bound is a value, and the host's procedures return sound things and raise
only what can be put into words. -/
structure Session.Sound (s : Session) : Prop where
  env : s.world.env.Sound
  hosted : ∀ p ∈ s.hosted, HostProcedure.Safe p

theorem evalForms_eq_rounds (natives : Natives) (forms : List Datum) (w : World) :
    evalForms natives forms w =
      Eval.each (Eval.fresh (reportedRounds natives w.env.room)) forms w :=
  (Eval.alike_each (Eval.alike_fresh (alike_reportedRounds natives w.env.room w.sight))
    forms w rfl).eq

theorem evalForms_sound {hosted : List HostProcedure} (hh : ∀ p ∈ hosted, HostProcedure.Safe p)
    {forms : List Datum} (hf : ∀ d ∈ forms, d.IsForm) {w : World} (hw : w.env.Sound) :
    match evalForms (Session.nativesOf hosted) forms w with
    | .ok values u => (∀ v ∈ values, v.IsValue) ∧ u.env.Sound
    | .error f u => (f.kind.isProgram = true ∧ f.isSpoken = true) ∧ u.env.Sound := by
  have steps := steps_rounds (f := .noRoom) (Coupling.sound hh) ⟨rfl, rfl⟩ False.elim
    (.inl (rfl : w.env.room = w.env.room))
  have h := Eval.couples_each steps.fresh forms hf w w ⟨rfl, hw⟩
  rw [evalForms_eq_rounds]
  change Coupling.Outcome _ _ _
    (Eval.each (Eval.fresh (reportedRounds (Session.nativesOf hosted) _)) forms w)
    (Eval.each (Eval.fresh (reportedRounds (Session.nativesOf hosted) _)) forms w) at h
  generalize Eval.each (Eval.fresh (reportedRounds (Session.nativesOf hosted) _)) forms w = r at h
  cases r with
  | ok values u =>
    cases h with
    | value hv hu => exact ⟨hv, hu.2⟩
  | error f u =>
    cases h with
    | fault hf hu => exact ⟨hf, hu.2⟩
    | ahead hK => exact hK.elim

/-- The action has come to an integer that is too long to be read. -/
def Session.Outcome.Unreadable {α : Type} (o : Session.Outcome α) : Prop :=
  ∃ n, o.result = .error (.unreadableInteger n)

/-- What comes of a text: values, a fault of the program, or an integer that is too long. -/
inductive Session.Ends (text : String) : Except Fault (List Datum) → Prop where
  | values {values : List Datum} (h : ∀ v ∈ values, v.IsValue) : Ends text (.ok values)
  | fault {f : Fault} (h : f.kind.isProgram = true) (hs : f.isSpoken = true) : Ends text (.error f)
  | unreadable {n : Nat} (h : HasLongInteger text.toList) :
      Ends text (.error (.unreadableInteger n))

namespace Session.Sound

variable {s : Session}

theorem evalSource (hs : s.Sound) (text : String) :
    (s.evalSource text).session.Sound ∧ Ends text (s.evalSource text).result := by
  have h :=
    evalForms_sound hs.hosted (isForm_of_read text) (w := { s.world with written := "" }) hs.env
  rw [Session.evalSource, run_eq_ended, evalSource_eq_thenMeet]
  rw [← Session.natives] at h
  cases hforms : evalForms s.natives (read text).forms { s.world with written := "" } with
  | error f u =>
    rw [hforms] at h
    exact ⟨⟨h.2, hs.hosted⟩, .fault h.1.1 h.1.2⟩
  | ok values u =>
    rw [hforms] at h
    cases hread : (read text).failure with
    | none => exact ⟨⟨h.2, hs.hosted⟩, .values h.1⟩
    | some f =>
      refine ⟨⟨h.2, hs.hosted⟩, ?_⟩
      obtain hf | ⟨hlong, n, rfl⟩ := failure_of_read hread
      · exact .fault hf.1 hf.2
      · exact .unreadable hlong

end Session.Sound

theorem Session.sound_start (limit : Int) : (start limit).Sound where
  env := by
    refine ⟨nofun, Assoc.forall_mem_ofList fun e he => ?_⟩
    obtain ⟨b, -, rfl⟩ := List.mem_map.mp he
    exact .native b.name (.builtin b)
  hosted := by
    have count : HostProcedure.Safe Stock.count :=
      ⟨fun _ _ _ => Datum.functionsOfForms_of_isLiteral rfl, fun _ _ => trivial⟩
    have list : HostProcedure.Safe Stock.list :=
      ⟨fun _ _ hargs => (Datum.IsValue.list hargs).functionsOfForms, fun _ _ => trivial⟩
    exact List.forall_mem_cons.mpr ⟨count, List.forall_mem_singleton.mpr list⟩

theorem Session.evalSource_of_isLong (s : Session) {cs : List Char} (h : Number.IsLong cs) :
    (s.evalSource (String.ofList cs)).result = .error (.unreadableInteger cs.length) := by
  have hread : read (String.ofList cs) = ⟨[], some (.unreadableInteger cs.length)⟩ := by
    rw [read, lex_of_isLong h]
    rfl
  rw [Session.evalSource, run_eq_ended, evalSource_eq_thenMeet, hread]
  rfl

/-! ## The interactive loop -/

/-- Without a newline there is but one line. -/
theorem Input.linesOf_of_not_mem {cs : List Char} (hne : cs ≠ []) (h : '\n' ∉ cs) :
    linesOf cs = [cs] := by
  induction cs with
  | nil => contradiction
  | cons c rest ih =>
    obtain ⟨hc, hrest⟩ := not_or.mp (mt List.mem_cons.mpr h)
    rw [linesOf]
    cases rest with
    | nil => rfl
    | cons d rest => rw [ih (List.cons_ne_nil d rest) hrest]; exact if_neg (Ne.symm hc)

theorem Fault.report_of_isSpoken {f : Fault} (h : f.isSpoken = true) :
    f.report = .ok ("Error: " ++ f.message ++ "\n") := by
  rw [report, wording_of_isSpoken h]
  rfl

namespace Repl

/-- What comes of the lines, one after the other. -/
def outcomes (s : Session) : List String → List (Session.Outcome (List Datum))
  | [] => []
  | line :: rest => s.evalSource line :: outcomes (s.evalSource line).session rest

/-- What an outcome adds to the first channel: what was written, then the values. -/
def shown (o : Session.Outcome (List Datum)) : String :=
  match o.result with
  | .ok values => o.written ++ (results 0 values).1
  | .error _ => o.written

/-- What an outcome adds to the second channel: a report if there is a fault. -/
def reported (o : Session.Outcome (List Datum)) : String :=
  match o.result with
  | .ok _ => ""
  | .error f => "Error: " ++ f.message ++ "\n"

/-- Every line has been answered: its values are shown or its fault is reported, and the loop takes
its leave. -/
structure AnswersAll (vars : Settings.Variables) (s : Session) (input : Input) : Prop where
  exit : (run vars s input).exit = .ok 0
  out : (run vars s input).screen.out =
    banner ++ String.join ((outcomes s input.lines).map fun o => Settings.prompt vars ++ shown o) ++
      (Settings.prompt vars ++ "\nBye!\n")
  err : (run vars s input).screen.err = String.join ((outcomes s input.lines).map reported)

variable {s : Session} {line : String} {lines : List String}

theorem respond_of_unreadable {n : Nat}
    (h : (s.evalSource line).result = .error (.unreadableInteger n)) :
    (respond s line).success = .error (.unreadableInteger n) := by
  rw [respond, h]
  rfl

/-- Any other line is answered. -/
theorem respond_of_readable (hs : s.Sound) (h : ¬ (s.evalSource line).Unreadable) :
    ∃ b, respond s line =
      ⟨.ok b, ⟨shown (s.evalSource line), reported (s.evalSource line)⟩,
        (s.evalSource line).session⟩ := by
  have hend := (hs.evalSource line).2
  unfold respond shown reported
  unfold Session.Outcome.Unreadable at h
  cases hr : (s.evalSource line).result with
  | ok values =>
    rw [hr] at hend
    cases hend with
    | values hv =>
      refine ⟨true, ?_⟩
      simp only [hr, results_of_isValue hv 0, Screen.ofOut]
  | error f =>
    rw [hr] at hend h
    cases hend with
    | fault hf hspoken =>
      refine ⟨false, ?_⟩
      simp only [hr, if_pos hf, Fault.report_of_isSpoken hspoken]
    | unreadable => exact absurd ⟨_, rfl⟩ h

theorem loop_of_readable (prompt : String) (hs : s.Sound)
    (h : ∀ o ∈ outcomes s lines, ¬ o.Unreadable) :
    loop prompt s lines =
      ⟨.ok 0, ⟨String.join ((outcomes s lines).map fun o => prompt ++ shown o) ++
      (prompt ++ "\nBye!\n"), String.join ((outcomes s lines).map reported)⟩⟩ := by
  induction lines generalizing s with
  | nil => simp [loop, outcomes, Screen.ofOut]
  | cons line rest ih =>
    obtain ⟨hline, hrest⟩ := List.forall_mem_cons.mp h
    obtain ⟨b, hb⟩ := respond_of_readable hs hline
    rw [loop, hb]
    dsimp only
    rw [ih (hs.evalSource line).1 hrest]
    simp [outcomes, Screen.append, Screen.ofOut, String.append_assoc]

/-- The first integer that is too long stops the loop. -/
theorem loop_of_unreadable (prompt : String) (hs : s.Sound) {o : Session.Outcome (List Datum)}
    (ho : o ∈ outcomes s lines) (h : o.Unreadable) :
    (∃ n, (loop prompt s lines).exit = .error (.unreadableInteger n)) ∧
      ∃ line ∈ lines, HasLongInteger line.toList := by
  induction lines generalizing s with
  | nil => cases ho
  | cons line rest ih =>
    -- the loop stops at this line, or it answers it and stops later
    by_cases hline : (s.evalSource line).Unreadable
    · obtain ⟨n, hn⟩ := hline
      refine ⟨⟨n, by rw [loop, respond_of_unreadable hn]⟩, line, List.mem_cons_self, ?_⟩
      have hend := (hs.evalSource line).2
      rw [hn] at hend
      cases hend with
      | fault hf => cases hf
      | unreadable hlong => exact hlong
    · obtain rfl | ho := List.mem_cons.mp ho
      · exact absurd h hline
      · obtain ⟨⟨n, hn⟩, other, hmem, hlong⟩ := ih (hs.evalSource line).1 ho
        obtain ⟨b, hb⟩ := respond_of_readable hs hline
        refine ⟨⟨n, ?_⟩, other, List.mem_cons_of_mem _ hmem, hlong⟩
        rw [loop, hb]
        exact hn

theorem answersAll_iff (vars : Settings.Variables) (hs : s.Sound) (input : Input) :
    AnswersAll vars s input ↔ ∀ o ∈ outcomes s input.lines, ¬ o.Unreadable := by
  constructor
  · intro h o ho hu
    obtain ⟨⟨n, hn⟩, -⟩ := loop_of_unreadable (Settings.prompt vars) hs ho hu
    have hexit : (loop (Settings.prompt vars) s input.lines).exit = .ok 0 := h.exit
    rw [hn] at hexit
    cases hexit
  · intro h
    have hloop := loop_of_readable (Settings.prompt vars) hs h
    refine ⟨?_, ?_, ?_⟩ <;> simp [run, hloop, Screen.append, Screen.ofOut, String.append_assoc]

/-- A long integer as the only input stops the loop, whatever the session. -/
theorem run_of_isLong (vars : Settings.Variables) (s : Session) {cs : List Char}
    (h : Number.IsLong cs) :
    (run vars s ⟨String.ofList cs, false⟩).exit = .error (.unreadableInteger cs.length) := by
  have single : Input.linesOf cs = [cs] := by
    refine Input.linesOf_of_not_mem ?_ fun hmem => absurd (h.2 _ hmem) (by decide)
    rintro rfl
    exact absurd h.1 (by decide)
  have lines : Input.lines ⟨String.ofList cs, false⟩ = [String.ofList cs] := by
    simp [Input.lines, single]
  rw [run, lines]
  dsimp only
  rw [loop, respond_of_unreadable (s.evalSource_of_isLong h)]

end Repl

/-! ## Scripts -/

namespace Command

/-- A script has been run to its end or to a fault of the program, which is reported. -/
structure Concludes (s : Session) (text : String) (c : Completion) : Prop where
  exit : c.exit = .ok (if (s.evalSource text).result.isOk then 0 else 1)
  err : c.screen.err = Repl.reported (s.evalSource text)

theorem concludes_or_unreadable {s : Session} (hs : s.Sound) (text : String) :
    Concludes s text (runText s text) ∧ ¬ (s.evalSource text).Unreadable ∨
    (s.evalSource text).Unreadable ∧ HasLongInteger text.toList ∧
      ∃ n, (runText s text).exit = .error (.unreadableInteger n) := by
  have hend := (hs.evalSource text).2
  unfold Session.Outcome.Unreadable
  cases hr : (s.evalSource text).result with
  | ok values =>
    refine .inl ⟨⟨?_, ?_⟩, nofun⟩
    · simp [runText, hr, Except.isOk, Except.toBool]
    · simp [runText, Repl.reported, hr, Screen.ofOut]
  | error f =>
    rw [hr] at hend
    cases hend with
    | fault hf hspoken =>
      have hreport := Fault.report_of_isSpoken hspoken
      refine .inl ⟨⟨?_, ?_⟩, ?_⟩
      · simp [runText, Completion.reporting, hreport, hr, hf, Except.isOk, Except.toBool]
      · simp [runText, Completion.reporting, hreport, Repl.reported, hr, hf]
      · rintro ⟨n, hn⟩
        cases hn
        cases hf
    | @unreadable n hlong =>
      refine .inr ⟨⟨n, rfl⟩, hlong, n, ?_⟩
      rw [runText, hr]
      rfl

end Command

/-! ## The console -/

/-- From a sound session, the interactive loop answers every line exactly if it comes to no integer
that is too long; such an integer stops it, and some line has it.  A script that is a text and comes
to no such integer is run to its end or to one fault that is reported; otherwise it stops with the
host's failure. -/
theorem console_survives {s : Session} (hs : s.Sound) :
    (∀ vars input,
      (Repl.AnswersAll vars s input ↔ ∀ o ∈ Repl.outcomes s input.lines, ¬ o.Unreadable) ∧
      ∀ o ∈ Repl.outcomes s input.lines, o.Unreadable →
        (∃ n, (Repl.run vars s input).exit = .error (.unreadableInteger n)) ∧
          ∃ line ∈ input.lines, HasLongInteger line.toList) ∧
    ∀ name bytes,
      (∀ m, Utf8.decode bytes = .error m →
        (Command.runBytes s name (.ok bytes)).exit = .error (.undecodable m)) ∧
      ∀ cs text, Utf8.decode bytes = .ok cs → text = String.ofList (Text.unifyNewlines cs) →
        Command.Concludes s text (Command.runBytes s name (.ok bytes)) ∧
        ¬ (s.evalSource text).Unreadable ∨
        (s.evalSource text).Unreadable ∧ HasLongInteger text.toList ∧
          ∃ n, (Command.runBytes s name (.ok bytes)).exit = .error (.unreadableInteger n) := by
  refine ⟨fun vars input => ⟨Repl.answersAll_iff vars hs input, fun o ho hu => ?_⟩,
    fun name bytes => ⟨?_, ?_⟩⟩
  · exact Repl.loop_of_unreadable (Settings.prompt vars) hs ho hu
  · intro m hm
    rw [Command.runBytes, hm]
  · rintro cs text hcs rfl
    rw [Command.runBytes, hcs]
    exact Command.concludes_or_unreadable hs _

/-- A bracket that closes nothing and a text without an end are reported, each on its own line. -/
theorem console_survives_start :
    (Session.start 1000).Sound ∧ Repl.AnswersAll [] (Session.start 1000) ⟨")\n\"", false⟩ := by
  have sound := Session.sound_start 1000
  refine ⟨sound, ((console_survives sound).1 [] ⟨")\n\"", false⟩).1.mpr fun o ho hu => ?_⟩
  obtain ⟨-, line, hline, run, hrun, hlong⟩ :=
    ((console_survives sound).1 [] ⟨")\n\"", false⟩).2 o ho hu
  have short : ∀ line ∈ Input.lines ⟨")\n\"", false⟩, line.toList.length ≤ maxDigits := by decide
  exact absurd (hlong.1.trans_le hrun.length_le) (Nat.not_lt.mpr (short line hline))

/-- One nine more than can be converted stops the loop. -/
theorem console_stopped_by_nines :
    (Repl.run [] (Session.start 1000)
      ⟨String.ofList (List.replicate (maxDigits + 1) '9'), false⟩).exit =
      .error (.unreadableInteger (maxDigits + 1)) := by
  have long : Number.IsLong (List.replicate (maxDigits + 1) '9') :=
    Number.isLong_replicate (by decide) (Nat.lt_succ_self maxDigits)
  rw [Repl.run_of_isLong [] (Session.start 1000) long, List.length_replicate]

end DynLisp
