import Quaternary.Proofs.Cli.Relisting
import Quaternary.Proofs.Machine.Printing
import Quaternary.Proofs.Program.Idle

/-!
# What a session comes to

A session on a file has one of three ends (`Cli.Ending`): the file is of no use; it holds a program,
and the answer about the program is written; or the program is run, and the run has stopped. The log
has no part in this, as going on is the same run whatever is shown of it
(`Cli.Session.resume_running`), and what is logged does not go to standard output.

A file is of no use if it cannot be read, is not text, or has a line that cannot be read; any other
holds a program (`Cli.Entry.unusable_or_holds`). As the first two ends are known before anything is
executed, a file of no use leaves standard output empty, whatever its other lines print.
-/

namespace Quaternary

/-! ## Files that hold a program -/

theorem Instruction.exists_ofLine?_iff {text : List Char} {number : Nat} :
    (∃ found, ofLine? text number = .ok found) ↔ ∃ line, Line.read text = .ok line := by
  rw [ofLine?, Line.readAt]
  cases Line.read text with
  | error cause =>
    constructor
    · rintro ⟨found, h⟩
      cases h
    · rintro ⟨line, h⟩
      cases h
  | ok line => exact ⟨fun _ => ⟨line, rfl⟩, fun _ => ⟨_, rfl⟩⟩

namespace Program

/-- Lines make a program exactly if each of them can be read. -/
theorem exists_instructionsOf_iff {texts : List (List Char)} {first : Nat} :
    (∃ is, instructionsOf (texts.zipIdx first) = .ok is) ↔
      ∀ text ∈ texts, ∃ line, Line.read text = .ok line := by
  induction texts generalizing first with
  | nil => simp
  | cons text rest ih =>
    rw [List.forall_mem_cons, List.zipIdx_cons, ← Instruction.exists_ofLine?_iff, ← ih]
    constructor
    · rintro ⟨is, h⟩
      obtain ⟨found, others, hfound, hothers, -⟩ := instructionsOf_cons_ok h
      exact ⟨⟨found, hfound⟩, others, hothers⟩
    · rintro ⟨⟨found, hfound⟩, others, hothers⟩
      rw [instructionsOf_cons, hfound, hothers]
      exact ⟨_, rfl⟩

theorem exists_ofSource_iff {source : String} :
    (∃ p, ofSource source = .ok p) ↔
      ∀ text ∈ sourceLines source, ∃ line, Line.read text = .ok line := by
  rw [← exists_instructionsOf_iff, ← numberedLines_eq_zipIdx]
  constructor
  · rintro ⟨p, h⟩
    exact ⟨_, ofSource_eq_ok_iff.mp h⟩
  · rintro ⟨is, h⟩
    exact ⟨⟨is.toArray⟩, ofSource_eq_ok_iff.mpr h⟩

end Program

namespace Cli

namespace Entry

/-- The entry is a file with the text of the program. -/
def Holds (entry : Entry) (p : Program) : Prop :=
  ∃ source : String, entry = .file source.toUTF8 ∧ Program.ofSource source = .ok p

/-- The entry is no file, or its content is no text, or a line of the text cannot be read. -/
def Unusable (entry : Entry) : Prop :=
  (∀ content, entry ≠ .file content) ∨
  (∃ content, entry = .file content ∧ ¬ content.IsValidUTF8) ∨
  ∃ (source : String) (text : List Char) (cause : Numeral.Error),
    entry = .file source.toUTF8 ∧ text ∈ sourceLines source ∧ Line.read text = .error cause

variable {entry : Entry} {p q : Program}

theorem not_holds_of_unusable (h : entry.Unusable) : ¬ entry.Holds p := by
  rintro ⟨source, rfl, hp⟩
  rcases h with hnone | ⟨content, hcontent, hvalid⟩ | ⟨source', text, cause, hfile, hmem, hread⟩
  · exact hnone _ rfl
  · cases hcontent
    exact hvalid source.isValidUTF8
  · obtain rfl : source = source' := String.toByteArray_inj.mp (file.inj hfile)
    obtain ⟨line, hline⟩ := Program.exists_ofSource_iff.mp ⟨p, hp⟩ text hmem
    rw [hread] at hline
    cases hline

theorem unusable_or_holds (entry : Entry) : entry.Unusable ∨ ∃ p, entry.Holds p := by
  by_cases hfile : ∃ content, entry = .file content
  · obtain ⟨content, rfl⟩ := hfile
    by_cases hvalid : content.IsValidUTF8
    · obtain ⟨source, rfl⟩ : ∃ source : String, content = source.toUTF8 :=
        ⟨String.fromUTF8 content hvalid, rfl⟩
      by_cases hbad : ∃ text ∈ sourceLines source, ∃ cause, Line.read text = .error cause
      · obtain ⟨text, hmem, cause, hread⟩ := hbad
        exact Or.inl (Or.inr (Or.inr ⟨source, text, cause, rfl, hmem, hread⟩))
      · right
        have hlines : ∀ text ∈ sourceLines source, ∃ line, Line.read text = .ok line := by
          intro text hmem
          cases hread : Line.read text with
          | ok line => exact ⟨line, rfl⟩
          | error cause => exact absurd ⟨text, hmem, cause, hread⟩ hbad
        obtain ⟨p, hp⟩ := Program.exists_ofSource_iff.mpr hlines
        exact ⟨p, source, rfl, hp⟩
    · exact Or.inl (Or.inr (Or.inl ⟨content, rfl, hvalid⟩))
  · left
    left
    intro content heq
    exact hfile ⟨content, heq⟩

theorem eq_file_of_text {source : String} (h : entry.text = .ok source) :
    entry = .file source.toUTF8 := by
  cases entry with
  | missing | directory | notADirectory | nameTooLong | unreadable cause => cases h
  | file content =>
    by_cases hvalid : content.IsValidUTF8
    · have hdecode : String.fromUTF8? content = some (String.fromUTF8 content hvalid) :=
        dif_pos hvalid
      simp only [text, hdecode] at h
      cases h
      rfl
    · have hdecode : String.fromUTF8? content = none := dif_neg hvalid
      simp only [text, hdecode] at h
      cases h

theorem Holds.unique (hp : entry.Holds p) (hq : entry.Holds q) : p = q := by
  obtain ⟨source, rfl, hp⟩ := hp
  obtain ⟨source', hfile, hq⟩ := hq
  obtain rfl : source = source' := String.toByteArray_inj.mp (file.inj hfile)
  exact Except.ok.inj (hp.symm.trans hq)

end Entry

/-! ## The three ends of a session -/

/-- What is written about a program that is not run. -/
def answerAbout (path : String) (p : Program) : Action → Option String
  | .run => none
  | .check => some (verdict path p)
  | .disassemble => some p.listing

/-- The exit after a run that has stopped. -/
def exitAfter : Status → Exit
  | .failed _ => .fault
  | .running | .halted => .success

/-- The exit that an action on an entry may end with, and what is then on standard output. The log
is not mentioned. -/
inductive Ending (entry : Entry) (stdout : Sink) (action : Action) (path : String) :
    Exit → ByteArray → Prop
  | rejected (h : entry.Unusable) : Ending entry stdout action path .badInput stdout.written
  | answered {p : Program} {text : String} (h : entry.Holds p)
      (htext : answerAbout path p action = some text) :
      Ending entry stdout action path .success (stdout.written ++ text.toUTF8)
  | stopped {p : Program} {budget : Nat} {s : Status} {m : Machine} (h : entry.Holds p)
      (haction : action = .run) (hrun : Machine.run p budget { sink := stdout } = (s, m))
      (hs : s ≠ .running) : Ending entry stdout action path (exitAfter s) m.sink.written

/-- The session is over at some time, with the report. -/
def Concludes (env : Environment) (arguments : List String) (report : Report) : Prop :=
  ∃ budget, (Session.start env arguments).resume env.shows budget = .ended report

namespace Session

variable {env : Environment} {arguments : List String} {action : Action} {path : String}
  {p : Program}

theorem start_of_unusable (hcommand : env.parse arguments = .act action path)
    (h : (env.entryAt path).Unusable) :
    ∃ stderr, start env arguments = .ended ⟨.badInput, env.stdout.written, stderr⟩ := by
  cases htext : (env.entryAt path).text with
  | error cause =>
    simp only [start, hcommand, htext]
    exact ⟨_, rfl⟩
  | ok source =>
    cases hp : Program.ofSource source with
    | error e =>
      simp only [start, hcommand, htext, hp]
      exact ⟨_, rfl⟩
    | ok p => exact absurd ⟨source, Entry.eq_file_of_text htext, hp⟩ (Entry.not_holds_of_unusable h)

theorem start_of_holds (hcommand : env.parse arguments = .act action path)
    (h : (env.entryAt path).Holds p) :
    ∃ log, start env arguments = perform env path p log action := by
  obtain ⟨source, hfile, hp⟩ := h
  have htext : (env.entryAt path).text = .ok source := by
    rw [hfile]
    exact Entry.text_file_toUTF8 source
  exact ⟨_, start_eq_perform hcommand htext hp⟩

theorem perform_of_answerAbout {text : String} (htext : answerAbout path p action = some text)
    (stderr : List Notice) :
    perform env path p stderr action = answer env.stdout text stderr := by
  cases action with
  | run => cases htext
  | check | disassemble =>
    cases htext
    rfl

/-- A session on a file ends at once or with an answer, unless it is to run a program. -/
theorem start_cases (hcommand : env.parse arguments = .act action path) :
    ((env.entryAt path).Unusable ∧
      ∃ stderr, start env arguments = .ended ⟨.badInput, env.stdout.written, stderr⟩) ∨
    (∃ p text stderr, (env.entryAt path).Holds p ∧ answerAbout path p action = some text ∧
      start env arguments = answer env.stdout text stderr) ∨
    ∃ p log, (env.entryAt path).Holds p ∧ action = .run ∧
      start env arguments = .running p { sink := env.stdout } log := by
  rcases (env.entryAt path).unusable_or_holds with hunusable | ⟨p, hp⟩
  · exact Or.inl ⟨hunusable, start_of_unusable hcommand hunusable⟩
  · obtain ⟨log, hstart⟩ := start_of_holds hcommand hp
    cases htext : answerAbout path p action with
    | some text =>
      rw [perform_of_answerAbout htext] at hstart
      exact Or.inr (Or.inl ⟨p, text, log, hp, htext, hstart⟩)
    | none =>
      cases action with
      | run => exact Or.inr (Or.inr ⟨p, _, hp, rfl, hstart⟩)
      | check | disassemble => cases htext

/-- When the run has stopped, the session is over. -/
theorem settle_of_ne_running {s : Status} (h : s ≠ .running) (shows : Callsite → Bool)
    (p : Program) (m : Machine) (stderr : List Notice) :
    ∃ stderr', settle shows p m stderr s = .ended ⟨exitAfter s, m.sink.written, stderr'⟩ := by
  cases s with
  | running => exact absurd rfl h
  | halted | failed e => exact ⟨_, rfl⟩

/-- A session that was running and is over has stopped with the run. -/
theorem stopped_of_resume {shows : Callsite → Bool} {budget : Nat} {m : Machine}
    {stderr : List Notice} {report : Report}
    (h : resume shows budget (.running p m stderr) = .ended report) :
    ∃ s m', m.run p budget = (s, m') ∧ s ≠ .running ∧ report.exit = exitAfter s ∧
      report.stdout = m'.sink.written := by
  rcases hrun : m.run p budget with ⟨s, m'⟩
  rw [resume_running, hrun] at h
  have hs : s ≠ .running := by
    rintro rfl
    cases h
  obtain ⟨stderr', hsettle⟩ := settle_of_ne_running hs shows p m'
    (stderr ++ notices shows (m.runLog p budget))
  obtain rfl := Session.ended.inj (h.symm.trans hsettle)
  exact ⟨s, m', rfl, hs, rfl, rfl⟩

theorem exists_resume_ended {budget : Nat} {m : Machine} (h : (m.run p budget).1 ≠ .running)
    (shows : Callsite → Bool) (stderr : List Notice) :
    ∃ report, resume shows budget (.running p m stderr) = .ended report := by
  rw [resume_running]
  obtain ⟨stderr', hsettle⟩ := settle_of_ne_running h shows p (m.run p budget).2
    (stderr ++ notices shows (m.runLog p budget))
  exact ⟨_, hsettle⟩

end Session

variable {env : Environment} {arguments : List String} {action : Action} {path : String}
  {report : Report}

/-- A session that is over has one of the three ends. -/
theorem ending_of_concludes (hcommand : env.parse arguments = .act action path)
    (hstdout : env.stdout.capacity = none) (h : Concludes env arguments report) :
    Ending (env.entryAt path) env.stdout action path report.exit report.stdout := by
  obtain ⟨budget, hresume⟩ := h
  rcases Session.start_cases hcommand with ⟨hunusable, stderr, hstart⟩ |
    ⟨p, text, stderr, hp, htext, hstart⟩ | ⟨p, log, hp, haction, hstart⟩
  · rw [hstart] at hresume
    cases hresume
    exact .rejected hunusable
  · rw [hstart, Session.answer_of_unbounded hstdout] at hresume
    cases hresume
    exact .answered hp htext
  · rw [hstart] at hresume
    obtain ⟨s, m, hrun, hs, hexit, hwritten⟩ := Session.stopped_of_resume hresume
    rw [hexit, hwritten]
    exact .stopped hp haction hrun hs

/-- A session is over at some time if the program that it is to run stops. -/
theorem exists_concludes (hcommand : env.parse arguments = .act action path)
    (hstdout : env.stdout.capacity = none)
    (hstops : action = .run → ∀ p, (env.entryAt path).Holds p →
      ∃ budget, (Machine.run p budget { sink := env.stdout }).1 ≠ .running) :
    ∃ report, Concludes env arguments report := by
  rcases Session.start_cases hcommand with ⟨-, stderr, hstart⟩ |
    ⟨p, text, stderr, -, -, hstart⟩ | ⟨p, log, hp, haction, hstart⟩
  · exact ⟨_, 0, congrArg (Session.resume env.shows 0) hstart⟩
  · rw [Session.answer_of_unbounded hstdout] at hstart
    exact ⟨_, 0, congrArg (Session.resume env.shows 0) hstart⟩
  · obtain ⟨budget, hs⟩ := hstops haction p hp
    obtain ⟨report, hend⟩ := Session.exists_resume_ended hs env.shows log
    exact ⟨report, budget, hstart ▸ hend⟩

/-! ## What an end tells -/

/-- The run of the program fails with the error when it has written `output`. -/
def FailsAfter (p : Program) (stdout : Sink) (e : RuntimeError) (output : ByteArray) : Prop :=
  ∃ n m m', Machine.run p n { sink := stdout } = (.running, m) ∧ m.step p = (.failed e, m') ∧
    m.sink.written = output

theorem FailsAfter.eq_of_stopped {p : Program} {sink : Sink} {e : RuntimeError}
    {output : ByteArray} (h : FailsAfter p sink e output) (hsink : sink.Accepting) {budget : Nat}
    {s : Status} {m : Machine} (hrun : Machine.run p budget { sink } = (s, m))
    (hs : s ≠ .running) : s = .failed e ∧ m.sink.written = output := by
  obtain ⟨n, before, after, hbefore, hstep, rfl⟩ := h
  have hfailed : Machine.run p (n + 1) { sink } = (.failed e, after) :=
    (Machine.run_succ_of_running hbefore).trans hstep
  obtain ⟨rfl, rfl⟩ := Machine.stopped_unique hrun hs hfailed (by simp)
  have haccepting : before.sink.Accepting := Machine.accepting_run hsink hbefore
  rw [Machine.sink_eq_of_step_failed haccepting hstep]
  exact ⟨rfl, rfl⟩

theorem exists_failsAfter_of_run {p : Program} {sink : Sink} {e : RuntimeError} {budget : Nat}
    {m : Machine} (hrun : Machine.run p budget { sink } = (.failed e, m)) :
    ∃ output, FailsAfter p sink e output := by
  obtain ⟨n, before, -, hbefore, hstep⟩ := Machine.exists_step_of_stopped hrun (by simp)
  exact ⟨_, n, before, m, hbefore, hstep, rfl⟩

namespace Ending

variable {entry : Entry} {stdout : Sink} {exit exit' : Exit} {output output' : ByteArray}

theorem code_eq_one_iff (h : Ending entry stdout action path exit output) :
    exit.code = 1 ↔ entry.Unusable := by
  cases h with
  | rejected hunusable => exact ⟨fun _ => hunusable, fun _ => rfl⟩
  | answered hp =>
    constructor
    · intro hcode
      cases hcode
    · intro hunusable
      exact absurd hp (Entry.not_holds_of_unusable hunusable)
  | @stopped p budget s m hp =>
    constructor
    · intro hcode
      cases s <;> cases hcode
    · intro hunusable
      exact absurd hp (Entry.not_holds_of_unusable hunusable)

theorem output_of_code_eq_one (h : Ending entry stdout action path exit output)
    (hcode : exit.code = 1) : output = stdout.written := by
  cases h with
  | rejected => rfl
  | answered => cases hcode
  | @stopped p budget s => cases s <;> cases hcode

/-- If the run of the program fails, running it ends with this failure. -/
theorem eq_of_failsAfter (h : Ending entry stdout .run path exit output)
    (hstdout : stdout.Accepting) {p : Program} {e : RuntimeError} (hp : entry.Holds p)
    (hfails : FailsAfter p stdout e output') : exit = .fault ∧ output = output' := by
  cases h with
  | rejected hunusable => exact absurd hp (Entry.not_holds_of_unusable hunusable)
  | answered _ htext => cases htext
  | stopped hq _ hrun hs =>
    obtain rfl := hp.unique hq
    obtain ⟨rfl, rfl⟩ := hfails.eq_of_stopped hstdout hrun hs
    exact ⟨rfl, rfl⟩

theorem code_eq_three_iff (h : Ending entry stdout action path exit output)
    (hstdout : stdout.Accepting) :
    exit.code = 3 ↔ action = .run ∧
      ∃ p e output, entry.Holds p ∧ FailsAfter p stdout e output := by
  constructor
  · intro hcode
    cases h with
    | rejected | answered => cases hcode
    | @stopped p budget s m hp haction hrun =>
      cases s with
      | running | halted => cases hcode
      | failed e =>
        obtain ⟨output, hfails⟩ := exists_failsAfter_of_run hrun
        exact ⟨haction, p, e, output, hp, hfails⟩
  · rintro ⟨rfl, p, e, output, hp, hfails⟩
    rw [(h.eq_of_failsAfter hstdout hp hfails).1]
    rfl

theorem code_eq_zero (h : Ending entry stdout action path exit output) (hone : exit.code ≠ 1)
    (hthree : exit.code ≠ 3) : exit.code = 0 := by
  cases h with
  | rejected => exact absurd rfl hone
  | answered => rfl
  | @stopped p budget s =>
    cases s with
    | running | halted => rfl
    | failed e => exact absurd rfl hthree

/-- There is only one end. -/
theorem unique (h : Ending entry stdout action path exit output)
    (h' : Ending entry stdout action path exit' output') : exit = exit' ∧ output = output' := by
  cases h with
  | rejected hunusable =>
    cases h' with
    | rejected => exact ⟨rfl, rfl⟩
    | answered hq | stopped hq => exact absurd hq (Entry.not_holds_of_unusable hunusable)
  | answered hp htext =>
    cases h' with
    | rejected hunusable => exact absurd hp (Entry.not_holds_of_unusable hunusable)
    | answered hq htext' =>
      obtain rfl := hp.unique hq
      rw [htext] at htext'
      cases htext'
      exact ⟨rfl, rfl⟩
    | stopped _ haction =>
      subst haction
      cases htext
  | stopped hp haction hrun hs =>
    cases h' with
    | rejected hunusable => exact absurd hp (Entry.not_holds_of_unusable hunusable)
    | answered _ htext =>
      subst haction
      cases htext
    | stopped hq _ hrun' hs' =>
      obtain rfl := hp.unique hq
      obtain ⟨rfl, rfl⟩ := Machine.stopped_unique hrun hs hrun' hs'
      exact ⟨rfl, rfl⟩

end Ending

/-- What the exit and the standard output tell about an action on the file at a path. -/
structure Classified (env : Environment) (action : Action) (path : String) (report : Report) :
    Prop where
  badInput : report.exit.code = 1 ↔ (env.entryAt path).Unusable
  /-- Nothing is written for a file of no use, also if some of its lines would print. -/
  silent : report.exit.code = 1 → report.stdout = .empty
  fault : report.exit.code = 3 ↔ action = .run ∧
    ∃ p e output, (env.entryAt path).Holds p ∧ FailsAfter p env.stdout e output
  /-- What a failing run has written before is on standard output, and nothing else. -/
  partialOutput : action = .run → ∀ p e output, (env.entryAt path).Holds p →
    FailsAfter p env.stdout e output → report.stdout = output
  success : report.exit.code ≠ 1 → report.exit.code ≠ 3 → report.exit.code = 0
  /-- A program that is not run is no fault, whatever its run would do. -/
  unexecuted : action ≠ .run → ∀ p, (env.entryAt path).Holds p → report.exit.code = 0

theorem Ending.classified
    (h : Ending (env.entryAt path) env.stdout action path report.exit report.stdout)
    (hstdout : env.stdout.Accepting) (hempty : env.stdout.written = .empty) :
    Classified env action path report where
  badInput := h.code_eq_one_iff
  silent := fun hcode => (h.output_of_code_eq_one hcode).trans hempty
  fault := h.code_eq_three_iff hstdout
  partialOutput := by
    rintro rfl p e output hp hfails
    exact (h.eq_of_failsAfter hstdout hp hfails).2
  success := h.code_eq_zero
  unexecuted := by
    intro haction p hp
    apply h.code_eq_zero
    · intro hcode
      exact absurd hp (Entry.not_holds_of_unusable (h.code_eq_one_iff.mp hcode))
    · intro hcode
      exact haction ((h.code_eq_three_iff hstdout).mp hcode).1

/-- An action on a file whose program stops comes to an end, if standard output takes everything.
The exit says whether the file is of no use, the run of its program has failed, or neither; standard
output is empty in the first case, and holds what was written before the failure in the second. What
is set for the log changes neither, whatever it means as a filter. -/
theorem outcome_classified (hcommand : env.parse arguments = .act action path)
    (hstdout : env.stdout.Accepting) (hempty : env.stdout.written = .empty)
    (hstops : action = .run → ∀ p, (env.entryAt path).Holds p →
      ∃ budget, (Machine.run p budget { sink := env.stdout }).1 ≠ .running) :
    (∃ report, Concludes env arguments report) ∧
    (∀ report, Concludes env arguments report → Classified env action path report) ∧
    ∀ (logSetting : Option String) (report report' : Report), Concludes env arguments report →
      Concludes { env with logSetting } arguments report' →
        report'.exit = report.exit ∧ report'.stdout = report.stdout := by
  refine ⟨exists_concludes hcommand hstdout.capacity hstops, ?_, ?_⟩
  · intro report h
    exact (ending_of_concludes hcommand hstdout.capacity h).classified hstdout hempty
  · intro logSetting report report' h h'
    have hending := ending_of_concludes hcommand hstdout.capacity h
    -- neither the parser nor standard output is changed
    have hending' : Ending (env.entryAt path) env.stdout action path report'.exit report'.stdout :=
      @ending_of_concludes { env with logSetting } _ _ _ _ hcommand hstdout.capacity h'
    exact hending'.unique hending

/-- Prints the only value, and then misses two for an addition. -/
def shortAddition : Program := ⟨#[⟨1, .load 1⟩, ⟨2, .print⟩, ⟨3, .binary .add⟩]⟩

/-- The text of `shortAddition` at `a`, and elsewhere one whose last line misses a numeral. -/
def shortAdditions : Environment := twoFiles "32 11\n20\n00" "32 11\n20\n32"

/-- Running the first file fails, with the printed value on standard output, and checking it
succeeds. Running the second file prints nothing. -/
theorem outcome_classified_shortAdditions :
    (∃ report, Concludes shortAdditions ["run", "a"] report ∧ report.exit.code = 3 ∧
      report.stdout = "1".toUTF8) ∧
    (∃ report, Concludes shortAdditions ["check", "a"] report ∧ report.exit.code = 0) ∧
    ∃ report, Concludes shortAdditions ["run", "b"] report ∧ report.exit.code = 1 ∧
      report.stdout = .empty := by
  have haccepting : shortAdditions.stdout.Accepting := ⟨rfl, rfl⟩
  have hholds : (shortAdditions.entryAt "a").Holds shortAddition := ⟨"32 11\n20\n00", rfl, rfl⟩
  have hunusable : (shortAdditions.entryAt "b").Unusable :=
    Or.inr (Or.inr ⟨"32 11\n20\n32", ['3', '2'], .empty, rfl, by decide, rfl⟩)
  have hfails : FailsAfter shortAddition shortAdditions.stdout ⟨3, .underflow (.binary .add) 2⟩
      "1".toUTF8 := ⟨2, _, _, rfl, rfl, rfl⟩
  have hstops : ∀ p, (shortAdditions.entryAt "a").Holds p →
      ∃ budget, (Machine.run p budget { sink := shortAdditions.stdout }).1 ≠ .running := by
    intro p hp
    obtain rfl := hp.unique hholds
    exact ⟨3, by decide⟩
  refine ⟨?_, ?_, ?_⟩
  · have hcommand : shortAdditions.parse ["run", "a"] = .act .run "a" := rfl
    obtain ⟨⟨report, hreport⟩, hclassified, -⟩ :=
      outcome_classified hcommand haccepting rfl fun _ => hstops
    obtain ⟨-, -, hfault, houtput, -, -⟩ := hclassified report hreport
    exact ⟨report, hreport, hfault.mpr ⟨rfl, _, _, _, hholds, hfails⟩,
      houtput rfl _ _ _ hholds hfails⟩
  · have hcommand : shortAdditions.parse ["check", "a"] = .act .check "a" := rfl
    obtain ⟨⟨report, hreport⟩, hclassified, -⟩ :=
      outcome_classified hcommand haccepting rfl fun _ => hstops
    exact ⟨report, hreport, (hclassified report hreport).unexecuted (by decide) _ hholds⟩
  · have hcommand : shortAdditions.parse ["run", "b"] = .act .run "b" := rfl
    obtain ⟨⟨report, hreport⟩, hclassified, -⟩ :=
      outcome_classified hcommand haccepting rfl fun _ p hp =>
        absurd hp (Entry.not_holds_of_unusable hunusable)
    have hcode := (hclassified report hreport).badInput.mpr hunusable
    exact ⟨report, hreport, hcode, (hclassified report hreport).silent hcode⟩

end Cli

end Quaternary
