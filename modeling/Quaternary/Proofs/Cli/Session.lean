import Quaternary.Cli.Session
import Quaternary.Proofs.Machine.Announcements

/-!
# What a session does

A session on a file with the text of a program either answers at once or runs it
(`Session.start_eq_perform`). How a run goes on is said once, by `Session.resume_running`: the
machine runs, and what is shown of the log of the run goes to standard error. A run is traced only
if its steps are shown at all, but the same is shown of it in either case, since a log that is left
out holds steps only.
-/

namespace Quaternary.Cli

/-! ## What is shown -/

theorem notices_append (shows : Callsite → Bool) (xs ys : List Event) :
    notices shows (xs ++ ys) = notices shows xs ++ notices shows ys := by
  simp [notices]

theorem notices_eq_nil {shows : Callsite → Bool} {events : List Event}
    (h : ∀ e ∈ events, shows e.callsite = false) : notices shows events = [] := by
  simpa [notices] using h

/-! ## The start -/

theorem Entry.text_file_toUTF8 (text : String) : (Entry.file text.toUTF8).text = .ok text := by
  have hdecode : String.fromUTF8? text.toUTF8 = some text := dif_pos text.isValidUTF8
  simp only [Entry.text, hdecode]

namespace Session

theorem start_eq_perform {env : Environment} {arguments : List String} {action : Action}
    {path source : String} {p : Program} (harguments : env.parse arguments = .act action path)
    (htext : (env.entryAt path).text = .ok source) (hp : Program.ofSource source = .ok p) :
    start env arguments =
      perform env path p (notices env.shows (Program.readingEvents source)) action := by
  simp only [start, harguments, htext, hp]

theorem answer_of_unbounded {stdout : Sink} (h : stdout.capacity = none) (text : String)
    (stderr : List Notice) :
    answer stdout text stderr = .ended ⟨.success, stdout.written ++ text.toUTF8, stderr⟩ := by
  have hwrite : stdout.write text.toUTF8 =
      (.ok (), { stdout with written := stdout.written ++ text.toUTF8 }) := by
    rw [Sink.write, h]
  rw [answer, hwrite]

/-! ## Going on -/

/-- Whether or not a run is traced, it is the same run, and the same of its log is shown. -/
theorem advance_eq_run (shows : Callsite → Bool) (p : Program) (budget : Nat) (m : Machine) :
    ∃ events, advance shows p budget m = ((m.run p budget).1, (m.run p budget).2, events) ∧
      notices shows (events ++ (m.run p budget).2.closingEvents (m.run p budget).1) =
        notices shows (m.runLog p budget) := by
  obtain ⟨log, htraced⟩ := m.runTraced_eq_run p budget #[]
  have hlog : m.runLog p budget =
      log.toList ++ (m.run p budget).2.closingEvents (m.run p budget).1 := by
    rw [Machine.runLog, htraced]
  rw [advance, hlog]
  by_cases hshows : shows Event.stepCallsite = true
  · rw [if_pos hshows, htraced]
    exact ⟨log.toList, rfl, rfl⟩
  · have hhidden : notices shows log.toList = [] := by
      refine notices_eq_nil ?_
      intro e he
      have hmem : e ∈ (m.runTraced p budget #[]).2.2 := by
        rw [htraced]
        exact Array.mem_toList_iff.mp he
      rcases Machine.callsite_of_mem_runTraced hmem with hnil | hsite
      · cases Array.not_mem_empty e hnil
      · rw [hsite]
        exact eq_false_of_ne_true hshows
    rw [if_neg hshows]
    refine ⟨[], rfl, ?_⟩
    rw [notices_append, notices_append, hhidden]
    rfl

/-- Going on for some steps is a run of the machine. What is shown of its log is written to standard
error. -/
theorem resume_running (shows : Callsite → Bool) (budget : Nat) (p : Program) (m : Machine)
    (stderr : List Notice) :
    resume shows budget (.running p m stderr) =
      settle shows p (m.run p budget).2 (stderr ++ notices shows (m.runLog p budget))
        (m.run p budget).1 := by
  obtain ⟨events, hadvance, hnotices⟩ := advance_eq_run shows p budget m
  simp only [resume, hadvance, hnotices]

end Session

end Quaternary.Cli
