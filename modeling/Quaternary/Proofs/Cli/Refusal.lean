import Quaternary.Proofs.Cli.Outcome

/-!
# When standard output takes nothing

The exit of a session is 0, 1, 2 or 3 by what has happened, and there is a further one for an answer
that standard output has refused. `Cli.Exits` gives the exit for all arguments and every standard
output, and `Cli.exit_documented_iff` says when the further one occurs: where standard output takes
no byte and the session has to write the verdict on a program or a listing that is not empty. A
program that is run is not affected, as a refused byte is a fault of the instruction that prints it;
nor are the help and the version, which are not missed.
-/

namespace Quaternary

/-- The sink takes no further byte. -/
def Sink.Refusing (s : Sink) : Prop := ∃ capacity, s.capacity = some capacity ∧
  capacity ≤ s.written.size

/-- Of a sink that takes everything or nothing, only the second kind refuses a text, and not the
empty one. -/
theorem Sink.exists_write_error_iff {s : Sink} (h : s.Accepting ∨ s.Refusing) {text : String} :
    (∃ cause, (s.write text.toUTF8).1 = .error cause) ↔ s.Refusing ∧ text ≠ "" := by
  have hsize : text.toUTF8.size = 0 ↔ text = "" := String.utf8ByteSize_eq_zero_iff
  rcases h with haccepting | hrefusing
  · have hwrite : (s.write text.toUTF8).1 = .ok () := by rw [write, haccepting.capacity]
    rw [hwrite]
    constructor
    · rintro ⟨cause, hcause⟩
      cases hcause
    · rintro ⟨⟨capacity, hcapacity, -⟩, -⟩
      rw [haccepting.capacity] at hcapacity
      cases hcapacity
  · obtain ⟨capacity, hcapacity, hfull⟩ := id hrefusing
    have hroom : capacity - s.written.size = 0 := by omega
    simp only [write, hcapacity, hroom]
    by_cases hempty : text = ""
    · rw [if_pos (Nat.le_of_eq (hsize.mpr hempty))]
      simp [hempty]
    · have hbytes : ¬ text.toUTF8.size ≤ 0 := fun hle => hempty (hsize.mp (Nat.le_zero.mp hle))
      rw [if_neg hbytes]
      exact ⟨fun _ => ⟨hrefusing, hempty⟩, fun _ => ⟨_, rfl⟩⟩

theorem Program.listing_ne_empty_iff {p : Program} : p.listing ≠ "" ↔ 0 < p.size := by
  rw [listing, size, ← Array.length_toList]
  cases p.instructions.toList with
  | nil => simp [listingLines]
  | cons i rest => simp [listingLines]

namespace Cli

theorem verdict_ne_empty (path : String) (p : Program) : verdict path p ≠ "" := by
  intro h
  have hlength := congrArg String.length h
  simp [verdict] at hlength

/-- There is something to write about a program, unless it is listed and has no instruction. -/
theorem answerAbout_ne_empty_iff {path text : String} {p : Program} {action : Action}
    (h : answerAbout path p action = some text) :
    text ≠ "" ↔ action = .check ∨ action = .disassemble ∧ 0 < p.size := by
  cases action with
  | run => cases h
  | check =>
    cases h
    simp [verdict_ne_empty]
  | disassemble =>
    cases h
    simp [Program.listing_ne_empty_iff]

/-! ## The exit of a session -/

/-- The exit that a session may end with. -/
inductive Exits (env : Environment) (arguments : List String) : Exit → Prop
  | help {page : String} (h : env.parse arguments = .help page) : Exits env arguments .success
  | version {line : String} (h : env.parse arguments = .version line) : Exits env arguments .success
  | misuse {complaint : String} (h : env.parse arguments = .misuse complaint) :
      Exits env arguments .usage
  | rejected {action : Action} {path : String} (h : env.parse arguments = .act action path)
      (hunusable : (env.entryAt path).Unusable) : Exits env arguments .badInput
  | answered {action : Action} {path text : String} {p : Program}
      (h : env.parse arguments = .act action path)
      (hp : (env.entryAt path).Holds p) (htext : answerAbout path p action = some text)
      (hwrite : (env.stdout.write text.toUTF8).1 = .ok ()) : Exits env arguments .success
  | refused {action : Action} {path text cause : String} {p : Program}
      (h : env.parse arguments = .act action path)
      (hp : (env.entryAt path).Holds p) (htext : answerAbout path p action = some text)
      (hwrite : (env.stdout.write text.toUTF8).1 = .error cause) : Exits env arguments .aborted
  | stopped {path : String} {p : Program} {budget : Nat} {s : Status} {m : Machine}
      (h : env.parse arguments = .act .run path) (hp : (env.entryAt path).Holds p)
      (hrun : Machine.run p budget { sink := env.stdout } = (s, m)) (hs : s ≠ .running) :
      Exits env arguments (exitAfter s)

variable {env : Environment} {arguments : List String}

theorem Session.exits_of_answer {action : Action} {path text : String} {p : Program}
    (h : env.parse arguments = .act action path)
    (hp : (env.entryAt path).Holds p) (htext : answerAbout path p action = some text)
    (stderr : List Notice) :
    ∃ report, answer env.stdout text stderr = .ended report ∧ Exits env arguments report.exit := by
  rw [answer]
  rcases hwrite : env.stdout.write text.toUTF8 with ⟨_ | _, out⟩
  · exact ⟨_, rfl, .refused h hp htext (congrArg Prod.fst hwrite)⟩
  · exact ⟨_, rfl, .answered h hp htext (congrArg Prod.fst hwrite)⟩

/-- A session is over at once, unless it is to run a program. -/
theorem Session.start_ends_or_runs (env : Environment) (arguments : List String) :
    (∃ report, start env arguments = .ended report ∧ Exits env arguments report.exit) ∨
    ∃ path p log, env.parse arguments = .act .run path ∧
      (env.entryAt path).Holds p ∧ start env arguments = .running p { sink := env.stdout } log := by
  cases hinvocation : env.parse arguments with
  | help page =>
    left
    rw [start, hinvocation]
    exact ⟨_, rfl, .help hinvocation⟩
  | version line =>
    left
    rw [start, hinvocation]
    exact ⟨_, rfl, .version hinvocation⟩
  | misuse complaint =>
    left
    rw [start, hinvocation]
    exact ⟨_, rfl, .misuse hinvocation⟩
  | act action path =>
    rcases start_cases hinvocation with ⟨hunusable, stderr, hstart⟩ |
      ⟨p, text, stderr, hp, htext, hstart⟩ | ⟨p, log, hp, rfl, hstart⟩
    · exact Or.inl ⟨_, hstart, .rejected hinvocation hunusable⟩
    · rw [hstart]
      exact Or.inl (exits_of_answer hinvocation hp htext stderr)
    · exact Or.inr ⟨path, p, log, rfl, hp, hstart⟩

theorem exits_of_concludes {report : Report} (h : Concludes env arguments report) :
    Exits env arguments report.exit := by
  obtain ⟨budget, hresume⟩ := h
  rcases Session.start_ends_or_runs env arguments with ⟨report', hstart, hexits⟩ |
    ⟨path, p, log, hcommand, hp, hstart⟩
  · rw [hstart] at hresume
    cases hresume
    exact hexits
  · rw [hstart] at hresume
    obtain ⟨s, m, hrun, hs, hexit, -⟩ := Session.stopped_of_resume hresume
    rw [hexit]
    exact .stopped hcommand hp hrun hs

/-- Every session is over at some time, if the program that it is to run stops. -/
theorem exists_concludes_of_stops
    (hstops : ∀ path p, env.parse arguments = .act .run path →
      (env.entryAt path).Holds p →
        ∃ budget, (Machine.run p budget { sink := env.stdout }).1 ≠ .running) :
    ∃ report, Concludes env arguments report := by
  rcases Session.start_ends_or_runs env arguments with ⟨report, hstart, -⟩ |
    ⟨path, p, log, hcommand, hp, hstart⟩
  · exact ⟨report, 0, congrArg (Session.resume env.shows 0) hstart⟩
  · obtain ⟨budget, hs⟩ := hstops path p hcommand hp
    obtain ⟨report, hend⟩ := Session.exists_resume_ended hs env.shows log
    exact ⟨report, budget, hstart ▸ hend⟩

/-! ## Refused answers -/

/-- Standard output takes nothing, and the verdict on a program or a listing of some instructions is
to be written to it. -/
def AnswerRefused (env : Environment) (arguments : List String) : Prop :=
  env.stdout.Refusing ∧ ∃ path p, (env.entryAt path).Holds p ∧
    (env.parse arguments = .act .check path ∨
      env.parse arguments = .act .disassemble path ∧ 0 < p.size)

theorem answerRefused_iff {action : Action} {path text : String} {p : Program}
    (h : env.parse arguments = .act action path)
    (hp : (env.entryAt path).Holds p) (htext : answerAbout path p action = some text) :
    AnswerRefused env arguments ↔ env.stdout.Refusing ∧ text ≠ "" := by
  rw [AnswerRefused, answerAbout_ne_empty_iff htext, h]
  refine and_congr_right fun _ => ?_
  constructor
  · rintro ⟨path', q, hq, hcommand | ⟨hcommand, hsize⟩⟩
    · cases hcommand
      exact Or.inl rfl
    · cases hcommand
      obtain rfl := hp.unique hq
      exact Or.inr ⟨rfl, hsize⟩
  · rintro (rfl | ⟨rfl, hsize⟩)
    · exact ⟨path, p, hp, Or.inl rfl⟩
    · exact ⟨path, p, hp, Or.inr ⟨rfl, hsize⟩⟩

theorem AnswerRefused.exists_answer (h : AnswerRefused env arguments) :
    ∃ action path p text, env.parse arguments = .act action path ∧
      (env.entryAt path).Holds p ∧ answerAbout path p action = some text := by
  obtain ⟨-, path, p, hp, hcommand | ⟨hcommand, -⟩⟩ := h
  · exact ⟨.check, path, p, _, hcommand, hp, rfl⟩
  · exact ⟨.disassemble, path, p, _, hcommand, hp, rfl⟩

/-- A session is aborted exactly if its answer is refused. -/
theorem Exits.aborted_iff {exit : Exit} (h : Exits env arguments exit)
    (hstdout : env.stdout.Accepting ∨ env.stdout.Refusing) :
    exit = .aborted ↔ AnswerRefused env arguments := by
  by_cases hrefused : AnswerRefused env arguments
  · obtain ⟨action, path, p, text, hcommand, hp, htext⟩ := hrefused.exists_answer
    obtain ⟨cause, hcause⟩ := (Sink.exists_write_error_iff hstdout).mpr
      ((answerRefused_iff hcommand hp htext).mp hrefused)
    refine iff_of_true ?_ hrefused
    -- the command and the program are the same in all cases, and the write fails
    cases h with
    | refused => rfl
    | help h | version h | misuse h =>
      rw [hcommand] at h
      cases h
    | rejected h hunusable =>
      rw [hcommand] at h
      cases h
      exact absurd hp (Entry.not_holds_of_unusable hunusable)
    | answered h hq htext' hwrite =>
      rw [hcommand] at h
      cases h
      obtain rfl := hp.unique hq
      rw [htext] at htext'
      cases htext'
      rw [hcause] at hwrite
      cases hwrite
    | stopped h =>
      rw [hcommand] at h
      cases h
      cases htext
  · refine iff_of_false ?_ hrefused
    rintro rfl
    generalize hexit : Exit.aborted = exit at h
    cases h with
    | help | version | misuse | rejected | answered => cases hexit
    | refused h hp htext hwrite =>
      have herror := (Sink.exists_write_error_iff hstdout).mp ⟨_, hwrite⟩
      exact hrefused ((answerRefused_iff h hp htext).mpr herror)
    | @stopped path p budget s => cases s <;> cases hexit

theorem Exit.code_mem_documented_iff {exit : Exit} :
    exit.code ∈ [0, 1, 2, 3] ↔ exit ≠ .aborted := by
  cases exit <;> decide

theorem Exit.code_eq_aborted_iff {exit : Exit} : exit.code = 101 ↔ exit = .aborted := by
  cases exit <;> decide

/-- Whatever the arguments are, and whatever their parser makes of them, a session whose program
stops comes to an end, be it that standard output takes everything or nothing. Its exit is 0, 1, 2
or 3 exactly if no answer about a program was refused, and otherwise 101. -/
theorem exit_documented_iff (hstdout : env.stdout.Accepting ∨ env.stdout.Refusing)
    (hstops : ∀ path p, env.parse arguments = .act .run path →
      (env.entryAt path).Holds p →
        ∃ budget, (Machine.run p budget { sink := env.stdout }).1 ≠ .running) :
    (∃ report, Concludes env arguments report) ∧
    ∀ report, Concludes env arguments report →
      (report.exit.code ∈ [0, 1, 2, 3] ↔ ¬ AnswerRefused env arguments) ∧
      (report.exit.code = 101 ↔ AnswerRefused env arguments) := by
  refine ⟨exists_concludes_of_stops hstops, ?_⟩
  intro report h
  have haborted := (exits_of_concludes h).aborted_iff hstdout
  rw [Exit.code_mem_documented_iff, Exit.code_eq_aborted_iff, Ne, haborted]
  exact ⟨Iff.rfl, Iff.rfl⟩

/-- Prints a one. -/
def printingOne : Program := ⟨#[⟨1, .load 1⟩, ⟨2, .print⟩]⟩

/-- The text of `printingOne` at every path, and a standard output on a full device. -/
def fullDevice : Environment where
  parse := plainInvocation
  filters := warningReader
  entryAt _ := .file "32 11\n20".toUTF8
  stdout := { capacity := some 0, fullCause := "No space left on device (os error 28)" }

theorem refusing_fullDevice : fullDevice.stdout.Refusing := ⟨0, rfl, Nat.le_refl 0⟩

theorem holds_fullDevice (path : String) : (fullDevice.entryAt path).Holds printingOne :=
  ⟨"32 11\n20", rfl, rfl⟩

theorem stops_fullDevice {path : String} {p : Program} (h : (fullDevice.entryAt path).Holds p) :
    ∃ budget, (Machine.run p budget { sink := fullDevice.stdout }).1 ≠ .running := by
  obtain rfl := h.unique (holds_fullDevice path)
  exact ⟨2, by decide⟩

/-- Running the program on a full device is a fault, and thus documented. -/
theorem exit_documented_iff_fullDevice :
    ∃ report, Concludes fullDevice ["run", "a"] report ∧ report.exit.code ∈ [0, 1, 2, 3] := by
  have hcommand : fullDevice.parse ["run", "a"] = .act .run "a" := rfl
  have hanswered : ¬ AnswerRefused fullDevice ["run", "a"] := by
    rintro ⟨-, path, p, -, hcheck | ⟨hlist, -⟩⟩
    · rw [hcommand] at hcheck
      cases hcheck
    · rw [hcommand] at hlist
      cases hlist
  obtain ⟨⟨report, hreport⟩, hexit⟩ :=
    exit_documented_iff (Or.inr refusing_fullDevice) fun _ _ _ hp => stops_fullDevice hp
  exact ⟨report, hreport, (hexit report hreport).1.mpr hanswered⟩

/-- On a full device, checking or listing the same program ends with an exit that is not
documented. -/
theorem exit_undocumented_fullDevice :
    fullDevice.stdout.Refusing ∧
    (∀ path p, (fullDevice.entryAt path).Holds p →
      ∃ budget, (Machine.run p budget { sink := fullDevice.stdout }).1 ≠ .running) ∧
    ∀ name ∈ ["check", "disassemble"], ∃ report, Concludes fullDevice [name, "a"] report ∧
      report.exit.code ∉ [0, 1, 2, 3] := by
  refine ⟨refusing_fullDevice, fun _ _ => stops_fullDevice, ?_⟩
  intro name hname
  have hcommand : fullDevice.parse [name, "a"] = .act .check "a" ∨
      fullDevice.parse [name, "a"] = .act .disassemble "a" ∧ 0 < printingOne.size := by
    rcases List.mem_cons.mp hname with rfl | hname
    · exact Or.inl rfl
    · obtain rfl := List.mem_singleton.mp hname
      exact Or.inr ⟨rfl, by decide⟩
  have hrefused : AnswerRefused fullDevice [name, "a"] :=
    ⟨refusing_fullDevice, "a", printingOne, holds_fullDevice "a", hcommand⟩
  obtain ⟨report, hreport⟩ : ∃ report, Concludes fullDevice [name, "a"] report :=
    exists_concludes_of_stops fun _ _ _ hp => stops_fullDevice hp
  have hexits := exits_of_concludes hreport
  have haborted := (hexits.aborted_iff (Or.inr refusing_fullDevice)).mpr hrefused
  exact ⟨report, hreport, fun hcode => Exit.code_mem_documented_iff.mp hcode haborted⟩

end Cli

end Quaternary
