import Quaternary.Proofs.Cli.Session
import Quaternary.Proofs.Program.RoundTrip

/-!
# A program and its listing behave alike

A program that was read from a text is ordered, so its listing reads as the same program. What
follows from the program alone is therefore the same for the text and for the listing: the run
against any sink, and the exit, the output and the counts that the command line reports.

The log is not a function of the program. It names the file, and reading a text announces the
lines that it skips, of which a listing has none. But these events are less urgent than a
warning, and the one warning about a program depends on its jumps and line numbers only. So where
nothing is set for the log, and the text `warn` is read as a filter for warnings, the same notices
go to standard error, and two logs differ at most in the times that their events bear.
-/

namespace Quaternary

theorem Program.ofSource_listing_of_ofSource {source : String} {p : Program}
    (h : ofSource source = .ok p) : ofSource p.listing = .ok p :=
  ofSource_listing_eq_self_iff.mpr (ordered_of_ofSource h)

namespace Cli

/-! ## What is logged where nothing is set -/

theorem Environment.showsWarnings {env : Environment} (hunset : env.logSetting = none)
    (hwarn : env.filters.ReadsWarn) : ShowsWarnings env.shows := by
  rw [shows, hunset]
  exact FilterReader.showsWarnings_ofSetting_none hwarn

variable {shows : Callsite → Bool}

/-- Where warnings are shown, the notices of reading a text depend on the program only. -/
theorem notices_readingEvents (hshows : ShowsWarnings shows) {source : String} {p : Program}
    (h : Program.ofSource source = .ok p) :
    notices shows (Program.readingEvents source) = notices shows p.summaryEvents := by
  have hlines : notices shows (Program.lineEvents (numberedLines source)) = [] := by
    refine notices_eq_nil ?_
    intro e he
    rw [hshows, Event.callsite, Program.channel_of_mem_lineEvents he]
    rfl
  rw [Program.readingEvents, h, notices_append, hlines]
  rfl

theorem notices_started (hshows : ShowsWarnings shows) (path : String) (instructions : Nat) :
    notices shows [.started path instructions] = [] := by
  refine notices_eq_nil ?_
  intro e he
  rw [List.mem_singleton.mp he, hshows]
  rfl

/-! ## Sessions on a text and on its listing -/

/-- The file at `original` holds a source text, and the file at `listed` what disassembling the
first has written to standard output. -/
structure Relisted (env : Environment) (source original listed : String) : Prop where
  original_text : (env.entryAt original).text = .ok source
  listed_text : ∃ arguments report,
    env.parse arguments = .act .disassemble original ∧
      Session.start { env with stdout := {} } arguments = .ended report ∧
      env.entryAt listed = .file report.stdout

namespace Session

/-- The two sessions are both at work, or both are over with the same exit and the same standard
output. The notices on standard error are asked to be the same under a condition. -/
def EndAlike (sameStderr : Prop) : Session → Session → Prop
  | .ended report, .ended report' =>
    report.exit = report'.exit ∧ report.stdout = report'.stdout ∧
      (sameStderr → report.stderr = report'.stderr)
  | .running .., .running .. => True
  | _, _ => False

theorem EndAlike.mono {c c' : Prop} {a b : Session} (h : EndAlike c a b) (hc : c' → c) :
    EndAlike c' a b := by
  cases a with
  | ended report =>
    cases b with
    | ended report' => exact ⟨h.1, h.2.1, fun h' => h.2.2 (hc h')⟩
    | running => exact h
  | running =>
    cases b with
    | ended => exact h
    | running => trivial

theorem settle_endAlike (shows : Callsite → Bool) (p : Program) (m : Machine)
    (stderr stderr' : List Notice) (s : Status) :
    EndAlike (stderr = stderr') (settle shows p m stderr s) (settle shows p m stderr' s) := by
  cases s with
  | running => trivial
  | halted | failed e =>
    refine ⟨rfl, rfl, ?_⟩
    rintro rfl
    rfl

/-- Going on with the same machine ends alike, whatever has been on standard error before. -/
theorem resume_endAlike (shows : Callsite → Bool) (budget : Nat) (p : Program) (m : Machine)
    (stderr stderr' : List Notice) :
    EndAlike (stderr = stderr') (resume shows budget (.running p m stderr))
      (resume shows budget (.running p m stderr')) := by
  rw [resume_running, resume_running]
  refine (settle_endAlike shows p _ _ _ _).mono ?_
  rintro rfl
  rfl

end Session

theorem start_disassemble {env : Environment} {arguments : List String} {path source : String}
    {p : Program} (harguments : env.parse arguments = .act .disassemble path)
    (htext : (env.entryAt path).text = .ok source) (hp : Program.ofSource source = .ok p) :
    ∃ log, Session.start { env with stdout := {} } arguments =
      .ended ⟨.success, p.listing.toUTF8, log⟩ := by
  have hperform : Session.start { env with stdout := {} } arguments = _ :=
    Session.start_eq_perform harguments htext hp
  rw [hperform, Session.perform, Session.answer_of_unbounded rfl]
  change ∃ log, Session.ended ⟨_, ByteArray.empty ++ p.listing.toUTF8, _⟩ = .ended ⟨_, _, log⟩
  rw [ByteArray.empty_append]
  exact ⟨_, rfl⟩

theorem Relisted.text_listing {env : Environment} {source original listed : String} {p : Program}
    (h : Relisted env source original listed) (hp : Program.ofSource source = .ok p) :
    (env.entryAt listed).text = .ok p.listing := by
  obtain ⟨arguments, report, harguments, hstart, hlisted⟩ := h.listed_text
  obtain ⟨log, hdisassemble⟩ := start_disassemble harguments h.original_text hp
  obtain rfl := Session.ended.inj (hstart.symm.trans hdisassemble)
  rw [hlisted]
  exact Entry.text_file_toUTF8 p.listing

theorem Relisted.run_endAlike {env : Environment} {source original listed : String} {p : Program}
    (h : Relisted env source original listed) (hp : Program.ofSource source = .ok p)
    {runOriginal runListed : List String} (horiginal : env.parse runOriginal = .act .run original)
    (hlisted : env.parse runListed = .act .run listed) (budget : Nat) :
    Session.EndAlike (env.logSetting = none ∧ env.filters.ReadsWarn)
      ((Session.start env runListed).resume env.shows budget)
      ((Session.start env runOriginal).resume env.shows budget) := by
  have hlisting := Program.ofSource_listing_of_ofSource hp
  rw [Session.start_eq_perform hlisted (h.text_listing hp) hlisting,
    Session.start_eq_perform horiginal h.original_text hp]
  refine (Session.resume_endAlike env.shows budget p { sink := env.stdout } _ _).mono ?_
  rintro ⟨hunset, hwarn⟩
  have hshows := Environment.showsWarnings hunset hwarn
  rw [notices_readingEvents hshows hlisting, notices_readingEvents hshows hp,
    notices_started hshows, notices_started hshows]

/-- The listing of a program that was read from a text reads as that program, is its own
listing, and runs as the text does. On the command line, running the file with the listing gives
the exit and the output of running the original file, and the same notices on standard error where
nothing is set for the log; checking either file reports the same two counts. Which arguments are
commands, and what else a text means as a filter, is left open. -/
theorem listing_behaves_alike {source : String} {p : Program}
    (h : Program.ofSource source = .ok p) :
    Program.ofSource p.listing = .ok p ∧
    (Program.ofSource p.listing).map Program.listing = .ok p.listing ∧
    (∀ (sink : Sink) (budget : Nat),
      (Program.ofSource p.listing).map (fun q => Machine.run q budget { sink }) =
        (Program.ofSource source).map (fun q => Machine.run q budget { sink })) ∧
    ∀ (env : Environment) (original listed : String), Relisted env source original listed →
      (∀ runOriginal runListed : List String, env.parse runOriginal = .act .run original →
        env.parse runListed = .act .run listed →
        ∀ budget, Session.EndAlike (env.logSetting = none ∧ env.filters.ReadsWarn)
          ((Session.start env runListed).resume env.shows budget)
          ((Session.start env runOriginal).resume env.shows budget)) ∧
      (∀ checkOriginal checkListed : List String, env.parse checkOriginal = .act .check original →
        env.parse checkListed = .act .check listed →
        ∃ (instructions skipped : Nat) (stderr stderr' : List Notice),
          Session.start env checkOriginal = .answer env.stdout
            s!"OK: {original} ({instructions} instructions, {skipped} skipped lines)\n" stderr ∧
          Session.start env checkListed = .answer env.stdout
            s!"OK: {listed} ({instructions} instructions, {skipped} skipped lines)\n" stderr') := by
  have hlisting := Program.ofSource_listing_of_ofSource h
  refine ⟨hlisting, ?_, ?_, ?_⟩
  · rw [hlisting]
    rfl
  · intro sink budget
    rw [hlisting, h]
  · intro env original listed hrelisted
    constructor
    · intro runOriginal runListed horiginal hlisted budget
      exact hrelisted.run_endAlike h horiginal hlisted budget
    · intro checkOriginal checkListed horiginal hlisted
      refine ⟨p.size, p.skippedLines, _, _,
        Session.start_eq_perform horiginal hrelisted.original_text h,
        Session.start_eq_perform hlisted (hrelisted.text_listing h) hlisting⟩

/-- Takes the name of an action and a file for a command, and nothing else. -/
def plainInvocation : List String → Invocation
  | [name, path] =>
    match Action.ofName? name with
    | some action => .act action path
    | none => .misuse ""
  | _ => .misuse ""

/-- Reads every text as the filter for warnings, and none strictly. -/
def warningReader : FilterReader where
  read? _ := none
  readLenient _ site := Level.warn.covers site.channel.level

theorem readsWarn_warningReader : warningReader.ReadsWarn := fun _ => rfl

/-- A working directory with a source text at `a` and another one elsewhere. -/
def twoFiles (original listed : String) : Environment where
  parse := plainInvocation
  filters := warningReader
  entryAt path := if path = "a" then .file original.toUTF8 else .file listed.toUTF8

theorem relisted_twoFiles {source : String} {p : Program} (h : Program.ofSource source = .ok p) :
    Relisted (twoFiles source p.listing) source "a" "b" := by
  have htext : ((twoFiles source p.listing).entryAt "a").text = .ok source :=
    Entry.text_file_toUTF8 source
  have harguments : (twoFiles source p.listing).parse ["disassemble", "a"] =
      .act .disassemble "a" := rfl
  obtain ⟨log, hstart⟩ := start_disassemble harguments htext h
  exact ⟨htext, _, _, harguments, hstart, rfl⟩

/-- A text with a comment, scattered blanks, an odd sign, a carriage return, an unknown line and
a count left out, and its listing in a second file: both files end alike when they are run. -/
theorem listing_behaves_alike_skipped_lines :
    Program.ofSource "33 x\n3 2 3013\r\nhello\n23" = .ok ⟨#[⟨2, .load 7⟩, ⟨4, .reverse 2⟩]⟩ ∧
      Program.ofSource "\n32 113\n\n23 12\n" = .ok ⟨#[⟨2, .load 7⟩, ⟨4, .reverse 2⟩]⟩ ∧
      ∀ budget, Session.EndAlike True
        ((Session.start (twoFiles "33 x\n3 2 3013\r\nhello\n23" "\n32 113\n\n23 12\n")
          ["run", "b"]).resume (warningReader.ofSetting none) budget)
        ((Session.start (twoFiles "33 x\n3 2 3013\r\nhello\n23" "\n32 113\n\n23 12\n")
          ["run", "a"]).resume (warningReader.ofSetting none) budget) := by
  have h : Program.ofSource "33 x\n3 2 3013\r\nhello\n23" =
      .ok ⟨#[⟨2, .load 7⟩, ⟨4, .reverse 2⟩]⟩ := rfl
  have hlisting : Program.listing ⟨#[⟨2, .load 7⟩, ⟨4, .reverse 2⟩]⟩ =
      "\n32 113\n\n23 12\n" := rfl
  obtain ⟨hread, -, -, hcli⟩ := listing_behaves_alike h
  have hrun := (hcli _ "a" "b" (relisted_twoFiles h)).1 ["run", "a"] ["run", "b"] rfl rfl
  rw [hlisting] at hread hrun
  exact ⟨h, hread, fun budget => (hrun budget).mono fun _ => ⟨rfl, readsWarn_warningReader⟩⟩

end Cli

end Quaternary
